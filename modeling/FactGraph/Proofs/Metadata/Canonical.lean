import FactGraph.Proofs.Metadata.Put
import FactGraph.Proofs.Row.Columns
import FactGraph.Proofs.Row.Explosion

/-!
# Descriptions exported and imported again

**Theorem (`descriptions_canonical`).** The statements of a dataset and of a qualifier property that
are in order are canonical: the written value is read as the literal of the value. The statements of
a variable are canonical *exactly if* neither its dataset nor its property nor a qualifier starts
like a literal of another kind. Statements of a description that are written to a flat file are read
again as they were exactly if they are canonical.

Words are said in a description, that is texts and symbols. A text is always read back. A symbol is
written as it is, and read as one only if its first character announces nothing else. The check of a
node asks for something without blanks (`isNode_of_checkNode`), which `5` is.
-/

namespace FactGraph

open Text (IsInline isBlankText)

namespace Statement

variable {s : Statement} {statements : List Statement}

/-- The written value is read as the literal of the value, and the kind is that of the literal. -/
def IsCanonical (s : Statement) : Prop :=
  Literal.decode s.edge.node2 = .ok s.value.toLiteral ∧ s.edge.kind = s.value.toLiteral.kind

/-- The statements are read again from the flat file that they are written to, and no row of it is
rejected. -/
def Reimport (statements : List Statement) : Prop :=
  ∃ flats, TabFile.readFlat (Text.bytes (TabFile.writeFlat (statements.map toFlat))) = .ok flats ∧
    ∀ failFast, explode failFast flats = ⟨statements, []⟩

/-- The statement is that of a literal, and all of its row but the literal is accepted. -/
structure Exportable (s : Statement) : Prop where
  fits : s.toFlat.Fits
  node1 : isBlankText s.edge.node1 = false
  label : isBlankText s.edge.label = false
  eq : s = .ofLiteral s.edge.id s.edge.node1 s.edge.label s.value.toLiteral

/-! ## One row -/

/-- **The row of a canonical statement** is read as the statement. -/
theorem Exportable.explodeRow_toFlat (h : s.Exportable) (hs : s.IsCanonical)
    (seen : List Triple) : explodeRow seen s.toFlat = .ok (s, seen) := by
  have hid : s.toFlat.id.filter (!·.isEmpty) = some s.edge.id := by
    have hne : s.edge.id ≠ "" := fun hempty => h.fits.id (congrArg some hempty)
    simp [toFlat, Option.filter, hne]
  have hnode1 : isBlankText s.toFlat.node1 = false := h.node1
  have hlabel : isBlankText s.toFlat.label = false := h.label
  have hread : Literal.decode s.toFlat.node2 = .ok s.value.toLiteral := hs.1
  rw [explodeRow, hnode1, hlabel, hread]
  simp only [Bool.false_eq_true, if_false, hid]
  rw [toFlat, ← h.eq]

theorem isCanonical_of_gives (h : s.toFlat.Gives s) : s.IsCanonical := by
  obtain ⟨v, hdecode, hs⟩ := h.literal
  have hvalue : s.value.toLiteral = v := by
    rw [hs]
    exact (Literal.formed_of_decode hdecode).1.toLiteral_ofLiteral
  refine ⟨hdecode.trans (congrArg Except.ok hvalue.symm), ?_⟩
  rw [hvalue, hs]
  rfl

/-! ## Whole files -/

/-- **Rows of statements are read as the statements** exactly if these are canonical. -/
theorem explodeFrom_toFlat_iff (h : ∀ s ∈ statements, s.Exportable) (failFast : Bool)
    (line : Nat) (seen : List Triple) :
    explodeFrom failFast line seen (statements.map toFlat) = ⟨statements, []⟩ ↔
      ∀ s ∈ statements, s.IsCanonical := by
  -- On the statements, with any line and any triples seen, since all ids are given.
  induction statements generalizing line seen with
  | nil => exact iff_of_true rfl (List.forall_mem_nil _)
  | cons s statements ih =>
    have ih := ih (fun t ht => h t (.tail _ ht)) (line + 1)
    rw [List.map_cons, explodeFrom, List.forall_mem_cons]
    rcases explodeRow_cases seen s.toFlat with ⟨-, t, seen', hrow, hgives⟩ | ⟨-, fault, hrow⟩
    · rw [hrow]
      simp only [ExplodeReport.mk.injEq, List.cons.injEq]
      constructor
      · rintro ⟨⟨rfl, hrest⟩, herrors⟩
        refine ⟨isCanonical_of_gives hgives, (ih seen').1 ?_⟩
        exact congr (congrArg ExplodeReport.mk hrest) herrors
      · rintro ⟨hs, hrest⟩
        obtain ⟨rfl, rfl⟩ := Prod.mk.inj (Except.ok.inj
          (((h s List.mem_cons_self).explodeRow_toFlat hs seen).symm.trans hrow))
        have hreport := (ih seen).2 hrest
        exact ⟨⟨rfl, congrArg ExplodeReport.statements hreport⟩,
          congrArg ExplodeReport.errors hreport⟩
    · rw [hrow]
      constructor
      · intro hreport
        cases congrArg ExplodeReport.errors hreport
      · rintro ⟨hs, -⟩
        cases hrow.symm.trans ((h s List.mem_cons_self).explodeRow_toFlat hs seen)

/-- **Statements are imported again as they were exported** exactly if they are canonical. -/
theorem reimport_iff (h : ∀ s ∈ statements, s.Exportable) :
    Reimport statements ↔ ∀ s ∈ statements, s.IsCanonical := by
  have hread := TabFile.readFlat_of_fits (statements.map toFlat) (by
    simpa only [List.forall_mem_map] using fun s hs => (h s hs).fits)
  constructor
  · rintro ⟨flats, hflats, hexplode⟩
    rw [← Except.ok.inj (hread.symm.trans hflats)] at hexplode
    exact (explodeFrom_toFlat_iff h false 2 []).1 (hexplode false)
  · exact fun hs => ⟨_, hread, fun failFast => (explodeFrom_toFlat_iff h failFast 2 []).2 hs⟩

end Statement

/-! ## Words -/

section Words

variable {node label t : String} {l : Literal} {said : List (String × Literal)}

/-- A symbol is read as itself exactly if its first character announces nothing else. -/
theorem Literal.decode_eq_symbol_iff : decode t = .ok (symbol t) ↔ (symbol t).WellFormed := by
  constructor
  · intro h
    obtain ⟨c, hhead, hannounces, -⟩ := decode_cases h
    exact ⟨c, hhead, by simpa [announces] using hannounces⟩
  · rintro ⟨c, hhead, hc⟩
    exact decode_symbol hhead hc

/-- **What is said by a word is canonical** exactly if the word is well-formed. -/
theorem Literal.IsWord.isCanonical_iff (h : l.IsWord) :
    (statementAbout node label l).IsCanonical ↔ l.WellFormed := by
  rcases h with ⟨t, rfl⟩ | ⟨t, rfl⟩
  · exact iff_of_true ⟨Literal.decode_encode_text t, rfl⟩ True.intro
  · have hnode2 : (statementAbout node label (.symbol t)).edge.node2 = t := Literal.encode_symbol t
    rw [Statement.IsCanonical, hnode2, ← Literal.decode_eq_symbol_iff]
    exact and_iff_left rfl

/-- What is said has no breaks in a file. -/
def IsInlineSaid (said : List (String × Literal)) : Prop :=
  ∀ pair ∈ said, IsInline pair.1 ∧ IsInline pair.2.encode

theorem IsDescription.exportable (hsaid : IsDescription said) (hinline : IsInlineSaid said)
    (hnode : IsInline node) (hblank : isBlankText node = false) :
    ∀ s ∈ statementsAbout node said, s.Exportable := by
  intro s hs
  obtain ⟨label, l, hl, rfl⟩ := mem_statementsAbout.1 hs
  obtain ⟨hlabel, hencode⟩ := hinline _ hl
  obtain ⟨hword, hlabelBlank⟩ := hsaid _ hl
  refine ⟨⟨?_, ?_⟩, hblank, hlabelBlank, ?_⟩
  · intro text htext
    simp only [TabFile.flatFields, List.mem_cons, List.not_mem_nil, or_false] at htext
    rcases htext with rfl | rfl | rfl | rfl
    · exact isInline_edgeId hnode hlabel l.encode 0
    · exact hnode
    · exact hlabel
    · exact hencode
  · intro hempty
    have hhyphen := hyphen_mem_edgeId node label l.encode 0
    have hid : edgeId node label l.encode 0 = "" := Option.some.inj hempty
    rw [hid] at hhyphen
    cases hhyphen
  · rcases hword with ⟨t, rfl⟩ | ⟨t, rfl⟩ <;> rfl

/-- **The statements of a description are imported again** exactly if they are canonical, and they
are exactly if its words are well-formed. -/
theorem IsDescription.canonical_iff (hsaid : IsDescription said) (hinline : IsInlineSaid said)
    (hnode : IsInline node) (hblank : isBlankText node = false) :
    ((∀ s ∈ statementsAbout node said, s.IsCanonical) ↔ ∀ pair ∈ said, pair.2.WellFormed) ∧
      (Statement.Reimport (statementsAbout node said) ↔ ∀ pair ∈ said, pair.2.WellFormed) := by
  have hcanonical : (∀ s ∈ statementsAbout node said, s.IsCanonical) ↔
      ∀ pair ∈ said, pair.2.WellFormed := by
    constructor
    · intro h pair hpair
      exact (hsaid pair hpair).1.isCanonical_iff.1
        (h _ (mem_statementsAbout.2 ⟨pair.1, pair.2, hpair, rfl⟩))
    · intro h s hs
      obtain ⟨label, l, hl, rfl⟩ := mem_statementsAbout.1 hs
      exact (hsaid _ hl).1.isCanonical_iff.2 (h _ hl)
  exact ⟨hcanonical, (Statement.reimport_iff
    (hsaid.exportable hinline hnode hblank)).trans hcanonical⟩

end Words

/-! ## Nodes -/

/-- A text that is not blank and has no blanks. -/
structure IsNode (t : String) : Prop where
  notBlank : isBlankText t = false
  solid : ∀ c ∈ t.toList, Text.isBlank c = false

theorem isNode_of_checkNode {field t : String} (h : checkNode field t = .ok ()) : IsNode t := by
  unfold checkNode checkSet at h
  split at h
  · cases h
  next hblank =>
    simp only [bind, Except.bind] at h
    split at h
    · cases h
    next hsolid => exact ⟨by simpa using hblank, by simpa using hsolid⟩

namespace IsNode

variable {t : String} (h : IsNode t)

include h

theorem isInline : IsInline t := fun c hc =>
  Text.isBreak_eq_false (p := fun c => Text.isBlank c = false) (h.solid c hc) (by decide)
    (by decide) (by decide)

theorem isInline_encode : IsInline (Literal.symbol t).encode := by
  rw [Literal.encode_symbol]
  exact h.isInline

/-- A node is a well-formed symbol if it does not start like a literal of another kind. -/
theorem wellFormed_iff :
    (Literal.symbol t).WellFormed ↔ ∀ c ∈ t.toList.head?, Literal.isSigil c = false := by
  cases hhead : t.toList.head? with
  | none =>
    have hempty : t.toList = [] := List.head?_eq_none_iff.1 hhead
    exact absurd h.notBlank (by simp [isBlankText, hempty])
  | some c => simp [Literal.WellFormed, hhead]

end IsNode

/-! ## Declared data types -/

namespace QualifierKind

/-- The names of declared data types. -/
def declaredNames : List String :=
  ["GlobeCoordinate", "Quantity", "Time", "String", "MonolingualText", "ExternalIdentifier",
   "WikibaseItem", "WikibaseProperty", "Url"]

theorem bareName_mem_of_ofDeclared {declared : String} {kind : QualifierKind}
    (h : ofDeclared declared = .ok kind) : bareName declared ∈ declaredNames := by
  unfold ofDeclared at h
  split at h
  case h_10 => cases h
  all_goals simp [declaredNames, *]

theorem bareName_cases (declared : String) :
    declared = bareName declared ∨
      ∃ ontology ∈ ontologies, declared = ontology ++ bareName declared := by
  unfold bareName
  split
  next ontology hfind =>
    have hprefix := List.find?_some hfind
    obtain ⟨rest, hrest⟩ := List.isPrefixOf_iff_prefix.1 hprefix
    refine .inr ⟨ontology, List.mem_of_find?_eq_some hfind, String.toList_inj.1 ?_⟩
    rw [String.toList_append, String.toList_ofList, ← hrest, List.drop_left]
  next => exact .inl rfl

theorem wellFormed_of_mem {word : String} (h : word ∈ ontologies ++ declaredNames) :
    (Literal.symbol word).WellFormed ∧ IsInline word := by
  have hall : ∀ word ∈ ontologies ++ declaredNames,
      (word.toList.head?.any (!Literal.isSigil ·)) = true ∧ IsInline word := by decide +kernel
  obtain ⟨hhead, hinline⟩ := hall word h
  obtain ⟨c, hc, hsigil⟩ := (Option.any_eq_true _ _).1 hhead
  exact ⟨⟨c, hc, by simpa using hsigil⟩, hinline⟩

/-- **A declared data type that is known** is a well-formed symbol without breaks. -/
theorem wellFormed_of_ofDeclared {declared : String} {kind : QualifierKind}
    (h : ofDeclared declared = .ok kind) :
    (Literal.symbol declared).WellFormed ∧ IsInline declared := by
  have hname := wellFormed_of_mem (List.mem_append_right _ (bareName_mem_of_ofDeclared h))
  rcases bareName_cases declared with hbare | ⟨ontology, hontology, hdeclared⟩
  · exact hbare ▸ hname
  · obtain ⟨⟨c, hc, hsigil⟩, hinline⟩ := wellFormed_of_mem (List.mem_append_left _ hontology)
    rw [hdeclared]
    refine ⟨⟨c, ?_, hsigil⟩, Text.isInline_append.2 ⟨hinline, hname.2⟩⟩
    rw [String.toList_append, List.head?_append, hc]
    rfl

end QualifierKind

/-! ## Descriptions that are in order -/

theorem isInline_encode_text (t : String) : IsInline (Literal.text t).encode :=
  Literal.isInline_encode True.intro nofun

namespace Dataset

variable {d : Dataset}

theorem isNode_of_check (h : d.check = .ok ()) : IsNode d.node := by
  obtain ⟨_, hnode, -⟩ := exists_of_bind_eq_ok h
  exact isNode_of_checkNode hnode

theorem isInlineSaid (d : Dataset) : IsInlineSaid d.said := by
  simp only [IsInlineSaid, said, List.forall_mem_cons]
  exact ⟨⟨by decide, by decide⟩, ⟨by decide, isInline_encode_text _⟩,
    ⟨by decide, isInline_encode_text _⟩, ⟨by decide, isInline_encode_text _⟩,
    ⟨by decide, isInline_encode_text _⟩, List.forall_mem_nil _⟩

theorem wellFormed_said (d : Dataset) : ∀ pair ∈ d.said, pair.2.WellFormed := by
  simp only [said, List.forall_mem_cons]
  exact ⟨⟨'Q', by decide, by decide⟩, True.intro, True.intro, True.intro, True.intro,
    List.forall_mem_nil _⟩

end Dataset

namespace QualifierProperty

variable {q : QualifierProperty}

theorem isNode_of_check (h : q.check = .ok ()) : IsNode q.property := by
  obtain ⟨_, hnode, -⟩ := exists_of_bind_eq_ok h
  exact isNode_of_checkNode (of_mapError_eq_ok hnode)

theorem exists_ofDeclared_of_check (h : q.check = .ok ()) :
    ∀ declared ∈ q.declared, ∃ kind, QualifierKind.ofDeclared declared = .ok kind := by
  obtain ⟨_, -, h⟩ := exists_of_bind_eq_ok h
  obtain ⟨_, -, h⟩ := exists_of_bind_eq_ok h
  intro declared hdeclared
  obtain ⟨kind, hkind, -⟩ := exists_of_bind_eq_ok
    (forM_eq_ok_iff.1 h declared (Option.mem_toList.2 hdeclared))
  exact ⟨kind, hkind⟩

theorem wellFormed_said (h : q.check = .ok ()) :
    IsInlineSaid q.said ∧ ∀ pair ∈ q.said, pair.2.WellFormed := by
  have hdeclared (declared : String) (hmem : declared ∈ q.declared.toList) :
      (Literal.symbol declared).WellFormed ∧ IsInline declared := by
    obtain ⟨kind, hkind⟩ := exists_ofDeclared_of_check h declared (Option.mem_toList.1 hmem)
    exact QualifierKind.wellFormed_of_ofDeclared hkind
  simp only [IsInlineSaid, said, List.forall_mem_cons, List.forall_mem_map, Literal.encode_symbol]
  exact ⟨⟨⟨by decide, isInline_encode_text _⟩, fun t ht => ⟨by decide, (hdeclared t ht).2⟩⟩,
    True.intro, fun t ht => (hdeclared t ht).1⟩

end QualifierProperty

namespace Variable

variable {v : Variable}

/-- The nodes that a variable tells. -/
def nodes (v : Variable) : List String := v.datasetNode :: v.property :: v.qualifiers

/-- No node that the variable tells starts like a literal of another kind. -/
def HasPlainNodes (v : Variable) : Prop :=
  ∀ node ∈ v.nodes, ∀ c ∈ node.toList.head?, Literal.isSigil c = false

theorem isNode_of_check (h : v.check = .ok ()) :
    IsNode v.node ∧ ∀ node ∈ v.nodes, IsNode node := by
  obtain ⟨_, hnode, h⟩ := exists_of_bind_eq_ok h
  obtain ⟨_, -, h⟩ := exists_of_bind_eq_ok h
  obtain ⟨_, -, h⟩ := exists_of_bind_eq_ok h
  obtain ⟨_, hdataset, h⟩ := exists_of_bind_eq_ok h
  obtain ⟨_, hproperty, hqualifiers⟩ := exists_of_bind_eq_ok h
  simp only [nodes, List.forall_mem_cons]
  exact ⟨isNode_of_checkNode hnode, isNode_of_checkNode hdataset, isNode_of_checkNode hproperty,
    fun q hq => isNode_of_checkNode (forM_eq_ok_iff.1 hqualifiers q hq)⟩

theorem isInlineSaid (h : v.check = .ok ()) : IsInlineSaid v.said := by
  obtain ⟨-, hnodes⟩ := isNode_of_check h
  simp only [nodes, List.forall_mem_cons] at hnodes
  obtain ⟨hdataset, hproperty, hqualifiers⟩ := hnodes
  simp only [IsInlineSaid, said, List.forall_mem_append, List.forall_mem_map,
    List.forall_mem_cons]
  exact ⟨⟨⟨⟨by decide, by decide⟩, ⟨by decide, isInline_encode_text _⟩,
    ⟨by decide, isInline_encode_text _⟩, ⟨by decide, hdataset.isInline_encode⟩,
    ⟨by decide, hproperty.isInline_encode⟩, List.forall_mem_nil _⟩,
    fun t _ => ⟨by decide, isInline_encode_text t⟩⟩,
    fun q hq => ⟨by decide, (hqualifiers q hq).isInline_encode⟩⟩

/-- **A variable says well-formed words** exactly if the nodes that it tells are plain. -/
theorem wellFormed_said_iff (h : v.check = .ok ()) :
    (∀ pair ∈ v.said, pair.2.WellFormed) ↔ v.HasPlainNodes := by
  have hplain : v.HasPlainNodes ↔ ∀ node ∈ v.nodes, (Literal.symbol node).WellFormed :=
    forall₂_congr fun node hnode => ((isNode_of_check h).2 node hnode).wellFormed_iff.symm
  have hclass : (Literal.symbol Vocabulary.variableClass).WellFormed := ⟨'Q', by decide, by decide⟩
  rw [hplain]
  simp only [nodes, said, List.forall_mem_append, List.forall_mem_map, List.forall_mem_cons]
  constructor
  · rintro ⟨⟨⟨-, -, -, hdataset, hproperty, -⟩, -⟩, hqualifiers⟩
    exact ⟨hdataset, hproperty, hqualifiers⟩
  · rintro ⟨hdataset, hproperty, hqualifiers⟩
    exact ⟨⟨⟨hclass, True.intro, True.intro, hdataset, hproperty, List.forall_mem_nil _⟩,
      fun _ _ => True.intro⟩, hqualifiers⟩

end Variable

/-! ## The result -/

/-- **Descriptions that are in order** have statements. Those of datasets and qualifier properties
are canonical and are imported again as they were exported. Those of a variable are exactly if no
node that it tells starts like a literal of another kind. -/
theorem descriptions_canonical (d : Dataset) (q : QualifierProperty) (v : Variable) :
    (d.check = .ok () → ∃ statements, d.statements = .ok statements ∧
      (∀ s ∈ statements, s.IsCanonical) ∧ Statement.Reimport statements) ∧
    (q.check = .ok () → ∃ statements, q.statements = .ok statements ∧
      (∀ s ∈ statements, s.IsCanonical) ∧ Statement.Reimport statements) ∧
    (v.check = .ok () → ∃ statements, v.statements = .ok statements ∧
      ((∀ s ∈ statements, s.IsCanonical) ↔ v.HasPlainNodes) ∧
      (Statement.Reimport statements ↔ v.HasPlainNodes)) := by
  refine ⟨fun h => ?_, fun h => ?_, fun h => ?_⟩
  · have hnode := Dataset.isNode_of_check h
    obtain ⟨hcanonical, hreimport⟩ :=
      d.isDescription.canonical_iff d.isInlineSaid hnode.isInline hnode.notBlank
    exact ⟨_, Dataset.statements_eq_ok_iff.2 ⟨h, rfl⟩, hcanonical.2 d.wellFormed_said,
      hreimport.2 d.wellFormed_said⟩
  · have hnode := QualifierProperty.isNode_of_check h
    obtain ⟨hinline, hsaid⟩ := QualifierProperty.wellFormed_said h
    obtain ⟨hcanonical, hreimport⟩ :=
      q.isDescription.canonical_iff hinline hnode.isInline hnode.notBlank
    exact ⟨_, QualifierProperty.statements_eq_ok_iff.2 ⟨h, rfl⟩, hcanonical.2 hsaid,
      hreimport.2 hsaid⟩
  · obtain ⟨hnode, -⟩ := Variable.isNode_of_check h
    obtain ⟨hcanonical, hreimport⟩ :=
      v.isDescription.canonical_iff (Variable.isInlineSaid h) hnode.isInline hnode.notBlank
    have hsaid := Variable.wellFormed_said_iff h
    exact ⟨_, Variable.statements_eq_ok_iff.2 ⟨h, rfl⟩, hcanonical.trans hsaid,
      hreimport.trans hsaid⟩

/-- A dataset with quotes in its name, a variable of it, and a qualifier property are imported again
as they were exported. -/
theorem descriptions_canonical_population :
    let d : Dataset := ⟨"Qds", "pop", "\"Population\"", "by\tyear", "http://d"⟩
    let v : Variable := ⟨"Vpop", "pop", "Population", "Qds", "P1082", some "by year", ["P585"]⟩
    let q : QualifierProperty := ⟨"P585", "point in time", some "wikibase:Time"⟩
    (∃ statements, d.statements = .ok statements ∧ Statement.Reimport statements) ∧
    (∃ statements, v.statements = .ok statements ∧ Statement.Reimport statements) ∧
    ∃ statements, q.statements = .ok statements ∧ Statement.Reimport statements := by
  intro d v q
  obtain ⟨hdataset, hproperty, hvariable⟩ := descriptions_canonical d q v
  obtain ⟨ds, hds, -, hdsReimport⟩ := hdataset (by decide)
  obtain ⟨qs, hqs, -, hqsReimport⟩ := hproperty (by decide +kernel)
  obtain ⟨vs, hvs, -, hvsReimport⟩ := hvariable (by decide)
  have hplain : v.HasPlainNodes := by
    have hnodes : ∀ node ∈ v.nodes, (node.toList.head?.all (!Literal.isSigil ·)) = true := by decide
    intro node hnode c hc
    have hall := hnodes node hnode
    rw [Option.mem_def.1 hc] at hall
    simpa using hall
  exact ⟨⟨ds, hds, hdsReimport⟩, ⟨vs, hvs, hvsReimport.2 hplain⟩, qs, hqs, hqsReimport⟩

/-- **A node that is a number is said as a symbol and read as a quantity.** -/
theorem variable_not_canonical :
    let v : Variable := ⟨"V", "v", "v", "D", "5", none, []⟩
    let s := statementAbout "V" Vocabulary.correspondsTo (.symbol "5")
    v.check = .ok () ∧ ∃ statements, v.statements = .ok statements ∧ s ∈ statements ∧
      s.value = .symbol "5" ∧
      Literal.decode s.edge.node2 = .ok (.quantity (.ofNumber (.int 5))) ∧ ¬ s.IsCanonical ∧
      ¬ Statement.Reimport statements := by
  intro v s
  have hcheck : v.check = .ok () := by decide
  have hs : s ∈ statementsAbout v.node v.said :=
    mem_statementsAbout.2 ⟨_, _, by simp [v, Variable.said], rfl⟩
  have hread : Literal.decode s.edge.node2 = .ok (.quantity (.ofNumber (.int 5))) := by
    decide +kernel
  have hcanonical : ¬ s.IsCanonical := by
    intro h
    cases hread.symm.trans h.1
  have hexportable := v.isDescription.exportable (Variable.isInlineSaid hcheck)
    (by decide : IsInline v.node) (by decide)
  exact ⟨hcheck, _, Variable.statements_eq_ok_iff.2 ⟨hcheck, rfl⟩, hs, rfl, hread, hcanonical,
    fun h => hcanonical ((Statement.reimport_iff hexportable).1 h s hs)⟩

end FactGraph
