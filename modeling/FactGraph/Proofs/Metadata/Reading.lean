import FactGraph.Proofs.Metadata.Description

/-!
# Descriptions found

A database in which a description has been put in the place of what its node said gives the
description back: a dataset (`Database.Replaced.findDataset`), a variable
(`Database.Replaced.findVariable`), and the label and the declared data type of a qualifier
property. The qualifiers of a variable come in the order of their ids, one of each id
(`Variable.HasQualifiers`); so none is missing if different qualifiers have different ids.

What is looked for by a field is the first node, in order, of those that have it; where many do, it
need not be the one that was put (`Database.Intact.exists_firstVariableNode?`).
-/

namespace FactGraph

/-! ## What is said -/

theorem Dataset.isDescription (d : Dataset) : IsDescription d.said := by
  simp only [IsDescription, said, List.forall_mem_cons, List.not_mem_nil, false_implies,
    implies_true, and_true]
  exact ⟨⟨.inr ⟨_, rfl⟩, by decide⟩, ⟨.inl ⟨_, rfl⟩, by decide⟩, ⟨.inl ⟨_, rfl⟩, by decide⟩,
    ⟨.inl ⟨_, rfl⟩, by decide⟩, .inl ⟨_, rfl⟩, by decide⟩

theorem Variable.isDescription (v : Variable) : IsDescription v.said := by
  simp only [IsDescription, said, List.forall_mem_append, List.forall_mem_map,
    List.forall_mem_cons, List.not_mem_nil, false_implies, implies_true, and_true]
  exact ⟨⟨⟨⟨.inr ⟨_, rfl⟩, by decide⟩, ⟨.inl ⟨_, rfl⟩, by decide⟩, ⟨.inl ⟨_, rfl⟩, by decide⟩,
    ⟨.inr ⟨_, rfl⟩, by decide⟩, .inr ⟨_, rfl⟩, by decide⟩,
    fun d _ => ⟨.inl ⟨d, rfl⟩, by decide⟩⟩, fun q _ => ⟨.inr ⟨q, rfl⟩, by decide⟩⟩

theorem QualifierProperty.isDescription (q : QualifierProperty) : IsDescription q.said := by
  simp only [IsDescription, said, List.forall_mem_cons, List.forall_mem_map]
  exact ⟨⟨.inl ⟨_, rfl⟩, by decide⟩, fun t _ => ⟨.inr ⟨t, rfl⟩, by decide⟩⟩

theorem Dataset.saidOnce (d : Dataset) {label : String} {l : Literal} (hl : (label, l) ∈ d.said) :
    SaidOnce d.said label l := by
  have hnodup : (d.said.map (·.1)).Nodup := by
    show [Vocabulary.instanceOf, Vocabulary.shortName, Vocabulary.label, Vocabulary.description,
      Vocabulary.url].Nodup
    decide
  exact saidOnce_of_nodup (p := fun _ => true) (by simpa using hnodup) rfl hl

/-- A variable says each field once, apart from its qualifiers. -/
theorem Variable.saidOnce (v : Variable) {label : String} {l : Literal}
    (hlabel : label ≠ Vocabulary.hasQualifier) (hl : (label, l) ∈ v.said) :
    SaidOnce v.said label l := by
  have hqualifiers : (v.qualifiers.map fun q => (Vocabulary.hasQualifier, Literal.symbol q)).filter
      (fun pair => decide (pair.1 ≠ Vocabulary.hasQualifier)) = [] := by
    simp [List.filter_eq_nil_iff]
  -- A qualifier may be given more than once; all the other labels are given once each.
  have hnodup : ((v.said.filter fun pair => decide (pair.1 ≠ Vocabulary.hasQualifier)).map
      (·.1)).Nodup := by
    rw [said, List.filter_append, hqualifiers, List.append_nil]
    cases v.description <;>
      simp [Vocabulary.instanceOf, Vocabulary.shortName, Vocabulary.label, Vocabulary.description,
        Vocabulary.dataset, Vocabulary.correspondsTo, Vocabulary.hasQualifier]
  exact saidOnce_of_nodup (p := fun label => decide (label ≠ Vocabulary.hasQualifier)) hnodup
    (decide_eq_true hlabel) hl

theorem QualifierProperty.saidOnce (q : QualifierProperty) {label : String} {l : Literal}
    (hl : (label, l) ∈ q.said) : SaidOnce q.said label l := by
  have hnodup : (q.said.map (·.1)).Nodup := by
    rw [said]
    cases q.declared <;> simp [Vocabulary.label, Vocabulary.declaredDatatype]
  exact saidOnce_of_nodup (p := fun _ => true) (by simpa using hnodup) rfl hl

theorem Variable.mem_said_hasQualifier (v : Variable) {l : Literal} :
    (Vocabulary.hasQualifier, l) ∈ v.said ↔ ∃ q ∈ v.qualifiers, l = .symbol q := by
  simp [said, Vocabulary.instanceOf, Vocabulary.shortName, Vocabulary.label, Vocabulary.description,
    Vocabulary.dataset, Vocabulary.correspondsTo, Vocabulary.hasQualifier, eq_comm]

/-! ## Qualifiers -/

/-- The qualifiers that are read of a variable: some of its own, one of each id, in the order of the
ids. -/
structure Variable.HasQualifiers (v : Variable) (qs : List String) : Prop where
  ascending : qs.Pairwise fun a b => edgeId v.node Vocabulary.hasQualifier a 0 <
    edgeId v.node Vocabulary.hasQualifier b 0
  own : ∀ q ∈ qs, q ∈ v.qualifiers
  each : ∀ q ∈ v.qualifiers, ∃ r ∈ qs, edgeId v.node Vocabulary.hasQualifier r 0 =
    edgeId v.node Vocabulary.hasQualifier q 0

namespace Variable.HasQualifiers

variable {v : Variable} {qs : List String} (h : v.HasQualifiers qs)

include h

theorem eq_of_id_eq {a b : String} (ha : a ∈ qs) (hb : b ∈ qs)
    (hid : edgeId v.node Vocabulary.hasQualifier a 0 = edgeId v.node Vocabulary.hasQualifier b 0) :
    a = b := by
  have hnodup : (qs.map fun q => edgeId v.node Vocabulary.hasQualifier q 0).Nodup :=
    List.pairwise_map.2 (h.ascending.imp fun hlt => ne_of_lt hlt)
  exact List.inj_on_of_nodup_map hnodup ha hb hid

/-- **If different qualifiers have different ids, all of them are read.** -/
theorem mem_iff (hids : ∀ a ∈ v.qualifiers, ∀ b ∈ v.qualifiers,
      edgeId v.node Vocabulary.hasQualifier a 0 = edgeId v.node Vocabulary.hasQualifier b 0 → a = b)
    (q : String) : q ∈ qs ↔ q ∈ v.qualifiers := by
  refine ⟨h.own q, fun hq => ?_⟩
  obtain ⟨r, hr, hid⟩ := h.each q hq
  rwa [← hids r (h.own r hr) q hq hid]

end Variable.HasQualifiers

namespace Database

variable {db other : Database}

/-! ## Descriptions -/

/-- **A dataset that was put is found.** -/
theorem Replaced.findDataset {d : Dataset}
    (h : db.Replaced d.node Dataset.fields (statementsAbout d.node d.said) other)
    (hother : other.Intact) : other.findDataset d.node = .ok (some d) := by
  have hinstance := h.isInstance_of_said hother (d.saidOnce (List.mem_cons_self ..))
  have hfield {label t : String} (hlabel : label ∈ Dataset.fields)
      (hl : (label, .text t) ∈ d.said) : other.fieldText d.node label = .ok t :=
    h.fieldText_of_said hother hlabel (d.saidOnce hl) (.inl rfl)
  have hshortName : other.fieldText d.node Vocabulary.shortName = .ok d.shortName :=
    hfield (by decide) (by simp [Dataset.said])
  have hname : other.fieldText d.node Vocabulary.label = .ok d.name :=
    hfield (by decide) (by simp [Dataset.said])
  have hdescription : other.fieldText d.node Vocabulary.description = .ok d.description :=
    hfield (by decide) (by simp [Dataset.said])
  have hurl : other.fieldText d.node Vocabulary.url = .ok d.url :=
    hfield (by decide) (by simp [Dataset.said])
  rw [Database.findDataset, hinstance, hshortName, hname, hdescription, hurl]
  rfl

/-- **A variable that was put is found**, with one of its qualifiers of each id. -/
theorem Replaced.findVariable {v : Variable}
    (h : db.Replaced v.node Variable.fields (statementsAbout v.node v.said) other)
    (hother : other.Intact) :
    ∃ qs, other.findVariable v.node = .ok (some { v with qualifiers := qs }) ∧
      v.HasQualifiers qs := by
  have hinstance := h.isInstance_of_said hother (v.saidOnce (by decide) (List.mem_cons_self ..))
  have hfield {label t : String} {l : Literal} (hlabel : label ∈ Variable.fields)
      (hplain : label ≠ Vocabulary.hasQualifier) (hl : (label, l) ∈ v.said)
      (ht : l = .text t ∨ l = .symbol t) : other.fieldText v.node label = .ok t :=
    h.fieldText_of_said hother hlabel (v.saidOnce hplain hl) ht
  have hshortName : other.fieldText v.node Vocabulary.shortName = .ok v.shortName :=
    hfield (by decide) (by decide) (by simp [Variable.said]) (.inl rfl)
  have hname : other.fieldText v.node Vocabulary.label = .ok v.name :=
    hfield (by decide) (by decide) (by simp [Variable.said]) (.inl rfl)
  have hdataset : other.fieldText v.node Vocabulary.dataset = .ok v.datasetNode :=
    hfield (by decide) (by decide) (by simp [Variable.said]) (.inr rfl)
  have hproperty : other.fieldText v.node Vocabulary.correspondsTo = .ok v.property :=
    hfield (by decide) (by decide) (by simp [Variable.said]) (.inr rfl)
  have hdescription : other.textOf v.node Vocabulary.description = .ok v.description := by
    cases hd : v.description with
    | none =>
      refine h.textOf_of_unsaid hother (by decide) fun l => ?_
      simp [Variable.said, hd, Vocabulary.instanceOf, Vocabulary.shortName, Vocabulary.label,
        Vocabulary.description, Vocabulary.dataset, Vocabulary.correspondsTo,
        Vocabulary.hasQualifier]
    | some d =>
      exact h.textOf_of_said hother (by decide)
        (v.saidOnce (by decide) (by simp [Variable.said, hd])) (.inl rfl)
  have hsymbol (l : Literal) (hl : (Vocabulary.hasQualifier, l) ∈ v.said) : ∃ t, l = .symbol t := by
    obtain ⟨q, -, rfl⟩ := v.mem_said_hasQualifier.1 hl
    exact ⟨q, rfl⟩
  obtain ⟨hascending, hown, heach⟩ := h.edgesOf_of_said (by decide) hsymbol
  refine ⟨(other.edgesOf v.node Vocabulary.hasQualifier).map Edge.node2, ?_, hascending,
    fun q hq => ?_, fun q hq => heach q (v.mem_said_hasQualifier.2 ⟨q, hq, rfl⟩)⟩
  · rw [Database.findVariable, hinstance, hother.lookup_eq, hshortName, hname, hdataset, hproperty,
      hdescription]
    rfl
  · obtain ⟨q', hq', hsame⟩ := v.mem_said_hasQualifier.1 (hown q hq)
    rwa [Literal.symbol.inj hsame]

/-- **A qualifier property that was put has its label and its declared data type, and no other.** -/
theorem Replaced.nodeLabel_lookup {q : QualifierProperty}
    (h : db.Replaced q.property QualifierProperty.fields (statementsAbout q.property q.said) other)
    (hother : other.Intact) :
    other.nodeLabel q.property = .ok (some q.label) ∧
      other.lookup q.property Vocabulary.declaredDatatype = .ok (q.declared.toList.map fun t =>
        (statementAbout q.property Vocabulary.declaredDatatype (.symbol t)).edge) := by
  constructor
  · exact h.textOf_of_said hother (by decide) (q.saidOnce (List.mem_cons_self ..)) (.inl rfl)
  · rw [hother.lookup_eq]
    congr 1
    cases hd : q.declared with
    | none =>
      refine h.edgesOf_of_unsaid (by decide) fun l => ?_
      simp [QualifierProperty.said, hd, Vocabulary.label, Vocabulary.declaredDatatype]
    | some t =>
      exact h.edgesOf_of_saidOnce (by decide)
        (q.saidOnce (by simp [QualifierProperty.said, hd]))

/-! ## Looking for a field -/

namespace Intact

variable (h : db.Intact)

include h

theorem exists_textOf (node label : String) : ∃ text, db.textOf node label = .ok text := by
  obtain ⟨all, hall, -⟩ := exists_mapM_attach h fun e (he : e ∈ db.edgesOf node label) =>
    (mem_edgesOf.1 he).1
  rw [textOf, h.statements_eq, hall]
  exact ⟨_, rfl⟩

theorem exists_isInstance (node classNode : String) :
    ∃ b, db.isInstance node classNode = .ok b := by
  rw [isInstance, h.lookup_eq]
  exact ⟨_, rfl⟩

theorem exists_findDataset (node : String) : ∃ found, db.findDataset node = .ok found := by
  obtain ⟨b, hb⟩ := h.exists_isInstance node Vocabulary.datasetClass
  obtain ⟨shortName, hshortName⟩ := h.exists_textOf node Vocabulary.shortName
  obtain ⟨name, hname⟩ := h.exists_textOf node Vocabulary.label
  obtain ⟨description, hdescription⟩ := h.exists_textOf node Vocabulary.description
  obtain ⟨url, hurl⟩ := h.exists_textOf node Vocabulary.url
  rw [Database.findDataset, hb]
  cases b with
  | false => exact ⟨none, rfl⟩
  | true =>
    simp only [fieldText, hshortName, hname, hdescription, hurl]
    exact ⟨_, rfl⟩

theorem exists_firstDataset? {node : String} {d : Dataset}
    (hd : db.findDataset node = .ok (some d)) {nodes : List String} (hnode : node ∈ nodes) :
    ∃ found, db.firstDataset? nodes = .ok (some found) := by
  induction nodes with
  | nil => cases hnode
  | cons first rest ih =>
    obtain ⟨found, hfound⟩ := h.exists_findDataset first
    rw [firstDataset?, hfound]
    cases found with
    | some found => exact ⟨found, rfl⟩
    | none =>
      refine ih ((List.mem_cons.1 hnode).resolve_left fun heq => ?_)
      subst heq
      cases hd.symm.trans hfound

/-- **Of nodes in order, a variable is found that is not after any of the dataset among them.** -/
theorem exists_firstVariableNode? {dataset node : String}
    (hdataset : (db.edgesOf node Vocabulary.dataset).any (·.node2 = dataset) = true)
    (hvariable : db.isInstance node Vocabulary.variableClass = .ok true) {nodes : List String}
    (hsorted : nodes.Pairwise (· < ·)) (hnode : node ∈ nodes) :
    ∃ found ≤ node, db.firstVariableNode? dataset nodes = .ok (some found) := by
  induction nodes with
  | nil => cases hnode
  | cons first rest ih =>
    obtain ⟨hfirst, hrest⟩ := List.pairwise_cons.1 hsorted
    rw [firstVariableNode?, h.lookup_eq]
    rcases List.mem_cons.1 hnode with rfl | hlater
    · refine ⟨node, le_rfl, ?_⟩
      simp only [bind, Except.bind, hdataset, if_true, hvariable]
    · obtain ⟨b, hb⟩ := h.exists_isInstance first Vocabulary.variableClass
      have hlt : first < node := hfirst node hlater
      cases hin : (db.edgesOf first Vocabulary.dataset).any (·.node2 = dataset) with
      | false =>
        simpa only [bind, Except.bind, hin, Bool.false_eq_true, if_false] using ih hrest hlater
      | true =>
        cases b with
        | false =>
          simpa only [bind, Except.bind, hin, if_true, hb, Bool.false_eq_true, if_false] using
            ih hrest hlater
        | true =>
          refine ⟨first, hlt.le, ?_⟩
          simp only [bind, Except.bind, hin, if_true, hb]

end Intact

theorem Replaced.exists_datasetByShortName? {d : Dataset}
    (h : db.Replaced d.node Dataset.fields (statementsAbout d.node d.said) other)
    (hother : other.Intact) :
    ∃ found, other.datasetByShortName? d.shortName = .ok (some found) := by
  have hshortName : SaidOnce d.said Vocabulary.shortName (.text d.shortName) :=
    d.saidOnce (by simp [Dataset.said])
  obtain ⟨nodes, hnodes, hmem, -⟩ := h.exists_subjects_of_said hother hshortName
  rw [datasetByShortName?, hnodes]
  exact hother.exists_firstDataset? (h.findDataset hother) hmem

/-- A variable is found by the dataset and the property of one that was put, not after it. -/
theorem Replaced.exists_variableNode? {v : Variable}
    (h : db.Replaced v.node Variable.fields (statementsAbout v.node v.said) other)
    (hother : other.Intact) :
    ∃ found ≤ v.node, other.variableNode? v.datasetNode v.property = .ok (some found) := by
  have hproperty : SaidOnce v.said Vocabulary.correspondsTo (.symbol v.property) :=
    v.saidOnce (by decide) (by simp [Variable.said])
  have hdataset : SaidOnce v.said Vocabulary.dataset (.symbol v.datasetNode) :=
    v.saidOnce (by decide) (by simp [Variable.said])
  have hinstance := h.isInstance_of_said hother (v.saidOnce (by decide) (List.mem_cons_self ..))
  have hany := h.any_edgesOf_of_said hdataset
  rw [Literal.encode_symbol] at hany
  obtain ⟨nodes, hnodes, hmem, hsorted⟩ := h.exists_subjects_of_said hother hproperty
  rw [Literal.encode_symbol] at hnodes
  rw [variableNode?, hnodes]
  exact hother.exists_firstVariableNode? hany hinstance hsorted hmem

end Database

end FactGraph
