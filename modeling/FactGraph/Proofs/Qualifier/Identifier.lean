import FactGraph.Proofs.Query.AllColumns

/-!
# Names in SQL

Of all that is written into a query only the names of qualifiers come from texts of users. They are
parts of the names under which the qualifiers join their tables. In SQL two names are the same if
they have the same characters, whether in quotes or not and whether the letters of ASCII are capital
or small (`identifierOf`); so names that are different texts could still be the same.

Those of resolved qualifiers are not: they have no quotes inside and no capitals, so each is read as
it is written (`Qualifier.IsResolved.identifierOf_source`), and its second letter tells it from the
names of all other joins. **Each resolved qualifier has a name, columns that are told apart, and
joins under names that no other qualifier and no other part of a query uses**
(`Qualifier.safe_names`).
-/

namespace FactGraph

/-! ## Identifiers -/

/-- The characters up to the closing quote. -/
def unquote : List Char → List Char
  | '"' :: '"' :: cs => '"' :: unquote cs
  | '"' :: _ => []
  | c :: cs => c :: unquote cs
  | [] => []

/-- The name that is written so. -/
def identifierOf (written : String) : List Char :=
  (match written.toList with
    | '"' :: quoted => unquote quoted
    | plain => plain).map Char.toLower

theorem unquote_quoted (cs : List Char) :
    unquote (cs.flatMap (fun c => if c = '"' then ['"', '"'] else [c]) ++ ['"']) = cs := by
  induction cs with
  | nil => rfl
  | cons c cs ih =>
    rw [List.flatMap_cons, List.append_assoc]
    by_cases hc : c = '"'
    · rw [if_pos hc, hc, List.cons_append, List.singleton_append, unquote, ih]
    · rw [if_neg hc, List.singleton_append]
      simp [unquote, hc, ih]

theorem identifierOf_quoteName (name : String) :
    identifierOf (quoteName name) = name.toList.map Char.toLower := by
  rw [identifierOf, toList_quoteName, List.cons_append]
  exact congrArg (List.map Char.toLower) (unquote_quoted name.toList)

namespace Alias

theorem identifierOf_ne_of_mem_fixed : ∀ a ∈ fixed, (identifierOf a.sql)[1]? ≠ some 'q' := by
  decide

/-- The parts of a query that do not belong to qualifiers use fixed names. -/
theorem mem_fixed_of_mem_sources {node : Operand} {level : AdminLevel} {a : Alias}
    (h : a ∈ observation :: baseFragment.sources ++ subjectFragment.sources ++
      (placeFragment node level).sources) : a ∈ fixed := by
  have hparts : ∀ a ∈ observation :: baseFragment.sources ++ subjectFragment.sources,
      a ∈ fixed := by
    decide
  have hplace : place level ∈ fixed := by cases level <;> decide
  rcases List.mem_append.1 h with ha | ha
  · exact hparts a ha
  · exact List.mem_singleton.1 ha ▸ hplace

end Alias

/-! ## Qualifiers -/

namespace Qualifier

variable {q r : Qualifier}

namespace IsResolved

/-- The names of a qualifier's tables are read as they are written. -/
theorem identifierOf_source (h : q.IsResolved) (part : QualifierPart) :
    identifierOf (q.source part).sql = (part.mark ++ "_").toList ++ q.name.toList := by
  have hmark : ∀ c ∈ (part.mark ++ "_").toList, isNameCharacter c = true := by
    refine List.all_eq_true.1 ?_
    cases part <;> rfl
  have hplain : ∀ c ∈ (part.mark ++ "_").toList ++ q.name.toList, c.toLower = c := by
    intro c hc
    exact toLower_of_isNameCharacter ((List.mem_append.1 hc).elim (hmark c) h.isPlain)
  rw [source, Alias.sql, identifierOf_quoteName, String.toList_append]
  exact (List.map_congr_left hplain).trans (List.map_id' _)

theorem identifierOf_ne (hq : q.IsResolved) (hr : r.IsResolved) (hne : q.name ≠ r.name)
    (part other : QualifierPart) :
    identifierOf (q.source part).sql ≠ identifierOf (r.source other).sql := by
  have hlength : ∀ part : QualifierPart, (part.mark ++ "_").toList.length = 3 := by
    intro part
    cases part <;> rfl
  intro h
  rw [hq.identifierOf_source, hr.identifierOf_source] at h
  have hnames := congrArg (List.drop 3) h
  rw [List.drop_left' (hlength part), List.drop_left' (hlength other)] at hnames
  exact hne (String.toList_inj.1 hnames)

/-- Tables of qualifiers are told from all others by the second letter. -/
theorem getElem?_identifierOf (h : q.IsResolved) (part : QualifierPart) :
    (identifierOf (q.source part).sql)[1]? = some 'q' := by
  rw [h.identifierOf_source]
  cases part <;> simp [QualifierPart.mark]

end IsResolved

/-- **Names of resolved qualifiers are safe in SQL.** Of a label either nothing is left or a name,
and what is left is left as it is. Whatever a qualifier is resolved from, it has a name and its
columns are told apart; and no table is joined under one of its names by a qualifier with another
name, by the search for a label inside a condition, or by the parts of a query that do not belong to
qualifiers. -/
theorem safe_names :
    (∀ label, (sanitize label = "" ∨ IsName (sanitize label)) ∧
      sanitize (sanitize label) = sanitize label) ∧
    ∀ q : Qualifier, q.IsResolved →
      q.name ≠ "" ∧ IsName q.name ∧ q.fieldNames.Nodup ∧
      (∀ r : Qualifier, r.IsResolved → q.name ≠ r.name →
        ∀ a ∈ q.fragment.sources, ∀ b ∈ r.fragment.sources,
          identifierOf a.sql ≠ identifierOf b.sql) ∧
      ∀ a ∈ q.fragment.sources, identifierOf a.sql ≠ identifierOf "l" ∧
        ∀ node level, ∀ b ∈ .observation :: baseFragment.sources ++ subjectFragment.sources ++
          (placeFragment node level).sources, identifierOf a.sql ≠ identifierOf b.sql := by
  refine ⟨fun label => ⟨sanitize_eq_empty_or_isName label, sanitize_sanitize label⟩, fun q hq => ?_⟩
  refine ⟨hq.isName.ne_empty, hq.isName, q.nodup_fieldNames, ?_, ?_⟩
  · intro r hr hne a ha b hb
    obtain ⟨part, rfl⟩ := Plan.Need.exists_eq_source ha
    obtain ⟨other, rfl⟩ := Plan.Need.exists_eq_source hb
    exact hq.identifierOf_ne hr hne part other
  · intro a ha
    obtain ⟨part, rfl⟩ := Plan.Need.exists_eq_source ha
    -- The second character of an alias tells aliases of qualifiers from all the others.
    have hsecond := hq.getElem?_identifierOf part
    constructor
    · intro heq
      rw [heq] at hsecond
      exact absurd hsecond (by decide)
    · intro node level b hb heq
      rw [heq] at hsecond
      exact Alias.identifierOf_ne_of_mem_fixed b (Alias.mem_fixed_of_mem_sources hb) hsecond

/-- A label with a letter beyond ASCII and with brackets, and one that gives the start of its
name. -/
theorem safe_names_street :
    let street : Qualifier := ⟨"stra_e_2020", "P9000", .stored .quantity, true, false⟩
    let lane : Qualifier := ⟨"stra_e", "P9001", .location, true, true⟩
    Qualifier.resolve "P9000" (some "Quantity") "Straße (2020)" none = .ok street ∧
    Qualifier.resolve "P9001" (some "GlobeCoordinate") "_STRA-e_" none = .ok lane ∧
    IsName (sanitize "Straße (2020)") ∧ IsName street.name ∧
    street.fieldNames = ["stra_e_2020", "stra_e_2020_unit_id", "stra_e_2020_unit"] ∧
    street.fieldNames.Nodup ∧
    (street.source .labelText).sql = "\"sq_stra_e_2020\"" ∧
    identifierOf (street.source .labelText).sql ≠ identifierOf (lane.source .labelText).sql ∧
    identifierOf (street.source .labelText).sql ≠ identifierOf Alias.subjectText.sql := by
  intro street lane
  have hstreet : Qualifier.resolve "P9000" (some "Quantity") "Straße (2020)" none = .ok street := by
    decide +kernel
  have hlane : Qualifier.resolve "P9001" (some "GlobeCoordinate") "_STRA-e_" none = .ok lane := by
    decide +kernel
  obtain ⟨hlabels, hqualifiers⟩ := safe_names
  obtain ⟨-, hname, hfields, hothers, hfixed⟩ := hqualifiers street ⟨_, _, _, hstreet⟩
  have hmem : street.source .labelText ∈ street.fragment.sources := by decide
  have hlabel : IsName (sanitize "Straße (2020)") :=
    (hlabels "Straße (2020)").1.resolve_left (by decide +kernel)
  refine ⟨hstreet, hlane, hlabel, hname, by decide, hfields, by decide, ?_, ?_⟩
  · exact hothers lane ⟨_, _, _, hlane⟩ (by decide) _ hmem _ (by decide)
  · exact (hfixed _ hmem).2 ⟨.observation, .node1⟩ .country .subjectText (by decide)

end Qualifier

end FactGraph
