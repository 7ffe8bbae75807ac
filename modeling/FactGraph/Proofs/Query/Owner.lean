import FactGraph.Proofs.Query.Source

/-!
# The owners of parts

Of the parts of a request with one owner only the first is joined. The fixed parts have owners of
their own, and no two qualifiers of a request have one name. The owner of a qualifier is its name,
though, and labels such as `Base` or `Place country` give qualifiers the names of fixed owners.
**Every part is joined exactly if no qualifier that is needed is called like a fixed owner that is
needed** (`Plan.joinsAll_iff`).
-/

namespace FactGraph.Plan

variable {qualifiers : List Qualifier} {columns : List String} {places : PlaceFilter}
  {column : String} {need : Need} {a : Alias}

/-! ## Parts with the same owner -/

/-- A column asks for the label of the subject or for a qualifier. -/
theorem columnNeed?_cases (h : columnNeed? qualifiers column = some need) :
    need = .subject ∨ ∃ q ∈ qualifiers, need = .qualifier q := by
  unfold columnNeed? at h
  split at h
  · simp only [Option.ite_none_right_eq_some, Option.some.injEq] at h
    exact .inl h.2.symm
  · obtain ⟨⟨q, expr⟩, howner, rfl⟩ := Option.map_eq_some_iff.1 h
    exact .inr ⟨q, (mem_of_ownerOf? howner).1, rfl⟩

theorem mem_regionNeeds {location : Option Qualifier} :
    need ∈ regionNeeds location places ↔
      places.isEmpty = false ∧ ∃ q, location = some q ∧ need = .qualifier q := by
  unfold regionNeeds
  cases places.isEmpty <;> simp [eq_comm]

theorem mem_needs :
    need ∈ needs qualifiers columns places ↔
      need = .base ∨
      (∃ column ∈ requested qualifiers columns, columnNeed? qualifiers column = some need) ∨
      need ∈ regionNeeds (region? qualifiers) places ∨
      need ∈ levelNeeds (region? qualifiers) places := by
  simp only [needs, columnNeeds, List.mem_append, List.mem_cons, List.mem_filterMap, or_assoc]

theorem mem_neededQualifiers {q : Qualifier} :
    q ∈ neededQualifiers qualifiers columns places ↔
      .qualifier q ∈ needs qualifiers columns places := by
  rw [neededQualifiers, List.mem_filterMap]
  constructor
  · rintro ⟨need, hneed, hsome⟩
    cases need with
    | qualifier found => exact Option.some.inj hsome ▸ hneed
    | _ => exact nomatch hsome
  · exact fun h => ⟨_, h, rfl⟩

/-- A qualifier is needed for a column or for the location. -/
theorem qualifier_mem_needs {q : Qualifier} :
    .qualifier q ∈ needs qualifiers columns places ↔
      (∃ column ∈ requested qualifiers columns,
        columnNeed? qualifiers column = some (.qualifier q)) ∨
      (places.isEmpty = false ∧ region? qualifiers = some q) := by
  simp only [mem_needs, mem_regionNeeds, levelNeeds, List.mem_map, Need.qualifier.injEq,
    reduceCtorEq, false_or, and_false, exists_false, or_false, exists_eq_right']

theorem mem_of_qualifier_mem_needs {q : Qualifier}
    (h : .qualifier q ∈ needs qualifiers columns places) : q ∈ qualifiers := by
  rcases mem_needs.1 h with h | ⟨column, -, hneed⟩ | h | h
  · exact nomatch h
  · obtain h | ⟨found, hfound, h⟩ := columnNeed?_cases hneed
    · exact nomatch h
    · exact Need.qualifier.inj h ▸ hfound
  · obtain ⟨-, found, hfound, h⟩ := mem_regionNeeds.1 h
    exact Need.qualifier.inj h ▸ List.mem_of_find?_eq_some hfound
  · obtain ⟨level, -, h⟩ := List.mem_map.1 h
    exact nomatch h

theorem place_not_mem {location : Option Qualifier} {node : Operand} {level : AdminLevel} :
    .place node level ∉ columnNeeds qualifiers columns ++ regionNeeds location places := by
  intro h
  rcases List.mem_append.1 h with h | h
  · rcases List.mem_cons.1 h with h | h
    · exact nomatch h
    · obtain ⟨column, -, hneed⟩ := List.mem_filterMap.1 h
      obtain h | ⟨found, hfound, h⟩ := columnNeed?_cases hneed <;> exact nomatch h
  · obtain ⟨-, found, hfound, h⟩ := mem_regionNeeds.1 h
    exact nomatch h

/-- All regions of a request are about one node. -/
theorem place_mem_needs {node : Operand} {level : AdminLevel} :
    .place node level ∈ needs qualifiers columns places ↔
      level ∈ places.levels ∧ node = locationNode (region? qualifiers) := by
  constructor
  · intro h
    obtain ⟨found, hfound, heq⟩ :=
      List.mem_map.1 ((List.mem_append.1 h).resolve_left place_not_mem)
    obtain ⟨rfl, rfl⟩ := Need.place.inj heq
    exact ⟨hfound, rfl⟩
  · rintro ⟨h, rfl⟩
    exact List.mem_append_right _ (List.mem_map.2 ⟨level, h, rfl⟩)

theorem place_owner_injective {level other : AdminLevel}
    (h : "place_" ++ level.name = "place_" ++ other.name) : level = other := by
  have hall : ∀ level ∈ AdminLevel.all, ∀ other ∈ AdminLevel.all,
      "place_" ++ level.name = "place_" ++ other.name → level = other := by decide
  exact hall level (by cases level <;> decide) other (by cases other <;> decide) h

theorem place_owner_ne (level : AdminLevel) :
    "place_" ++ level.name ≠ "base" ∧ "place_" ++ level.name ≠ "main_subject" ∧
      "place_" ++ level.name ≠ Qualifier.timeName := by
  cases level <;> decide

/-- Two parts of a request with one origin are one. -/
theorem need_eq_of_owner_eq (hnames : (qualifiers.map (·.name)).Nodup) {other : Need}
    (hneed : need ∈ needs qualifiers columns places)
    (hother : other ∈ needs qualifiers columns places) (hfixed : need.isFixed = other.isFixed)
    (howner : need.owner = other.owner) : need = other := by
  -- Within qualifiers the name decides, within places the level. The fixed owners differ from each
  -- other, and being fixed tells the rest apart.
  cases need with
  | qualifier q => cases other with
    | qualifier q' =>
      have := List.inj_on_of_nodup_map hnames (mem_of_qualifier_mem_needs hneed)
        (mem_of_qualifier_mem_needs hother) howner
      rw [this]
    | _ => exact nomatch hfixed
  | place node level => cases other with
    | place node' level' =>
      rw [(place_mem_needs.1 hneed).2, (place_mem_needs.1 hother).2, place_owner_injective howner]
    | qualifier q => exact nomatch hfixed
    | base => exact absurd howner (place_owner_ne level).1
    | subject => exact absurd howner (place_owner_ne level).2.1
  | base => cases other with
    | base => rfl
    | qualifier q => exact nomatch hfixed
    | place node level => exact absurd howner.symm (place_owner_ne level).1
    | subject => exact absurd howner (by decide)
  | subject => cases other with
    | subject => rfl
    | qualifier q => exact nomatch hfixed
    | place node level => exact absurd howner.symm (place_owner_ne level).2.1
    | base => exact absurd howner (by decide)

/-! ## Which parts are joined -/

/-- Every part of the request is joined. -/
def JoinsAll (qualifiers : List Qualifier) (columns : List String) (places : PlaceFilter) : Prop :=
  ∀ need ∈ needs qualifiers columns places,
    need.fragment ∈ joinedFragments qualifiers columns places

/-- The owners of a request that are not called like a qualifier. -/
def fixedOwners (qualifiers : List Qualifier) (columns : List String) (places : PlaceFilter) :
    List String :=
  ((needs qualifiers columns places).filter Need.isFixed).map Need.owner

theorem mem_fixedOwners {owner : String} :
    owner ∈ fixedOwners qualifiers columns places ↔
      ∃ need ∈ needs qualifiers columns places, need.isFixed = true ∧ need.owner = owner := by
  simp only [fixedOwners, List.mem_map, List.mem_filter, and_assoc]

theorem exists_need_of_mem_joinedFragments {f : JoinFragment}
    (h : f ∈ joinedFragments qualifiers columns places) :
    ∃ need ∈ needs qualifiers columns places, need.fragment = f :=
  List.mem_map.1 (Fragment.mem_of_mem_firsts h)

theorem exists_joined_of_mem_needs (h : need ∈ needs qualifiers columns places) :
    ∃ other ∈ needs qualifiers columns places, other.owner = need.owner ∧
      other.fragment ∈ joinedFragments qualifiers columns places := by
  obtain ⟨f, hf, howner⟩ := Fragment.exists_mem_firsts (List.mem_map.2 ⟨need, h, rfl⟩)
  obtain ⟨other, hother, rfl⟩ := exists_need_of_mem_joinedFragments hf
  exact ⟨other, hother, howner, hf⟩

/-- **Parts are left out exactly where a qualifier is called like another owner.** -/
theorem joinsAll_iff (hnames : (qualifiers.map (·.name)).Nodup) :
    JoinsAll qualifiers columns places ↔
      ∀ q ∈ neededQualifiers qualifiers columns places,
        q.name ∉ fixedOwners qualifiers columns places := by
  simp only [mem_neededQualifiers]
  constructor
  · intro hall q hq hmem
    obtain ⟨fixed, hneed, hisFixed, howner⟩ := mem_fixedOwners.1 hmem
    have hsame : fixed.fragment = (Need.qualifier q).fragment :=
      Fragment.eq_of_mem_firsts (hall _ hneed) (hall _ hq) howner
    have hsource : q.source .edge ∈ (Need.qualifier q).fragment.sources := by
      rw [Need.sources_qualifier]
      exact List.mem_cons_self
    have horigin : (q.source .edge).origin? = some (fixed.isFixed, fixed.owner) :=
      Need.origin?_of_mem_sources (hsame ▸ hsource)
    rw [hisFixed] at horigin
    exact nomatch horigin
  · intro hclash need hneed
    obtain ⟨other, hother, howner, hjoined⟩ := exists_joined_of_mem_needs hneed
    -- Of two parts with this owner, one fixed and one not, the latter would be a qualifier with a
    -- clash.
    have hfixed : other.isFixed = need.isFixed := by
      cases hneedFixed : need.isFixed <;> cases hotherFixed : other.isFixed <;> try rfl
      · cases need with
        | qualifier q =>
          exact absurd (mem_fixedOwners.2 ⟨other, hother, hotherFixed, howner⟩) (hclash q hneed)
        | _ => exact nomatch hneedFixed
      · cases other with
        | qualifier q =>
          exact absurd (mem_fixedOwners.2 ⟨need, hneed, hneedFixed, howner.symm⟩) (hclash q hother)
        | _ => exact nomatch hotherFixed
    rw [← need_eq_of_owner_eq hnames hother hneed hfixed howner]
    exact hjoined

theorem fragment_mem_of_source (hnames : (qualifiers.map (·.name)).Nodup)
    (hneed : need ∈ needs qualifiers columns places) (ha : a ∈ need.fragment.sources)
    (hjoined : ∃ f ∈ joinedFragments qualifiers columns places, a ∈ f.sources) :
    need.fragment ∈ joinedFragments qualifiers columns places := by
  obtain ⟨f, hf, hmem⟩ := hjoined
  obtain ⟨other, hother, rfl⟩ := exists_need_of_mem_joinedFragments hf
  have horigin := (Need.origin?_of_mem_sources ha).symm.trans (Need.origin?_of_mem_sources hmem)
  simp only [Option.some.injEq, Prod.mk.injEq] at horigin
  rw [need_eq_of_owner_eq hnames hneed hother horigin.1 horigin.2]
  exact hf

/-! ## Names that are told apart -/

theorem firstRepeated?_eq_none_iff {seen names : List String} :
    firstRepeated? seen names = none ↔ names.Nodup ∧ ∀ name ∈ names, name ∉ seen := by
  -- On the names, while those that have been seen grow by each that is passed.
  induction names generalizing seen with
  | nil => simp [firstRepeated?]
  | cons name names ih =>
    by_cases hseen : name ∈ seen
    · simp [firstRepeated?, hseen]
    · rw [firstRepeated?, if_neg hseen, ih, List.nodup_cons, List.forall_mem_cons]
      constructor
      · rintro ⟨hnodup, hrest⟩
        exact ⟨⟨fun h => hrest name h List.mem_cons_self, hnodup⟩, hseen,
          fun x hx h => hrest x hx (List.mem_cons_of_mem _ h)⟩
      · rintro ⟨⟨hnew, hnodup⟩, -, hrest⟩
        exact ⟨hnodup, fun x hx h =>
          (List.mem_cons.1 h).elim (fun heq => hnew (heq ▸ hx)) (hrest x hx)⟩

theorem nodup_names_of_checkQualifiers (h : checkQualifiers qualifiers = .ok ()) :
    (qualifiers.map (·.name)).Nodup := by
  unfold checkQualifiers at h
  split at h
  · exact nomatch h
  · split at h
    next => exact nomatch h
    next hnone => exact (firstRepeated?_eq_none_iff.1 hnone).1

end FactGraph.Plan
