import FactGraph.Proofs.Text.Split
import FactGraph.Qualifier.Basic

/-!
# Names of qualifiers

A name is made of runs of lower-case letters and digits, with one underscore between them
(`IsName`). Of a label either nothing is left or a name, and names are what is left as it is
(`sanitize_eq_empty_or_isName`, `isName_iff`). **Whatever a qualifier is called and whatever kind it
has, it has such a name** (`Qualifier.IsResolved.isName`).
-/

namespace FactGraph

/-- A character that names are made of. -/
def isNameCharacter (c : Char) : Bool := isNameLetter c || c = '_'

/-- One or more runs of letters and digits, with one underscore between them. -/
def IsName (text : String) : Prop :=
  ∃ runs : List (List Char), runs ≠ [] ∧
    (∀ run ∈ runs, run ≠ [] ∧ ∀ c ∈ run, isNameLetter c = true) ∧
    text.toList = ['_'].intercalate runs

variable {text label : String} {c : Char} {cs : List Char} {runs : List (List Char)}

/-! ## Runs -/

theorem of_mem_nameRuns {run : List Char} (hrun : run ∈ nameRuns cs) :
    run ≠ [] ∧ ∀ c ∈ run, isNameLetter c = true := by
  obtain ⟨hmem, hne⟩ := List.mem_filter.1 hrun
  refine ⟨by simpa using hne, fun c hc => ?_⟩
  simpa using (Text.mem_of_mem_splitOnP hmem hc).2

theorem nameRuns_intercalate (h : ∀ run ∈ runs, run ≠ [] ∧ ∀ c ∈ run, isNameLetter c = true) :
    nameRuns (['_'].intercalate runs) = runs := by
  induction runs with
  | nil => rfl
  | cons run rest ih =>
    obtain ⟨⟨hne, hrun⟩, hrest⟩ := List.forall_mem_cons.1 h
    have hletters : ∀ c ∈ run, (!isNameLetter c) = false := by simpa using hrun
    have hkept : (!run.isEmpty) = true := by simpa using hne
    cases rest with
    | nil =>
      rw [List.intercalate_singleton, nameRuns, List.splitOnP_eq_singleton hletters,
        List.filter_cons, if_pos hkept, List.filter_nil]
    | cons next rest =>
      rw [List.intercalate_cons_cons, List.append_assoc, List.singleton_append, nameRuns,
        List.splitOnP_append_cons_of_forall_mem hletters '_' (by decide),
        List.filter_cons, if_pos hkept]
      exact congrArg (run :: ·) (ih hrest)

/-! ## Names -/

namespace IsName

theorem isNameCharacter (h : IsName text) (hc : c ∈ text.toList) : isNameCharacter c = true := by
  obtain ⟨runs, -, hruns, htext⟩ := h
  rw [htext] at hc
  rcases Text.mem_of_mem_intercalate hc with hc | ⟨run, hrun, hc⟩
  · rw [List.mem_singleton.1 hc]
    rfl
  · rw [FactGraph.isNameCharacter, (hruns run hrun).2 c hc, Bool.true_or]

theorem ne_empty (h : IsName text) : text ≠ "" := by
  rintro rfl
  obtain ⟨runs, hne, hruns, htext⟩ := h
  have hfound := nameRuns_intercalate hruns
  rw [← htext] at hfound
  exact hne hfound.symm

end IsName

theorem toLower_of_isNameCharacter (h : isNameCharacter c = true) : c.toLower = c := by
  refine dif_neg fun hupper => ?_
  rw [isNameCharacter, isNameLetter, Bool.or_eq_true, Bool.or_eq_true, decide_eq_true_eq] at h
  rcases h with (hlower | hdigit) | hunderscore
  · have hmin : 'a'.val ≤ c.val := of_decide_eq_true (Bool.and_eq_true_iff.1 hlower).1
    exact absurd (UInt32.le_trans hmin hupper.2) (by decide)
  · have hmax : c.val ≤ '9'.val := of_decide_eq_true (Bool.and_eq_true_iff.1 hdigit).2
    exact absurd (UInt32.le_trans hupper.1 hmax) (by decide)
  · rw [hunderscore] at hupper
    exact absurd hupper (by decide)

theorem lowered_of_isNameCharacter (h : isNameCharacter c = true) : lowered c = [c] := by
  have hkelvin : c ≠ '\u212A' := by
    intro heq
    rw [heq] at h
    exact absurd h (by decide)
  have hdotted : c ≠ '\u0130' := by
    intro heq
    rw [heq] at h
    exact absurd h (by decide)
  rw [lowered, if_neg hkelvin, if_neg hdotted, toLower_of_isNameCharacter h]

theorem sanitize_eq_empty_or_isName (label : String) :
    sanitize label = "" ∨ IsName (sanitize label) := by
  by_cases hruns : nameRuns (label.toList.flatMap lowered) = []
  · left
    rw [sanitize, hruns]
    rfl
  · right
    exact ⟨_, hruns, fun run hrun => of_mem_nameRuns hrun, String.toList_ofList⟩

/-- A name is left as it is. -/
theorem IsName.sanitize_eq (h : IsName text) : sanitize text = text := by
  have hlowered : text.toList.flatMap lowered = text.toList := by
    rw [List.flatMap_congr fun c hc => lowered_of_isNameCharacter (h.isNameCharacter hc)]
    exact List.flatMap_singleton' _
  obtain ⟨runs, -, hruns, htext⟩ := h
  rw [sanitize, hlowered, htext, nameRuns_intercalate hruns, ← htext, String.ofList_toList]

/-- **Names are what is left as it is.** -/
theorem isName_iff : IsName text ↔ sanitize text = text ∧ text ≠ "" := by
  constructor
  · exact fun h => ⟨h.sanitize_eq, h.ne_empty⟩
  · intro h
    obtain ⟨heq, hne⟩ := h
    have hname := sanitize_eq_empty_or_isName text
    rw [heq] at hname
    exact hname.resolve_left hne

instance : DecidablePred IsName := fun _ => decidable_of_iff _ isName_iff.symm

theorem sanitize_sanitize (label : String) : sanitize (sanitize label) = sanitize label := by
  rcases sanitize_eq_empty_or_isName label with hempty | hname
  · rw [hempty]
    rfl
  · exact hname.sanitize_eq

namespace Qualifier

variable {q : Qualifier}

/-- The qualifier is what its predicate, a label and what is known of its kind make it. -/
def IsResolved (q : Qualifier) : Prop :=
  ∃ declared label observed, resolve q.predicate declared label observed = .ok q

theorem name_of_resolve {predicate label : String} {declared : Option String}
    {observed : Option ValueKind} (h : resolve predicate declared label observed = .ok q) :
    q.name = nameOf predicate label := by
  unfold resolve at h
  cases hkind : kindOf predicate declared observed with
  | error cause => rw [hkind] at h; exact nomatch h
  | ok kind =>
    rw [hkind] at h
    exact (Except.ok.inj h).symm ▸ rfl

theorem isName_nameOf (predicate label : String) : IsName (nameOf predicate label) := by
  have hfixed : ∀ name ∈ [timeName, "stated_in", locationName, "country"], IsName name := by
    decide +kernel
  have hknown : ∀ kind name, wellKnown? predicate = some (kind, name) →
      name ∈ [timeName, "stated_in", locationName, "country"] := by
    unfold wellKnown?
    grind
  unfold nameOf
  split
  next kind name hwell => exact hfixed name (hknown kind name hwell)
  next =>
    split
    next => exact hfixed locationName (by simp)
    next hne =>
      rw [String.isEmpty_iff] at hne
      exact (sanitize_eq_empty_or_isName label).resolve_left hne

/-- **A qualifier has a name.** -/
theorem IsResolved.isName (h : q.IsResolved) : IsName q.name := by
  obtain ⟨declared, label, observed, hresolve⟩ := h
  exact name_of_resolve hresolve ▸ isName_nameOf q.predicate label

theorem IsResolved.isPlain (h : q.IsResolved) {c : Char} (hc : c ∈ q.name.toList) :
    isNameCharacter c = true :=
  h.isName.isNameCharacter hc

end Qualifier

end FactGraph
