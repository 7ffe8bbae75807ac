import Mathlib.Data.List.Forall2

/-!
# Outcomes

What is done in parts succeeds exactly if each part does. With these lemmas a success is taken apart
into the successes of its parts.
-/

namespace FactGraph

variable {α β ε : Type}

theorem exists_of_map_eq_ok {f : α → β} {x : Except ε α} {b : β}
    (h : x.map f = .ok b) : ∃ a, x = .ok a ∧ f a = b := by
  cases x with
  | error e => cases h
  | ok a => exact ⟨a, rfl, Except.ok.inj h⟩

theorem exists_of_bind_eq_ok {x : Except ε α} {f : α → Except ε β} {b : β}
    (h : x >>= f = .ok b) : ∃ a, x = .ok a ∧ f a = .ok b := by
  cases x with
  | error e => cases h
  | ok a => exact ⟨a, rfl, h⟩

theorem of_mapError_eq_ok {ε' : Type} {f : ε → ε'} {x : Except ε α} {a : α}
    (h : x.mapError f = .ok a) : x = .ok a := by
  cases x with
  | error e => cases h
  | ok b => exact congrArg Except.ok (Except.ok.inj h)

theorem exists_of_toOption_any {x : Except ε α} {p : α → Bool} (h : x.toOption.any p = true) :
    ∃ a, x = .ok a ∧ p a = true := by
  cases x with
  | error e => cases h
  | ok a => exact ⟨a, rfl, h⟩

theorem forM_eq_ok_iff {f : α → Except ε PUnit} {as : List α} :
    as.forM f = .ok ⟨⟩ ↔ ∀ a ∈ as, f a = .ok ⟨⟩ := by
  induction as with
  | nil => exact iff_of_true rfl (List.forall_mem_nil _)
  | cons a as ih =>
    show (f a >>= fun _ => as.forM f) = _ ↔ _
    rw [List.forall_mem_cons, ← ih]
    cases f a with
    | error e => exact iff_of_false nofun fun h => nomatch h.1
    | ok _ => exact (and_iff_right rfl).symm

theorem mapM_eq_ok_iff {f : α → Except ε β} {as : List α} {bs : List β} :
    as.mapM f = .ok bs ↔ List.Forall₂ (fun a b => f a = .ok b) as bs := by
  induction as generalizing bs with
  | nil => cases bs <;> simp [pure, Except.pure]
  | cons a as ih =>
    rw [List.mapM_cons]
    cases ha : f a with
    | error e =>
      refine iff_of_false (fun h => nomatch h) fun h => ?_
      obtain ⟨b, -, hb, -, -⟩ := List.forall₂_cons_left_iff.1 h
      exact nomatch ha.symm.trans hb
    | ok b =>
      cases has : as.mapM f with
      | error e =>
        refine iff_of_false (fun h => nomatch h) fun h => ?_
        obtain ⟨-, others, -, hothers, -⟩ := List.forall₂_cons_left_iff.1 h
        exact nomatch has.symm.trans (ih.2 hothers)
      | ok others =>
        rw [List.forall₂_cons_left_iff]
        constructor
        · intro h
          exact ⟨b, others, ha, ih.1 has, (Except.ok.inj h).symm⟩
        · rintro ⟨b', others', hb, hothers, rfl⟩
          rw [Except.ok.inj (ha.symm.trans hb), Except.ok.inj (has.symm.trans (ih.2 hothers))]
          rfl

end FactGraph
