import FactGraph.Literal.Quantity
import FactGraph.Proofs.Binary64.Rounding

/-!
# The sign of zero

Doubles that are equal as numbers are the same up to the sign of zero (`numEq_iff`), which columns
of doubles do not keep. Order, and the text of a tolerance, do not depend on it.
-/

namespace FactGraph

namespace Binary64

variable {x y : Binary64}

theorem key_unsignedZero (x : Binary64) : x.unsignedZero.key = x.key := by
  match x with
  | nan => rfl
  | ranked negative 0 le => cases negative <;> rfl
  | ranked negative (rank + 1) le => rfl

theorem unsignedZero_eq_of_key_eq (h : x.key = y.key) : x.unsignedZero = y.unsignedZero := by
  match x, y with
  | nan, nan => rfl
  | nan, ranked .. => exact nomatch h
  | ranked .., nan => exact nomatch h
  | ranked a m _, ranked b n _ =>
    have hkey : (if a then -(m : Int) else m) = if b then -(n : Int) else n := by
      simpa [key] using h
    by_cases hm : m = 0
    · have hn : n = 0 := by
        subst hm
        cases a <;> cases b <;> simp at hkey <;> omega
      subst hm
      subst hn
      rfl
    · have hsame : a = b ∧ m = n := by
        cases a <;> cases b <;> simp at hkey <;> first | omega | exact ⟨rfl, by omega⟩
      obtain ⟨rfl, rfl⟩ := hsame
      rfl

/-- **Equal numbers are the same but for the sign of zero.** -/
theorem numEq_iff : x.numEq y = true ↔ x.isNaN = false ∧ x.unsignedZero = y.unsignedZero := by
  constructor
  · intro h
    cases x with
    | nan => cases h
    | ranked a m hm => cases y with
      | nan => cases h
      | ranked b n hn =>
        exact ⟨rfl, unsignedZero_eq_of_key_eq (by simpa [numEq, key] using h)⟩
  · rintro ⟨hnan, hzero⟩
    have hkey : x.key = y.key := by rw [← key_unsignedZero, hzero, key_unsignedZero]
    rw [numEq, ← hkey]
    cases x with
    | nan => cases hnan
    | ranked a m hm => simp [key]

theorem isNaN_of_isFinite (h : x.isFinite = true) : x.isNaN = false := by
  cases x with
  | nan => cases h
  | ranked => rfl

theorem numLe_congr {x' y' : Binary64} (hx : x.unsignedZero = x'.unsignedZero)
    (hy : y.unsignedZero = y'.unsignedZero) : x.numLe y = x'.numLe y' := by
  have hkey : ∀ {a b : Binary64}, a.unsignedZero = b.unsignedZero → a.key = b.key := by
    intro a b h
    rw [← key_unsignedZero, h, key_unsignedZero]
  rw [numLe, hkey hx, hkey hy, numLe]

theorem isNaN_unsignedZero (x : Binary64) : x.unsignedZero.isNaN = x.isNaN := by
  match x with
  | nan => rfl
  | ranked negative 0 le => rfl
  | ranked negative (rank + 1) le => rfl

theorem numEq_of_unsignedZero_eq (h : x.unsignedZero = y.unsignedZero) (hy : y.isFinite = true) :
    x.numEq y = true := by
  refine numEq_iff.2 ⟨?_, h⟩
  rw [← isNaN_unsignedZero, h, isNaN_unsignedZero, isNaN_of_isFinite hy]

theorem isFinite_unsignedZero (x : Binary64) : x.unsignedZero.isFinite = x.isFinite := by
  match x with
  | nan => rfl
  | ranked negative 0 le => rfl
  | ranked negative (rank + 1) le => rfl

@[simp] theorem unsignedZero_unsignedZero (x : Binary64) :
    x.unsignedZero.unsignedZero = x.unsignedZero := by
  match x with
  | nan => rfl
  | ranked negative 0 le => rfl
  | ranked negative (rank + 1) le => rfl

theorem eq_of_unsignedZero_eq {negative : Bool} {rank : Nat} {le : rank + 1 ≤ infinityRank}
    (h : x.unsignedZero = (ranked negative (rank + 1) le).unsignedZero) :
    x = ranked negative (rank + 1) le := by
  match x with
  | nan => exact nomatch h
  | ranked _ 0 _ => exact nomatch (ranked.inj h).2
  | ranked _ (_ + 1) _ => exact h

def isNegativeZero : Binary64 → Bool
  | ranked true 0 _ => true
  | _ => false

theorem unsignedZero_eq_self_iff : x.unsignedZero = x ↔ x.isNegativeZero = false := by
  match x with
  | nan => exact iff_of_true rfl rfl
  | ranked true 0 le => exact iff_of_false (fun h => nomatch (ranked.inj h).1) nofun
  | ranked false 0 le => exact iff_of_true rfl rfl
  | ranked negative (rank + 1) le =>
    exact iff_of_true rfl (by cases negative <;> rfl)

end Binary64

open Binary64

theorem Quantity.renderTolerance_unsignedZero (x : Binary64) :
    renderTolerance x.unsignedZero = renderTolerance x := by
  match x with
  | nan => rfl
  | ranked negative 0 le =>
    have hzero : ∀ sign : Bool, (ranked sign 0 le).toInt? = some 0 := by
      intro sign
      have hfraction : (fraction 0).1 = 0 := by simp [fraction, significand]
      have hfinite : 0 < infinityRank := by decide
      simp [toInt?, hfraction, hfinite]
    unfold renderTolerance
    rw [show (ranked negative 0 le).unsignedZero = ranked false 0 le from rfl, hzero, hzero]
    rfl
  | ranked negative (rank + 1) le => rfl

end FactGraph
