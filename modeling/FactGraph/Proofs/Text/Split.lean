import Mathlib.Data.List.Basic

/-!
# Lists in pieces

The pieces of a list between its separators hold its other members, in order.
-/

namespace FactGraph.Text

variable {α : Type} {p : α → Bool} {xs piece : List α} {x : α}

theorem mem_of_mem_splitOnP (hpiece : piece ∈ xs.splitOnP p) (hx : x ∈ piece) :
    x ∈ xs ∧ p x = false := by
  -- On the list, whose first piece grows to the left.
  induction xs generalizing piece with
  | nil => simp_all
  | cons y ys ih =>
    rw [List.splitOnP_cons_eq_if_modifyHead] at hpiece
    split at hpiece
    next hy =>
      rcases List.mem_cons.1 hpiece with rfl | hpiece
      · simp at hx
      · exact (ih hpiece hx).imp_left (List.mem_cons_of_mem _)
    next hy =>
      obtain ⟨first, rest, hsplit⟩ := List.exists_cons_of_ne_nil (List.splitOnP_ne_nil p ys)
      rw [hsplit, List.modifyHead_cons] at hpiece
      rcases List.mem_cons.1 hpiece with rfl | hpiece
      · rcases List.mem_cons.1 hx with rfl | hx
        · exact ⟨List.mem_cons_self, Bool.not_eq_true _ ▸ hy⟩
        · exact (ih (hsplit ▸ List.mem_cons_self) hx).imp_left (List.mem_cons_of_mem _)
      · exact (ih (hsplit ▸ List.mem_cons_of_mem _ hpiece) hx).imp_left (List.mem_cons_of_mem _)

theorem exists_mem_splitOnP (hx : x ∈ xs) (hp : p x = false) :
    ∃ piece ∈ xs.splitOnP p, x ∈ piece := by
  induction xs with
  | nil => simp at hx
  | cons y ys ih =>
    rw [List.splitOnP_cons_eq_if_modifyHead]
    obtain ⟨first, rest, hsplit⟩ := List.exists_cons_of_ne_nil (List.splitOnP_ne_nil p ys)
    rcases List.mem_cons.1 hx with rfl | hx
    · rw [hp, hsplit]
      exact ⟨x :: first, List.mem_cons_self, List.mem_cons_self⟩
    · obtain ⟨piece, hpiece, hmem⟩ := ih hx
      split
      next => exact ⟨piece, .tail _ hpiece, hmem⟩
      next =>
        rw [hsplit] at hpiece ⊢
        rcases List.mem_cons.1 hpiece with rfl | hpiece
        · exact ⟨y :: piece, List.mem_cons_self, .tail _ hmem⟩
        · exact ⟨piece, .tail _ hpiece, hmem⟩

theorem mem_of_mem_intercalate {separator : List α} {pieces : List (List α)}
    (hx : x ∈ separator.intercalate pieces) : x ∈ separator ∨ ∃ piece ∈ pieces, x ∈ piece := by
  induction pieces with
  | nil => simp at hx
  | cons first rest ih => cases rest with
    | nil => exact .inr ⟨first, List.mem_cons_self, by simpa using hx⟩
    | cons second rest =>
      rw [List.intercalate_cons_cons, List.mem_append, List.mem_append] at hx
      rcases hx with (hx | hx) | hx
      · exact .inr ⟨first, List.mem_cons_self, hx⟩
      · exact .inl hx
      · exact (ih hx).imp_right fun ⟨piece, hpiece, hmem⟩ => ⟨piece, .tail _ hpiece, hmem⟩

/-- A number within a list put together of parts is within one of the parts. -/
theorem exists_split_of_lt_length_flatMap {β : Type} {f : α → List β} {k : Nat}
    (hk : k < (xs.flatMap f).length) :
    ∃ front x back, xs = front ++ x :: back ∧ (front.flatMap f).length ≤ k ∧
      k < (front.flatMap f).length + (f x).length := by
  induction xs generalizing k with
  | nil => simp at hk
  | cons x xs ih =>
    rw [List.flatMap_cons, List.length_append] at hk
    by_cases hfirst : k < (f x).length
    · exact ⟨[], x, xs, rfl, by simp, by simpa using hfirst⟩
    · have hrest : k - (f x).length < (xs.flatMap f).length := by omega
      obtain ⟨front, next, back, rfl, hfront, hnext⟩ := ih hrest
      refine ⟨x :: front, next, back, rfl, ?_, ?_⟩ <;>
        rw [List.flatMap_cons, List.length_append] <;> omega

theorem not_mem_intercalate {c : Char} {separator : String} {texts : List String}
    (hseparator : c ∉ separator.toList) (h : ∀ text ∈ texts, c ∉ text.toList) :
    c ∉ (separator.intercalate texts).toList := by
  intro hmem
  rw [String.toList_intercalate] at hmem
  rcases mem_of_mem_intercalate hmem with hmem | ⟨piece, hpiece, hmem⟩
  · exact hseparator hmem
  · obtain ⟨text, htext, rfl⟩ := List.mem_map.1 hpiece
    exact h text htext hmem

end FactGraph.Text
