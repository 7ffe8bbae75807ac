import Mathlib.Tactic.Ring
import FactGraph.Literal.Numeral

/-!
# Digits as text

A number below ten is written as a digit and a list of such numbers as a text of digits
(`digitText`). What is written is read back digit by digit (`digits?_digitText`), and the decimal
digits of a natural number (`decimalDigits`) have its value (`valueOfDigits_decimalDigits`).
-/

namespace FactGraph

/-- The text of decimal digits. -/
def digitText (ds : List Nat) : List Char := ds.map Nat.digitChar

/-- The decimal digits of a natural number, most significant first. -/
def decimalDigits (n : Nat) : List Nat :=
  if n < 10 then [n] else decimalDigits (n / 10) ++ [n % 10]
termination_by n
decreasing_by omega

/-- All of them are decimal digits. -/
def AreDigits (ds : List Nat) : Prop := ∀ d ∈ ds, d < 10

variable {ds es : List Nat}

@[simp] theorem digitText_nil : digitText [] = [] := rfl

@[simp] theorem digitText_cons (d : Nat) (ds : List Nat) :
    digitText (d :: ds) = Nat.digitChar d :: digitText ds := rfl

@[simp] theorem digitText_append (ds es : List Nat) :
    digitText (ds ++ es) = digitText ds ++ digitText es := List.map_append

@[simp] theorem length_digitText (ds : List Nat) : (digitText ds).length = ds.length :=
  List.length_map _

theorem digitText_replicate_zero (n : Nat) : digitText (.replicate n 0) = NumberForm.zeros n :=
  List.map_replicate

theorem AreDigits.append (hds : AreDigits ds) (hes : AreDigits es) : AreDigits (ds ++ es) :=
  fun d hd => (List.mem_append.1 hd).elim (hds d) (hes d)

theorem areDigits_replicate_zero (n : Nat) : AreDigits (.replicate n 0) := by
  intro d hd
  rw [List.eq_of_mem_replicate hd]
  decide

/-! ## Single digits -/

theorem digitChar_spec {d : Nat} (hd : d < 10) :
    digitValue? 10 d.digitChar = some d ∧ d.digitChar.isDigit = true ∧ d.digitChar ≠ '_' ∧
      d.digitChar ≠ '.' ∧ d.digitChar ≠ '-' ∧ d.digitChar ≠ '+' ∧
      Magnitude.isExponentMark d.digitChar = false ∧ Base.ofMark? d.digitChar = none := by
  revert d
  decide

theorem isDigit_of_mem_digitText (hds : AreDigits ds) {c : Char} (hc : c ∈ digitText ds) :
    c.isDigit = true := by
  obtain ⟨d, hd, rfl⟩ := List.mem_map.1 hc
  exact (digitChar_spec (hds d hd)).2.1

/-! ## Reading -/

theorem furtherDigits?_digitText (hds : AreDigits ds) :
    furtherDigits? 10 (digitText ds) = some ds := by
  induction ds with
  | nil => rfl
  | cons d ds ih =>
    obtain ⟨hvalue, -, hunderscore, -⟩ := digitChar_spec (hds d (List.mem_cons_self ..))
    have hrest := ih fun e he => hds e (List.mem_cons_of_mem d he)
    rw [digitText_cons, furtherDigits?, hvalue, hrest]
    · rfl
    · exact fun _ _ hc _ => hunderscore hc

/-- **A text of digits is read back.** -/
theorem digits?_digitText (hds : AreDigits ds) (hne : ds ≠ []) :
    digits? 10 (digitText ds) = some ds := by
  cases ds with
  | nil => exact absurd rfl hne
  | cons d ds =>
    have hvalue := (digitChar_spec (hds d (List.mem_cons_self ..))).1
    have hrest := furtherDigits?_digitText fun e he => hds e (List.mem_cons_of_mem d he)
    rw [digitText_cons, digits?, hvalue, hrest]
    rfl

theorem optionalDigits?_digitText (hds : AreDigits ds) :
    Magnitude.optionalDigits? (digitText ds) = some ds := by
  unfold Magnitude.optionalDigits?
  split
  next hempty =>
    have hnil : ds = [] := List.map_eq_nil_iff.1 (List.isEmpty_iff.1 hempty)
    rw [hnil]
  next hsome => exact digits?_digitText hds fun hnil => hsome (by rw [hnil]; rfl)

theorem filterMap_digitText (hds : AreDigits ds) :
    (digitText ds).filterMap (digitValue? 10) = ds := by
  induction ds with
  | nil => rfl
  | cons d ds ih =>
    rw [digitText_cons,
      List.filterMap_cons_some (digitChar_spec (hds d (List.mem_cons_self ..))).1,
      ih fun e he => hds e (List.mem_cons_of_mem d he)]

/-! ## Values -/

theorem foldl_digits (base value : Nat) (ds : List Nat) :
    ds.foldl (fun value d => value * base + d) value =
      value * base ^ ds.length + valueOfDigits base ds := by
  induction ds generalizing value with
  | nil => simp [valueOfDigits]
  | cons d ds ih =>
    unfold valueOfDigits
    rw [List.foldl_cons, List.foldl_cons, ih, ih, List.length_cons]
    ring

theorem valueOfDigits_append (base : Nat) (ds es : List Nat) :
    valueOfDigits base (ds ++ es) =
      valueOfDigits base ds * base ^ es.length + valueOfDigits base es := by
  rw [valueOfDigits, List.foldl_append, foldl_digits]
  rfl

theorem valueOfDigits_replicate_zero (base n : Nat) :
    valueOfDigits base (.replicate n 0) = 0 := by
  induction n with
  | zero => rfl
  | succ n ih =>
    rw [List.replicate_succ, ← List.singleton_append, valueOfDigits_append, ih]
    simp [valueOfDigits]

/-! ## The digits of a number -/

theorem areDigits_decimalDigits (n : Nat) : AreDigits (decimalDigits n) := by
  fun_induction decimalDigits n with
  | case1 n h => simpa [AreDigits] using h
  | case2 n h ih =>
    refine ih.append ?_
    have := Nat.mod_lt n (by decide : 0 < 10)
    simpa [AreDigits] using this

theorem decimalDigits_ne_nil (n : Nat) : decimalDigits n ≠ [] := by
  unfold decimalDigits
  split <;> simp

/-- **The digits of a number have its value.** -/
theorem valueOfDigits_decimalDigits (n : Nat) : valueOfDigits 10 (decimalDigits n) = n := by
  fun_induction decimalDigits n with
  | case1 n h => simp [valueOfDigits]
  | case2 n h ih =>
    rw [valueOfDigits_append, ih]
    simp only [valueOfDigits, List.length_singleton, List.foldl_cons, List.foldl_nil]
    omega

theorem length_decimalDigits_le {n width : Nat} (hwidth : 0 < width) (hn : n < 10 ^ width) :
    (decimalDigits n).length ≤ width := by
  fun_induction decimalDigits n generalizing width with
  | case1 n h => exact hwidth
  | case2 n h ih =>
    obtain ⟨w, rfl⟩ := Nat.exists_eq_succ_of_ne_zero hwidth.ne'
    have hw : 0 < w := by
      by_contra hzero
      rw [Nat.eq_zero_of_not_pos hzero] at hn
      omega
    have hdiv : n / 10 < 10 ^ w := by
      rw [Nat.pow_succ] at hn
      omega
    have hlength := ih hw hdiv
    rw [List.length_append, List.length_singleton]
    omega

theorem toDigits_eq_digitText (n : Nat) : Nat.toDigits 10 n = digitText (decimalDigits n) := by
  fun_induction decimalDigits n with
  | case1 n h => exact Nat.toDigits_of_lt_base h
  | case2 n h ih =>
    rw [Nat.toDigits_of_base_le (by decide) (by omega), ih, digitText_append]
    rfl

theorem head?_decimalDigits {n : Nat} (hn : n ≠ 0) : (decimalDigits n).head? ≠ some 0 := by
  fun_induction decimalDigits n with
  | case1 n h => simpa using hn
  | case2 n h ih =>
    have hhead : (decimalDigits (n / 10) ++ [n % 10]).head? = (decimalDigits (n / 10)).head? := by
      cases hdigits : decimalDigits (n / 10) with
      | nil => exact absurd hdigits (decimalDigits_ne_nil _)
      | cons => rfl
    rw [hhead]
    exact ih (by omega)

end FactGraph
