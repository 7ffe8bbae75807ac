import FactGraph.Text.Encoding
import FactGraph.Proofs.Text.Bytes
import Mathlib.Data.List.Lex
import Mathlib.Data.String.Basic
import Mathlib.Order.Compare

/-!
# Texts in order

Texts are compared character by character, by code points or by the bytes of units of 16 bits
(`TextEncoding.charKey`). In each encoding that is the order of the bytes that the texts are written
as, of which the sort key of a text is made (`TextEncoding.compares_compare`): the bytes of two
characters differ at a byte that both have, so no character is cut off by the end of another
(`TextEncoding.decides`).
-/

namespace FactGraph

/-! ## Lists that differ at a place -/

/-- At the first place where the lists differ, both have a member, and the first has the smaller. -/
inductive Precedes : List Nat → List Nat → Prop
  | head {x y : Nat} {xs ys : List Nat} (h : x < y) : Precedes (x :: xs) (y :: ys)
  | tail {x : Nat} {xs ys : List Nat} (h : Precedes xs ys) : Precedes (x :: xs) (x :: ys)

theorem precedes_cons_iff {x y : Nat} {xs ys : List Nat} :
    Precedes (x :: xs) (y :: ys) ↔ x < y ∨ x = y ∧ Precedes xs ys := by
  constructor
  · rintro (h | h)
    · exact .inl h
    · exact .inr ⟨rfl, h⟩
  · rintro (h | ⟨rfl, h⟩)
    · exact .head h
    · exact .tail h

theorem not_precedes_nil_right {xs : List Nat} : ¬ Precedes xs [] := nofun

theorem Precedes.append_lt {xs ys : List Nat} (h : Precedes xs ys) (us vs : List Nat) :
    xs ++ us < ys ++ vs := by
  induction h with
  | head h => exact List.cons_lt_cons_iff.2 (.inl h)
  | tail _ ih => exact List.cons_lt_cons_iff.2 (.inr ⟨rfl, ih⟩)

theorem Precedes.lt {xs ys : List Nat} (h : Precedes xs ys) : xs < ys := by
  simpa using h.append_lt [] []

theorem compares_append_left {o : Ordering} {xs ys : List Nat} (h : o.Compares xs ys)
    (us : List Nat) : o.Compares (us ++ xs) (us ++ ys) := by
  cases o with
  | lt => exact List.append_left_lt h
  | eq => exact congrArg (us ++ ·) h
  | gt => exact List.append_left_lt h

namespace TextEncoding

/-- The bytes that a character is written as, each as a number. -/
def charBytes : TextEncoding → Char → List Nat
  | utf8, c => (String.utf8EncodeChar c).map UInt8.toNat
  | utf16Low, c => (units16 c).flatMap fun unit => [unit % 256, unit / 256]
  | utf16High, c => (units16 c).flatMap fun unit => [unit / 256, unit % 256]

/-- What texts are sorted by: the bytes that a text is written as. -/
def sortKey (encoding : TextEncoding) (text : String) : List Nat :=
  text.toList.flatMap encoding.charBytes

theorem sortKey_utf8 (text : String) : utf8.sortKey text = (Text.bytes text).map UInt8.toNat := by
  rw [Text.bytes_eq, List.map_flatMap]
  rfl

theorem charBytes_utf16Low (c : Char) : utf16Low.charBytes c =
    (units16 c).flatMap fun unit => [unit % 256, unit / 256] := rfl

theorem charBytes_utf16High (c : Char) : utf16High.charBytes c =
    (units16 c).flatMap fun unit => [unit / 256, unit % 256] := rfl

/-! ## The bytes of two characters -/

theorem toNat_lt_or_lt (c : Char) : c.toNat < 0xD800 ∨ 0xDFFF < c.toNat ∧ c.toNat < 0x110000 :=
  c.valid

theorem charBytes_utf8 (c : Char) : utf8.charBytes c =
    if c.toNat ≤ 127 then [c.toNat]
    else if c.toNat ≤ 2047 then [c.toNat / 64 + 192, c.toNat % 64 + 128]
    else if c.toNat ≤ 65535 then
      [c.toNat / 4096 + 224, c.toNat / 64 % 64 + 128, c.toNat % 64 + 128]
    else
      [c.toNat / 262144 + 240, c.toNat / 4096 % 64 + 128, c.toNat / 64 % 64 + 128,
        c.toNat % 64 + 128] := by
  have hc := toNat_lt_or_lt c
  have hval : c.val.toNat = c.toNat := rfl
  show (String.utf8EncodeChar c).map UInt8.toNat = _
  unfold String.utf8EncodeChar
  simp only [hval]
  split_ifs
  all_goals simp only [List.map_cons, List.map_nil, UInt8.toNat_ofNat', List.cons.injEq, and_true]
  all_goals omega

theorem precedes_charBytes_utf8 {c d : Char} (h : c.toNat < d.toNat) :
    Precedes (utf8.charBytes c) (utf8.charBytes d) := by
  have hd := toNat_lt_or_lt d
  rw [charBytes_utf8, charBytes_utf8]
  split_ifs
  all_goals simp only [precedes_cons_iff, not_precedes_nil_right]
  all_goals omega

/-- The units of two characters differ at a unit that both have. -/
theorem precedes_units16 {c d : Char} (h : c ≠ d) :
    Precedes (units16 c) (units16 d) ∨ Precedes (units16 d) (units16 c) := by
  have hne : c.toNat ≠ d.toNat := fun heq => h (Char.toNat_inj.1 heq)
  have hc := toNat_lt_or_lt c
  have hd := toNat_lt_or_lt d
  unfold units16
  split_ifs
  all_goals simp only [precedes_cons_iff, not_precedes_nil_right]
  all_goals omega

/-- With the high byte first, bytes are in the order of the units. -/
theorem precedes_highFirst {us vs : List Nat} (h : Precedes us vs) :
    Precedes (us.flatMap fun unit => [unit / 256, unit % 256])
      (vs.flatMap fun unit => [unit / 256, unit % 256]) := by
  induction h with
  | head h =>
    simp only [List.flatMap_cons, List.cons_append, List.nil_append, precedes_cons_iff]
    omega
  | tail _ ih => exact .tail (.tail ih)

theorem precedes_charBytes_utf16Low {c d : Char} (h : c ≠ d) :
    Precedes (utf16Low.charBytes c) (utf16Low.charBytes d) ∨
      Precedes (utf16Low.charBytes d) (utf16Low.charBytes c) := by
  have hne : c.toNat ≠ d.toNat := fun heq => h (Char.toNat_inj.1 heq)
  have hc := toNat_lt_or_lt c
  have hd := toNat_lt_or_lt d
  rw [charBytes_utf16Low, charBytes_utf16Low]
  unfold units16
  split_ifs
  all_goals simp only [List.flatMap_cons, List.flatMap_nil, List.cons_append, List.nil_append,
    precedes_cons_iff, not_precedes_nil_right]
  all_goals omega

/-- **The first characters that differ decide as their bytes do**, and the bytes differ at one that
both characters have. -/
theorem decides (encoding : TextEncoding) {c d : Char} (h : c ≠ d) :
    (encoding.charKey c < encoding.charKey d ∧
      Precedes (encoding.charBytes c) (encoding.charBytes d)) ∨
    (encoding.charKey d < encoding.charKey c ∧
      Precedes (encoding.charBytes d) (encoding.charBytes c)) := by
  -- Characters of UTF-8 are compared by their numbers, which the bytes follow; those of UTF-16 by
  -- the units or bytes themselves.
  cases encoding with
  | utf8 =>
    rcases Nat.lt_or_gt_of_ne fun heq => h (Char.toNat_inj.1 heq) with hlt | hlt
    · exact .inl ⟨List.cons_lt_cons_iff.2 (.inl hlt), precedes_charBytes_utf8 hlt⟩
    · exact .inr ⟨List.cons_lt_cons_iff.2 (.inl hlt), precedes_charBytes_utf8 hlt⟩
  | utf16Low => exact (precedes_charBytes_utf16Low h).imp (fun h => ⟨h.lt, h⟩) fun h => ⟨h.lt, h⟩
  | utf16High =>
    exact (precedes_units16 h).imp (fun h => ⟨h.lt, precedes_highFirst h⟩)
      fun h => ⟨h.lt, precedes_highFirst h⟩

theorem charBytes_ne_nil (encoding : TextEncoding) (c : Char) : encoding.charBytes c ≠ [] := by
  cases encoding with
  | utf8 =>
    rw [charBytes_utf8]
    split_ifs <;> simp
  | utf16Low =>
    rw [charBytes_utf16Low, units16]
    split_ifs <;> simp
  | utf16High =>
    rw [charBytes_utf16High, units16]
    split_ifs <;> simp

theorem nil_lt_flatMap_charBytes (encoding : TextEncoding) (c : Char) (cs : List Char) :
    [] < (c :: cs).flatMap encoding.charBytes := by
  obtain ⟨b, bs, hbytes⟩ := List.exists_cons_of_ne_nil (encoding.charBytes_ne_nil c)
  rw [List.flatMap_cons, hbytes]
  exact List.nil_lt_cons ..

/-! ## The order of two texts -/

theorem compares_compareChars (encoding : TextEncoding) (cs ds : List Char) :
    (encoding.compareChars cs ds).Compares (cs.flatMap encoding.charBytes)
      (ds.flatMap encoding.charBytes) := by
  -- On both texts: the first characters that differ decide, as no character begins another one.
  induction cs generalizing ds with
  | nil =>
    cases ds with
    | nil => exact rfl
    | cons d ds => exact encoding.nil_lt_flatMap_charBytes d ds
  | cons c cs ih =>
    cases ds with
    | nil => exact encoding.nil_lt_flatMap_charBytes c cs
    | cons d ds =>
      rw [compareChars, List.flatMap_cons, List.flatMap_cons]
      split
      next heq =>
        subst heq
        exact compares_append_left (ih ds) _
      next hne =>
        rcases encoding.decides hne with ⟨hkey, hbytes⟩ | ⟨hkey, hbytes⟩
        · rw [compareOfLessAndEq, if_pos hkey]
          exact hbytes.append_lt _ _
        · rw [compareOfLessAndEq, if_neg (lt_asymm hkey), if_neg (ne_of_gt hkey)]
          exact hbytes.append_lt _ _

theorem flatMap_charBytes_utf8_lt {cs ds : List Char} (h : cs < ds) :
    cs.flatMap utf8.charBytes < ds.flatMap utf8.charBytes := by
  induction h with
  | nil => exact utf8.nil_lt_flatMap_charBytes _ _
  | rel h => exact (precedes_charBytes_utf8 h).append_lt _ _
  | cons _ ih => exact List.append_left_lt ih

/-- **Texts are compared by their sort keys.** -/
theorem compares_compare (encoding : TextEncoding) (s t : String) :
    (encoding.compare s t).Compares (encoding.sortKey s) (encoding.sortKey t) := by
  cases encoding with
  | utf8 =>
    have htexts : (Ord.compare s t).Compares s t := (compare_iff s t).1 rfl
    show (Ord.compare s t).Compares _ _
    cases hcompare : Ord.compare s t with
    | lt =>
      rw [hcompare] at htexts
      exact flatMap_charBytes_utf8_lt (String.lt_iff_toList_lt.1 htexts)
    | eq =>
      rw [hcompare] at htexts
      exact congrArg utf8.sortKey htexts
    | gt =>
      rw [hcompare] at htexts
      exact flatMap_charBytes_utf8_lt (String.lt_iff_toList_lt.1 htexts)
  | utf16Low => exact compares_compareChars utf16Low _ _
  | utf16High => exact compares_compareChars utf16High _ _

end TextEncoding

end FactGraph
