import Mathlib.Data.List.Basic

/-!
# Texts as bytes

The bytes of a text are those of its characters, one after the other. A byte below 128 stands only
for the character of that number (`mem_bytes_iff`), so bytes that separate fields or lines are found
in a text exactly where their characters are.
-/

namespace FactGraph.Text

/-- The bytes of a text. -/
def bytes (s : String) : List UInt8 := s.toUTF8.data.toList

variable {s t : String}

theorem toByteArray_bytes (s : String) : (bytes s).toByteArray = s.toUTF8 :=
  ByteArray.ext (by simp [bytes, List.data_toByteArray])

theorem bytes_injective : Function.Injective bytes := by
  intro s t h
  have hbytes := congrArg List.toByteArray h
  rw [toByteArray_bytes, toByteArray_bytes] at hbytes
  exact String.toByteArray_inj.1 hbytes

@[simp] theorem bytes_append (s t : String) : bytes (s ++ t) = bytes s ++ bytes t := by
  simp [bytes, String.toUTF8_eq_toByteArray, String.toByteArray_append]

theorem bytes_ofList (cs : List Char) :
    bytes (String.ofList cs) = cs.flatMap String.utf8EncodeChar := by
  induction cs with
  | nil => rfl
  | cons c cs ih =>
    have hhead : bytes (String.ofList [c]) = String.utf8EncodeChar c := by
      simp [bytes, String.toUTF8_eq_toByteArray, List.utf8Encode_singleton,
        List.data_toByteArray]
    rw [← List.singleton_append, String.ofList_append, bytes_append, hhead, ih]
    rfl

theorem bytes_eq (s : String) : bytes s = s.toList.flatMap String.utf8EncodeChar := by
  rw [← bytes_ofList, String.ofList_toList]

theorem bytes_join (parts : List String) : bytes (String.join parts) = parts.flatMap bytes := by
  induction parts with
  | nil => rfl
  | cons part parts ih => rw [String.join_cons, bytes_append, ih, List.flatMap_cons]

theorem bytes_intercalate (separator : String) (parts : List String) :
    bytes (separator.intercalate parts) = (bytes separator).intercalate (parts.map bytes) := by
  induction parts with
  | nil => rfl
  | cons part parts ih => cases parts with
    | nil => simp
    | cons next parts =>
      rw [String.intercalate_cons_cons, bytes_append, bytes_append, ih]
      simp [List.intercalate_cons_cons]

theorem utf8EncodeChar_of_lt {c : Char} (h : c.toNat < 128) :
    String.utf8EncodeChar c = [UInt8.ofNat c.toNat] := by
  have hsmall : c.val.toNat ≤ 127 := Nat.le_of_lt_succ h
  rw [String.utf8EncodeChar]
  simp only [hsmall, if_true]
  rfl

theorem le_of_mem_utf8EncodeChar {c : Char} (h : 128 ≤ c.toNat) {b : UInt8}
    (hb : b ∈ String.utf8EncodeChar c) : 128 ≤ b.toNat := by
  have hlarge : ∀ n, 128 ≤ n → n < 256 → 128 ≤ (UInt8.ofNat n).toNat := by
    intro n hlow hhigh
    rw [UInt8.toNat_ofNat']
    omega
  have hnot : ¬ c.val.toNat ≤ 127 := Nat.not_le.2 h
  rw [String.utf8EncodeChar] at hb
  simp only [hnot, if_false] at hb
  split at hb
  · simp only [List.mem_cons, List.not_mem_nil, or_false] at hb
    rcases hb with hb | hb
    all_goals exact hb ▸ hlarge _ (by omega) (by omega)
  · split at hb
    · simp only [List.mem_cons, List.not_mem_nil, or_false] at hb
      rcases hb with hb | hb | hb
      all_goals exact hb ▸ hlarge _ (by omega) (by omega)
    · simp only [List.mem_cons, List.not_mem_nil, or_false] at hb
      rcases hb with hb | hb | hb | hb
      all_goals exact hb ▸ hlarge _ (by omega) (by omega)

/-- A small byte stands for its character alone. -/
theorem mem_utf8EncodeChar_iff {c d : Char} (hc : c.toNat < 128) :
    UInt8.ofNat c.toNat ∈ String.utf8EncodeChar d ↔ c = d := by
  have hbyte : ∀ n < 128, (UInt8.ofNat n).toNat = n := by
    intro n hn
    rw [UInt8.toNat_ofNat']
    omega
  constructor
  · intro h
    by_cases hd : d.toNat < 128
    · rw [utf8EncodeChar_of_lt hd] at h
      have hnat := congrArg UInt8.toNat (List.mem_singleton.1 h)
      rw [hbyte _ hc, hbyte _ hd] at hnat
      exact Char.ext (UInt32.toNat_inj.1 hnat)
    · have hlarge := le_of_mem_utf8EncodeChar (Nat.not_lt.1 hd) h
      rw [hbyte _ hc] at hlarge
      omega
  · rintro rfl
    rw [utf8EncodeChar_of_lt hc]
    exact List.mem_singleton_self _

/-- **A small byte is found where its character is.** -/
theorem mem_bytes_iff {c : Char} (hc : c.toNat < 128) :
    UInt8.ofNat c.toNat ∈ bytes s ↔ c ∈ s.toList := by
  rw [bytes_eq, List.mem_flatMap]
  simp only [mem_utf8EncodeChar_iff hc, exists_eq_right']

theorem fromUTF8?_eq_some_iff {bs : List UInt8} :
    String.fromUTF8? bs.toByteArray = some s ↔ bytes s = bs := by
  unfold String.fromUTF8?
  constructor
  · intro h
    split at h
    next hvalid =>
      obtain rfl := Option.some.inj h
      simp [bytes, String.fromUTF8, String.toUTF8_eq_toByteArray, List.data_toByteArray]
    next => exact nomatch h
  · rintro rfl
    have hvalid : (bytes s).toByteArray.IsValidUTF8 := by
      rw [toByteArray_bytes, String.toUTF8_eq_toByteArray]
      exact s.isValidUTF8
    rw [dif_pos (by simpa using hvalid)]
    congr 1
    exact String.toByteArray_inj.1 (toByteArray_bytes s)

/-! ## Texts within one field -/

/-- A tab ends a field, and a line feed or a carriage return ends a line. -/
def isBreak (c : Char) : Bool := c = '\t' || c = '\n' || c = '\r'

/-- The text can stand in one field of a file. -/
def IsInline (s : String) : Prop := ∀ c ∈ s.toList, isBreak c = false

-- The characters of the text are tried, not all that there are.
instance (s : String) : Decidable (IsInline s) :=
  List.decidableBAll (fun c => isBreak c = false) s.toList

theorem isBreak_eq_false {p : Char → Prop} {c : Char} (h : p c) (htab : ¬ p '\t')
    (hfeed : ¬ p '\n') (hreturn : ¬ p '\r') : isBreak c = false := by
  have hne : c ≠ '\t' ∧ c ≠ '\n' ∧ c ≠ '\r' :=
    ⟨fun heq => htab (heq ▸ h), fun heq => hfeed (heq ▸ h), fun heq => hreturn (heq ▸ h)⟩
  simp [isBreak, hne]

theorem isInline_empty : IsInline "" := by simp [IsInline]

theorem isInline_append : IsInline (s ++ t) ↔ IsInline s ∧ IsInline t := by
  rw [IsInline, String.toList_append, List.forall_mem_append]
  rfl

theorem isInline_ofList {cs : List Char} :
    IsInline (String.ofList cs) ↔ ∀ c ∈ cs, isBreak c = false := by
  rw [IsInline, String.toList_ofList]

theorem isInline_iff : IsInline s ↔ ∀ b ∈ bytes s, b ≠ 9 ∧ b ≠ 10 ∧ b ≠ 13 := by
  -- Each break is one small byte, which no other character has among its own.
  have htab : (9 : UInt8) ∈ bytes s ↔ '\t' ∈ s.toList :=
    mem_bytes_iff (c := '\t') (by decide)
  have hfeed : (10 : UInt8) ∈ bytes s ↔ '\n' ∈ s.toList :=
    mem_bytes_iff (c := '\n') (by decide)
  have hreturn : (13 : UInt8) ∈ bytes s ↔ '\r' ∈ s.toList :=
    mem_bytes_iff (c := '\r') (by decide)
  have hnone : ∀ {α : Type} (xs : List α) (a b c : α),
      (∀ x ∈ xs, x ≠ a ∧ x ≠ b ∧ x ≠ c) ↔ a ∉ xs ∧ b ∉ xs ∧ c ∉ xs := by
    intro α xs a b c
    constructor
    · exact fun h => ⟨fun ha => (h a ha).1 rfl, fun hb => (h b hb).2.1 rfl,
        fun hc => (h c hc).2.2 rfl⟩
    · rintro ⟨ha, hb, hc⟩ x hx
      exact ⟨fun heq => ha (heq ▸ hx), fun heq => hb (heq ▸ hx), fun heq => hc (heq ▸ hx)⟩
  have hchars : IsInline s ↔ ∀ c ∈ s.toList, c ≠ '\t' ∧ c ≠ '\n' ∧ c ≠ '\r' := by
    simp [IsInline, isBreak, and_assoc]
  rw [hchars, hnone, hnone, htab, hfeed, hreturn]

/-- Where a text is broken first, it has the byte of a break. -/
theorem exists_bytes_of_not_isInline (h : ¬ IsInline s) :
    ∃ (clean : String) (b : UInt8) (rest : List UInt8), IsInline clean ∧ clean ≠ s ∧
      (b = 9 ∨ b = 10 ∨ b = 13) ∧ bytes s = bytes clean ++ b :: rest := by
  have hsplit := List.takeWhile_append_dropWhile (p := (!isBreak ·)) (l := s.toList)
  cases hrest : s.toList.dropWhile (!isBreak ·) with
  | nil =>
    rw [hrest, List.append_nil] at hsplit
    refine absurd (fun c hc => ?_) h
    rw [← hsplit] at hc
    simpa using List.all_eq_true.1 List.all_takeWhile c hc
  | cons c more =>
    have hbreak : isBreak c = true := by
      have hhead := List.head?_dropWhile_not (!isBreak ·) s.toList
      rw [hrest] at hhead
      simpa using hhead
    have hencode : ∃ b, (b = 9 ∨ b = 10 ∨ b = 13) ∧ String.utf8EncodeChar c = [b] := by
      simp only [isBreak, Bool.or_eq_true, decide_eq_true_eq] at hbreak
      rcases hbreak with (rfl | rfl) | rfl
      · exact ⟨9, by simp, utf8EncodeChar_of_lt (by decide)⟩
      · exact ⟨10, by simp, utf8EncodeChar_of_lt (by decide)⟩
      · exact ⟨13, by simp, utf8EncodeChar_of_lt (by decide)⟩
    obtain ⟨b, hb, hencode⟩ := hencode
    rw [hrest] at hsplit
    refine ⟨String.ofList (s.toList.takeWhile (!isBreak ·)), b,
      more.flatMap String.utf8EncodeChar, ?_, ?_, hb, ?_⟩
    · refine isInline_ofList.2 fun d hd => ?_
      simpa using List.all_eq_true.1 List.all_takeWhile d hd
    · intro heq
      have hlength := congrArg (fun t => t.toList.length) heq
      simp only [String.toList_ofList] at hlength
      have htotal := congrArg List.length hsplit
      simp at htotal
      omega
    · have hchars := congrArg (List.flatMap String.utf8EncodeChar) hsplit
      rw [List.flatMap_append, List.flatMap_cons, hencode] at hchars
      rw [bytes_eq s, ← hchars, bytes_ofList]
      rfl

/-- The text can be told from an empty field, and can stand in one. -/
structure IsField (s : String) : Prop where
  ne_empty : s ≠ ""
  isInline : IsInline s

end FactGraph.Text
