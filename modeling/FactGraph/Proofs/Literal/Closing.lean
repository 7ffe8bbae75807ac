import FactGraph.Proofs.Literal.RoundTrip
import FactGraph.Proofs.Literal.Unit

/-!
# Where a quoted text ends

**Theorem (`Literal.decode_of_quote`).** A text that starts with a double quote is read exactly if
its first free quote is its last character, and one that starts with a single quote exactly if its
first free quote is followed by a tag of a language. A quote is free if no backslash is paired with
it, where backslashes pair with the following character from left to right. The value has the
characters before that quote, each pair replaced by what it stands for. Anything else is malformed.

The reader looks for the end and replaces the pairs in one pass. Here the end is told by positions
(`Quoted.ClosesAt`) and the replacement by itself (`Quoted.unescape`), and both agree on the pairs
because the reader goes on after a pair as at the start (`Quoted.closesAt_pair`).
-/

namespace FactGraph

namespace Quoted

/-! ## Pairs -/

/-- The character at the position is the second of a pair, whose first is a backslash. -/
def isPaired (cs : List Char) : Nat → Bool
  | 0 => false
  | i + 1 => cs[i]? = some '\\' && !isPaired cs i

/-- The quote at the position is the first one that is free. -/
structure ClosesAt (quote : Char) (cs : List Char) (i : Nat) : Prop where
  isQuote : cs[i]? = some quote
  isFree : isPaired cs i = false
  isFirst : ∀ j < i, cs[j]? = some quote → isPaired cs j = true

/-- The characters that a body stands for. -/
def unescape : List Char → List Char
  | '\\' :: c :: rest => escaped c :: unescape rest
  | c :: rest => c :: unescape rest
  | [] => []

variable {quote c : Char} {cs rest body after : List Char} {i j : Nat}

/-- A character that is no backslash starts no pair. -/
theorem isPaired_cons (hc : c ≠ '\\') (i : Nat) :
    isPaired (c :: rest) (i + 1) = isPaired rest i := by
  induction i with
  | zero => simp [isPaired, hc]
  | succ i ih => rw [isPaired, ih, List.getElem?_cons_succ, isPaired]

theorem isPaired_pair (c : Char) (rest : List Char) (i : Nat) :
    isPaired ('\\' :: c :: rest) (i + 2) = isPaired rest i := by
  induction i with
  | zero => simp [isPaired]
  | succ i ih => rw [isPaired, ih, List.getElem?_cons_succ, List.getElem?_cons_succ, isPaired]

theorem isPaired_one (rest : List Char) : isPaired ('\\' :: rest) 1 = true := rfl

theorem ClosesAt.unique (h : ClosesAt quote cs i) (h' : ClosesAt quote cs j) : i = j := by
  rcases lt_trichotomy i j with hlt | heq | hgt
  · have hpaired := h'.isFirst i hlt h.isQuote
    rw [h.isFree] at hpaired
    cases hpaired
  · exact heq
  · have hpaired := h.isFirst j hgt h'.isQuote
    rw [h'.isFree] at hpaired
    cases hpaired

/-! ## The first free quote, character by character -/

theorem not_closesAt_nil : ¬ ClosesAt quote [] i := fun h => nomatch h.isQuote

/-- A backslash at the end pairs with nothing. -/
theorem not_closesAt_backslash (hquote : quote ≠ '\\') : ¬ ClosesAt quote ['\\'] i := by
  intro h
  have hmem := List.mem_of_getElem? h.isQuote
  exact hquote (List.mem_singleton.1 hmem)

theorem closesAt_quote : ClosesAt quote (quote :: rest) i ↔ i = 0 := by
  have hzero : ClosesAt quote (quote :: rest) 0 := ⟨rfl, rfl, fun j hj => nomatch hj⟩
  exact ⟨fun h => h.unique hzero, fun h => h ▸ hzero⟩

theorem closesAt_cons (hbackslash : c ≠ '\\') (hquote : c ≠ quote) :
    ClosesAt quote (c :: rest) i ↔ ∃ j, i = j + 1 ∧ ClosesAt quote rest j := by
  constructor
  · rintro ⟨hat, hfree, hfirst⟩
    cases i with
    | zero => exact absurd (Option.some.inj hat) hquote
    | succ j =>
      refine ⟨j, rfl, hat, by rwa [isPaired_cons hbackslash] at hfree, fun k hk hat' => ?_⟩
      rw [← isPaired_cons hbackslash k]
      exact hfirst (k + 1) (by omega) hat'
  · rintro ⟨j, rfl, hat, hfree, hfirst⟩
    refine ⟨hat, by rwa [isPaired_cons hbackslash], fun k hk hat' => ?_⟩
    cases k with
    | zero => exact absurd (Option.some.inj hat') hquote
    | succ k =>
      rw [isPaired_cons hbackslash]
      exact hfirst k (by omega) hat'

/-- A pair is passed, whatever its second character is. -/
theorem closesAt_pair (hquote : quote ≠ '\\') :
    ClosesAt quote ('\\' :: c :: rest) i ↔ ∃ j, i = j + 2 ∧ ClosesAt quote rest j := by
  -- Behind a pair every position moves by two; its second character is no closing quote, whatever
  -- it is.
  constructor
  · rintro ⟨hat, hfree, hfirst⟩
    match i with
    | 0 => exact absurd (Option.some.inj hat).symm hquote
    | 1 => exact nomatch hfree
    | j + 2 =>
      refine ⟨j, rfl, hat, by rwa [isPaired_pair] at hfree, fun k hk hat' => ?_⟩
      rw [← isPaired_pair c rest k]
      exact hfirst (k + 2) (by omega) hat'
  · rintro ⟨j, rfl, hat, hfree, hfirst⟩
    refine ⟨hat, by rwa [isPaired_pair], fun k hk hat' => ?_⟩
    match k with
    | 0 => exact absurd (Option.some.inj hat').symm hquote
    | 1 => exact isPaired_one _
    | k + 2 =>
      rw [isPaired_pair]
      exact hfirst k (by omega) hat'

theorem unescape_cons (hc : c ≠ '\\') : unescape (c :: rest) = c :: unescape rest := by
  rw [unescape]
  rintro d more heq -
  exact hc heq

/-- **The reader stops at the first free quote**, and its text is what stands before it. -/
theorem readBody?_eq_some_iff (hquote : quote ≠ '\\') :
    readBody? quote cs = some (body, after) ↔
      ∃ i, ClosesAt quote cs i ∧ body = unescape (cs.take i) ∧ after = cs.drop (i + 1) := by
  -- By the cases of the reader. A pair is consumed as a whole, so the positions in the rest count
  -- from behind it.
  fun_induction readBody? quote cs generalizing body after with
  | case1 => simp [not_closesAt_nil]
  | case2 => simp [not_closesAt_backslash hquote]
  | case3 c rest ih =>
    simp only [Option.map_eq_some_iff, Prod.exists, Prod.mk.injEq, ih, closesAt_pair hquote]
    constructor
    · rintro ⟨front, back, ⟨j, hj, rfl, rfl⟩, rfl, rfl⟩
      exact ⟨j + 2, ⟨j, rfl, hj⟩, rfl, rfl⟩
    · rintro ⟨-, ⟨j, rfl, hj⟩, rfl, rfl⟩
      exact ⟨_, _, ⟨j, hj, rfl, rfl⟩, rfl, rfl⟩
  | case4 rest hone hpair =>
    simp [closesAt_quote, unescape, eq_comm]
  | case5 c rest hone hpair hc ih =>
    have hbackslash : c ≠ '\\' := by
      rintro rfl
      cases rest with
      | nil => exact hone rfl rfl
      | cons d more => exact hpair d more rfl rfl
    simp only [Option.map_eq_some_iff, Prod.exists, Prod.mk.injEq, ih,
      closesAt_cons hbackslash hc]
    constructor
    · rintro ⟨front, back, ⟨j, hj, rfl, rfl⟩, rfl, rfl⟩
      exact ⟨j + 1, ⟨j, rfl, hj⟩, by rw [List.take_succ_cons, unescape_cons hbackslash], rfl⟩
    · rintro ⟨-, ⟨j, rfl, hj⟩, rfl, rfl⟩
      exact ⟨_, _, ⟨j, hj, rfl, rfl⟩, by rw [List.take_succ_cons, unescape_cons hbackslash], rfl⟩

/-- **A text in double quotes ends with its first free quote.** -/
theorem read_eq_ok_iff {t : String} : read (String.ofList ('"' :: cs)) = .ok t ↔
    ∃ i, ClosesAt '"' cs i ∧ i + 1 = cs.length ∧ t = String.ofList (unescape (cs.take i)) := by
  have hbody (body : List Char) : readBody? '"' cs = some (body, []) ↔
      ∃ i, ClosesAt '"' cs i ∧ i + 1 = cs.length ∧ body = unescape (cs.take i) := by
    rw [readBody?_eq_some_iff (by decide)]
    refine exists_congr fun i => and_congr_right fun hcloses => ?_
    have hlt : i < cs.length := (List.getElem?_eq_some_iff.1 hcloses.isQuote).1
    rw [and_comm, eq_comm (a := []), List.drop_eq_nil_iff]
    exact and_congr_left' (by omega)
  unfold read
  rw [String.toList_ofList, List.tail_cons]
  constructor
  · intro h
    split at h
    next body hread =>
      cases h
      obtain ⟨i, hcloses, hlast, rfl⟩ := (hbody body).1 hread
      exact ⟨i, hcloses, hlast, rfl⟩
    next => cases h
  · rintro ⟨i, hcloses, hlast, rfl⟩
    rw [(hbody _).2 ⟨i, hcloses, hlast, rfl⟩]

end Quoted

/-! ## Tags -/

namespace TaggedText

/-- A letter of ASCII. -/
def IsLetter (c : Char) : Prop := 'A' ≤ c ∧ c ≤ 'Z' ∨ 'a' ≤ c ∧ c ≤ 'z'

/-- Two or three letters. -/
structure IsLanguage (cs : List Char) : Prop where
  letters : ∀ c ∈ cs, IsLetter c
  length : cs.length = 2 ∨ cs.length = 3

/-- Letters and digits, at least one. -/
structure IsPart (cs : List Char) : Prop where
  characters : ∀ c ∈ cs, IsLetter c ∨ '0' ≤ c ∧ c ≤ '9'
  nonempty : cs ≠ []

/-- The parts, each behind a hyphen. -/
def hyphenated (parts : List (List Char)) : List Char := parts.flatMap ('-' :: ·)

/-- The suffix that is made of these parts, if there are any. -/
def suffixOf : List (List Char) → Option String
  | [] => none
  | part :: parts => some (String.ofList (part ++ hyphenated parts))

variable {c : Char} {cs part language : List Char} {parts : List (List Char)}

theorem isAlphanum_iff : c.isAlphanum = true ↔ IsLetter c ∨ '0' ≤ c ∧ c ≤ '9' := by
  rw [Char.isAlphanum, Bool.or_eq_true, isAlpha_iff, isDigit_iff, IsLetter]

theorem isPart_iff : IsPart part ↔ (!part.isEmpty && part.all Char.isAlphanum) = true := by
  have hall : part.all Char.isAlphanum = true ↔
      ∀ c ∈ part, IsLetter c ∨ '0' ≤ c ∧ c ≤ '9' := by
    simp only [List.all_eq_true, isAlphanum_iff]
  rw [Bool.and_eq_true, hall]
  cases part with
  | nil => exact iff_of_false (fun h => h.nonempty rfl) (by simp)
  | cons c rest => exact ⟨fun h => ⟨rfl, h.characters⟩, fun h => ⟨h.2, List.cons_ne_nil _ _⟩⟩

theorem IsPart.hyphen_not_mem (h : IsPart part) : '-' ∉ part :=
  fun hmem => absurd (isAlphanum_iff.2 (h.characters '-' hmem)) (by decide)

theorem suffixParts_cons (hc : c ≠ '-') (cs : List Char) :
    ∃ part parts, suffixParts cs = part :: parts ∧
      suffixParts (c :: cs) = (c :: part) :: parts := by
  rw [suffixParts, if_neg hc]
  -- Nothing is cut off before the first part, so there always is one that takes the character.
  cases hparts : suffixParts cs with
  | nil =>
    cases cs with
    | nil => cases hparts
    | cons d rest =>
      rw [suffixParts] at hparts
      split at hparts
      · cases hparts
      · split at hparts <;> cases hparts
  | cons part parts => exact ⟨part, parts, rfl, rfl⟩

theorem hyphenated_suffixParts (cs : List Char) : hyphenated (suffixParts cs) = '-' :: cs := by
  induction cs with
  | nil => rfl
  | cons c cs ih =>
    by_cases hc : c = '-'
    · rw [suffixParts, if_pos hc, hyphenated, List.flatMap_cons, ← hyphenated, ih, hc]
      rfl
    · obtain ⟨part, parts, hparts, hcons⟩ := suffixParts_cons hc cs
      rw [hparts, hyphenated, List.flatMap_cons, List.cons_append] at ih
      rw [hcons, hyphenated, List.flatMap_cons, List.cons_append, List.cons_append,
        (List.cons.inj ih).2]

theorem suffixParts_append {first : List Char} {others : List (List Char)}
    (hfront : '-' ∉ part) (hcs : suffixParts cs = first :: others) :
    suffixParts (part ++ cs) = (part ++ first) :: others := by
  induction part with
  | nil => exact hcs
  | cons c part ih =>
    obtain ⟨hc, hpart⟩ := not_or.1 (mt List.mem_cons.2 hfront)
    obtain ⟨_, _, hparts, hcons⟩ := suffixParts_cons (Ne.symm hc) (part ++ cs)
    rw [ih hpart] at hparts
    cases hparts
    exact hcons

theorem suffixParts_hyphenated (hparts : ∀ p ∈ parts, '-' ∉ p) :
    suffixParts (hyphenated parts) = [] :: parts := by
  induction parts with
  | nil => rfl
  | cons part parts ih =>
    obtain ⟨hpart, hparts⟩ := List.forall_mem_cons.1 hparts
    have hrest := suffixParts_append hpart (ih hparts)
    rw [List.append_nil] at hrest
    rw [hyphenated, List.flatMap_cons, List.cons_append, suffixParts, if_pos rfl, ← hyphenated,
      hrest]

/-- **A suffix is parts of letters and digits, joined by hyphens.** -/
theorem isSuffix_iff : isSuffix cs = true ↔
    ∃ part parts, cs = part ++ hyphenated parts ∧ ∀ p ∈ part :: parts, IsPart p := by
  have hall : isSuffix cs = true ↔ ∀ p ∈ suffixParts cs, IsPart p := by
    simp only [isSuffix, List.all_eq_true, isPart_iff]
  rw [hall]
  constructor
  · intro h
    have hjoined := hyphenated_suffixParts cs
    cases hparts : suffixParts cs with
    | nil =>
      rw [hparts] at hjoined
      cases hjoined
    | cons part parts =>
      rw [hparts] at hjoined h
      exact ⟨part, parts, (List.cons.inj hjoined).2.symm, h⟩
  · rintro ⟨part, parts, rfl, h⟩
    obtain ⟨hpart, hparts⟩ := List.forall_mem_cons.1 h
    have hsplit := suffixParts_append hpart.hyphen_not_mem
      (suffixParts_hyphenated fun p hp => (hparts p hp).hyphen_not_mem)
    rw [hsplit, List.append_nil]
    exact h

theorem readTag?_append (hlanguage : IsLanguage language) (hparts : ∀ p ∈ parts, IsPart p) :
    readTag? (language ++ hyphenated parts) =
      some (String.ofList language, suffixOf parts) := by
  have hspan : (language ++ hyphenated parts).span Char.isAlpha =
      (language, hyphenated parts) := by
    refine span_append (fun c hc => isAlpha_iff.2 (hlanguage.letters c hc)) fun c hc => ?_
    cases parts with
    | nil => cases hc
    | cons part parts =>
      cases hc
      rfl
  unfold readTag?
  rw [hspan]
  simp only [if_pos hlanguage.length]
  cases parts with
  | nil => rfl
  | cons part parts =>
    have hsuffix : isSuffix (part ++ hyphenated parts) = true :=
      isSuffix_iff.2 ⟨part, parts, rfl, hparts⟩
    show (if isSuffix (part ++ hyphenated parts) = true then _ else none) = _
    rw [if_pos hsuffix]
    rfl

/-- **A tag is a language of two or three letters, and parts behind hyphens.** -/
theorem readTag?_eq_some_iff {tag : String × Option String} :
    readTag? cs = some tag ↔ ∃ language parts, cs = language ++ hyphenated parts ∧
      IsLanguage language ∧ (∀ p ∈ parts, IsPart p) ∧
        tag = (String.ofList language, suffixOf parts) := by
  constructor
  · intro h
    have hletters : ∀ c ∈ (cs.span Char.isAlpha).1, c.isAlpha = true := by
      rw [List.span_eq_takeWhile_dropWhile]
      exact fun c hc => List.all_eq_true.1 List.all_takeWhile c hc
    have hwhole : cs = (cs.span Char.isAlpha).1 ++ (cs.span Char.isAlpha).2 := by
      rw [List.span_eq_takeWhile_dropWhile, List.takeWhile_append_dropWhile]
    unfold readTag? at h
    split at h
    next language rest hspan =>
      rw [hspan] at hletters hwhole
      split at h
      next hlength =>
        have hlanguage : IsLanguage language :=
          ⟨fun c hc => isAlpha_iff.1 (hletters c hc), hlength⟩
        split at h
        · cases h
          exact ⟨language, [], hwhole, hlanguage, List.forall_mem_nil _, rfl⟩
        · next suffix =>
          split at h
          next hsuffix =>
            cases h
            obtain ⟨part, parts, rfl, hparts⟩ := isSuffix_iff.1 hsuffix
            exact ⟨language, part :: parts, hwhole, hlanguage, hparts, rfl⟩
          next => cases h
        · cases h
      next => cases h
  · rintro ⟨language, parts, rfl, hlanguage, hparts, rfl⟩
    exact readTag?_append hlanguage hparts

/-- **A text in single quotes is read exactly if its first free quote is followed by a tag.** -/
theorem read_eq_ok_iff {t : TaggedText} : read (String.ofList ('\'' :: cs)) = .ok t ↔
    ∃ i language parts, Quoted.ClosesAt '\'' cs i ∧
      cs.drop (i + 1) = '@' :: (language ++ hyphenated parts) ∧
      IsLanguage language ∧ (∀ p ∈ parts, IsPart p) ∧
      t = ⟨String.ofList (Quoted.unescape (cs.take i)), String.ofList language,
        suffixOf parts⟩ := by
  have hquote : '\'' ≠ '\\' := by decide
  unfold read
  rw [String.toList_ofList, List.tail_cons]
  constructor
  · intro h
    split at h
    next body tag hread =>
      obtain ⟨i, hcloses, rfl, hdrop⟩ := (Quoted.readBody?_eq_some_iff hquote).1 hread
      split at h
      next language suffix htag =>
        cases h
        obtain ⟨letters, parts, rfl, hlanguage, hparts, heq⟩ := readTag?_eq_some_iff.1 htag
        cases heq
        exact ⟨i, letters, parts, hcloses, hdrop.symm, hlanguage, hparts, rfl⟩
      next => cases h
    next => cases h
  · rintro ⟨i, letters, parts, hcloses, hdrop, hlanguage, hparts, rfl⟩
    have hread := (Quoted.readBody?_eq_some_iff hquote).2 ⟨i, hcloses, rfl, hdrop.symm⟩
    have htag := readTag?_eq_some_iff.2 ⟨letters, parts, rfl, hlanguage, hparts, rfl⟩
    rw [hread]
    simp only [htag]

end TaggedText

namespace Literal

open Quoted (ClosesAt unescape)
open TaggedText (IsLanguage IsPart hyphenated suffixOf)

theorem kind_of_quoted_read {s : String} {e : LiteralError} (h : Quoted.read s = .error e) :
    e.kind = .malformed := by
  unfold Quoted.read at h
  split at h <;> cases h
  rfl

theorem kind_of_tagged_read {s : String} {e : LiteralError} (h : TaggedText.read s = .error e) :
    e.kind = .malformed := by
  unfold TaggedText.read at h
  split at h
  · split at h <;> cases h
    rfl
  · cases h
    rfl

theorem read_or_malformed {α : Type} (f : α → Literal) {x : Except LiteralError α}
    (h : ∀ e, x = .error e → e.kind = .malformed) :
    (∃ v, x.map f = .ok v) ∨ ∃ e, x.map f = .error e ∧ e.kind = .malformed := by
  cases x with
  | ok a => exact .inl ⟨f a, rfl⟩
  | error e => exact .inr ⟨e, rfl, h e rfl⟩

/-- **A quoted text ends with its first free quote**, behind which a single quote needs a tag. It is
read as what stands before, and anything else is malformed. -/
theorem decode_of_quote (cs : List Char) :
    (∀ v, decode (.ofList ('"' :: cs)) = .ok v ↔
      ∃ i, ClosesAt '"' cs i ∧ i + 1 = cs.length ∧
        v = text (String.ofList (unescape (cs.take i)))) ∧
    ((∃ v, decode (.ofList ('"' :: cs)) = .ok v) ∨
      ∃ e, decode (.ofList ('"' :: cs)) = .error e ∧ e.kind = .malformed) ∧
    (∀ v, decode (.ofList ('\'' :: cs)) = .ok v ↔
      ∃ i language parts, ClosesAt '\'' cs i ∧
        cs.drop (i + 1) = '@' :: (language ++ hyphenated parts) ∧
        IsLanguage language ∧ (∀ p ∈ parts, IsPart p) ∧
        v = tagged ⟨String.ofList (unescape (cs.take i)), String.ofList language,
          suffixOf parts⟩) ∧
    ((∃ v, decode (.ofList ('\'' :: cs)) = .ok v) ∨
      ∃ e, decode (.ofList ('\'' :: cs)) = .error e ∧ e.kind = .malformed) := by
  have hdouble : decode (.ofList ('"' :: cs)) =
      (Quoted.read (.ofList ('"' :: cs))).map text := decode_text (by simp)
  have hsingle : decode (.ofList ('\'' :: cs)) =
      (TaggedText.read (.ofList ('\'' :: cs))).map tagged := decode_tagged (by simp)
  rw [hdouble, hsingle]
  refine ⟨fun v => ?_, read_or_malformed text fun e => kind_of_quoted_read, fun v => ?_,
    read_or_malformed tagged fun e => kind_of_tagged_read⟩
  · constructor
    · intro h
      obtain ⟨t, hread, rfl⟩ := exists_of_map_eq_ok h
      obtain ⟨i, hcloses, hlast, rfl⟩ := Quoted.read_eq_ok_iff.1 hread
      exact ⟨i, hcloses, hlast, rfl⟩
    · rintro ⟨i, hcloses, hlast, rfl⟩
      rw [Quoted.read_eq_ok_iff.2 ⟨i, hcloses, hlast, rfl⟩]
      rfl
  · constructor
    · intro h
      obtain ⟨t, hread, rfl⟩ := exists_of_map_eq_ok h
      obtain ⟨i, language, parts, hcloses, htag, hlanguage, hparts, rfl⟩ :=
        TaggedText.read_eq_ok_iff.1 hread
      exact ⟨i, language, parts, hcloses, htag, hlanguage, hparts, rfl⟩
    · rintro ⟨i, language, parts, hcloses, htag, hlanguage, hparts, rfl⟩
      rw [TaggedText.read_eq_ok_iff.2 ⟨i, language, parts, hcloses, htag, hlanguage, hparts, rfl⟩]
      rfl

/-- Two backslashes are a pair, so that the quote behind them is free; behind three it is not. -/
example : decode "\"a\\\\\"" = .ok (text "a\\") ∧
    decode "\"a\\\\\\\"" = .error (.quotedText "\"a\\\\\\\"") := by
  decide +kernel

end Literal

end FactGraph
