import FactGraph.Literal.Quoted
import FactGraph.Proofs.Literal.Numeral

/-!
# Quoted texts read back

Any text between quotes is read back with what follows the quotes (`Quoted.readBody?_escape`), so
texts are (`Quoted.read_render`), and with a well-formed tag texts in a language
(`TaggedText.WellFormed.read_render`). What is read has a well-formed tag
(`TaggedText.wellFormed_of_read`).
-/

namespace FactGraph

namespace Quoted

/-- The quotes that are in use are none of the characters that stand behind a backslash. -/
def IsQuote (quote : Char) : Prop := quote = '"' ∨ quote = '\''

variable {quote : Char}

theorem readBody?_cons {c : Char} (hbackslash : c ≠ '\\') (hquote : c ≠ quote) (rest : List Char) :
    readBody? quote (c :: rest) =
      (readBody? quote rest).map fun (body, after) => (c :: body, after) := by
  rw [readBody?.eq_def]
  split
  next h => cases h
  next h => exact absurd (List.cons.inj h).1 hbackslash
  next h => exact absurd (List.cons.inj h).1 hbackslash
  next h =>
    obtain ⟨rfl, rfl⟩ := List.cons.inj h
    rw [if_neg hquote]

theorem readBody?_escapeChar (hquote : IsQuote quote) (c : Char) (rest : List Char) :
    readBody? quote (escapeChar quote c ++ rest) =
      (readBody? quote rest).map fun (body, after) => (c :: body, after) := by
  by_cases hbackslash : c = '\\'
  · subst hbackslash
    rfl
  by_cases hlineFeed : c = '\n'
  · subst hlineFeed
    rfl
  by_cases htab : c = '\t'
  · subst htab
    rfl
  by_cases hreturn : c = '\r'
  · subst hreturn
    rfl
  by_cases hc : c = quote
  · subst hc
    rcases hquote with rfl | rfl <;> rfl
  have hplain : escapeChar quote c = [c] := by
    simp [escapeChar, hbackslash, hlineFeed, htab, hreturn, hc]
  rw [hplain]
  exact readBody?_cons hbackslash hc rest

/-- **A quoted text is read back**, with what follows it. -/
theorem readBody?_escape (hquote : IsQuote quote) (cs rest : List Char) :
    readBody? quote (escape quote cs ++ quote :: rest) = some (cs, rest) := by
  induction cs with
  | nil => rcases hquote with rfl | rfl <;> rfl
  | cons c cs ih =>
    show readBody? quote ((escapeChar quote c ++ escape quote cs) ++ quote :: rest) = _
    rw [List.append_assoc, readBody?_escapeChar hquote, ih]
    rfl

/-- **A text is read back.** -/
theorem read_render (text : String) : read (String.ofList (render '"' text)) = .ok text := by
  have hbody := readBody?_escape (.inl rfl) text.toList []
  have htext : (render '"' text).tail = escape '"' text.toList ++ ['"'] := by simp [render]
  unfold read
  rw [String.toList_ofList, htext, hbody]
  simp only [String.ofList_toList]

end Quoted

namespace TaggedText

/-- The language has two or three letters, and a suffix has parts of letters and digits. -/
structure WellFormed (t : TaggedText) : Prop where
  letters : ∀ c ∈ t.language.toList, c.isAlpha = true
  length : t.language.toList.length = 2 ∨ t.language.toList.length = 3
  suffix : ∀ suffix ∈ t.suffix, isSuffix suffix.toList = true

/-- **A well-formed tag is read back.** -/
theorem WellFormed.readTag?_tag {t : TaggedText} (h : t.WellFormed) :
    readTag? t.tag.toList = some (t.language, t.suffix) := by
  unfold readTag? tag
  cases hsuffix : t.suffix with
  | none =>
    have hspan : (t.language.toList ++ []).span Char.isAlpha = (t.language.toList, []) :=
      span_append h.letters (by simp)
    rw [List.append_nil] at hspan
    simp only [hspan, if_pos h.length, String.ofList_toList]
  | some suffix =>
    have hspan : (t.language.toList ++ '-' :: suffix.toList).span Char.isAlpha =
        (t.language.toList, '-' :: suffix.toList) := span_append h.letters (by simp)
    have htag : (t.language ++ "-" ++ suffix).toList =
        t.language.toList ++ '-' :: suffix.toList := by simp
    rw [htag, hspan]
    simp only [if_pos h.length, h.suffix suffix hsuffix, if_true, String.ofList_toList]

/-- **A text in a language is read back.** -/
theorem WellFormed.read_render {t : TaggedText} (h : t.WellFormed) :
    read (String.ofList t.render) = .ok t := by
  have hbody := Quoted.readBody?_escape (.inr rfl) t.text.toList ('@' :: t.tag.toList)
  have htext : t.render.tail =
      Quoted.escape '\'' t.text.toList ++ '\'' :: '@' :: t.tag.toList := by
    simp [render, Quoted.render]
  unfold read
  rw [String.toList_ofList, htext, hbody]
  simp only [h.readTag?_tag, String.ofList_toList]

theorem of_readTag?_eq_some {cs : List Char} {language : String} {suffix : Option String}
    (h : readTag? cs = some (language, suffix)) (text : String) :
    WellFormed ⟨text, language, suffix⟩ := by
  unfold readTag? at h
  have hletters : ∀ c ∈ (cs.span Char.isAlpha).1, c.isAlpha = true := by
    rw [List.span_eq_takeWhile_dropWhile]
    exact fun c hc => List.all_eq_true.1 List.all_takeWhile c hc
  split at h
  next tag rest hspan =>
    rw [hspan] at hletters
    split at h
    next hlength =>
      split at h
      · cases h
        exact ⟨by simpa using hletters, by simpa using hlength, by simp⟩
      · split at h
        next hsuffix =>
          cases h
          exact ⟨by simpa using hletters, by simpa using hlength, by simpa using hsuffix⟩
        next => cases h
      · cases h
    next => cases h

/-- **Whatever is read has a well-formed tag.** -/
theorem wellFormed_of_read {text : String} {t : TaggedText} (h : read text = .ok t) :
    t.WellFormed := by
  unfold read at h
  split at h
  next =>
    split at h
    next htag =>
      cases h
      exact of_readTag?_eq_some htag _
    next => cases h
  next => cases h

end TaggedText

end FactGraph
