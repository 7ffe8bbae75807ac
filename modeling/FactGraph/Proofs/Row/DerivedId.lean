import FactGraph.Proofs.Literal.Characters
import FactGraph.Proofs.Text.Encoding

/-!
# What a derived id tells

A derived id has the node, the label and sixteen digits of a digest, with hyphens between them. What
is digested are the node, the label, the value and the occurrence, with tabs between them. Either of
them alone can be cut in different ways, because texts may hold hyphens and tabs. Both together can
be cut in one way only, since a tab is no hyphen. So as long as the digest tells its inputs apart,
an id determines all that it was made of (`eq_of_kept_edgeId_eq`), even if the id has been written
in an encoding that replaces some characters: what is replaced stands in the node or the label.
Without that assumption, two equal ids are a collision of the digest (`edgeId_eq_iff`).
-/

namespace FactGraph

open Text (IsInline isBreak)

/-! ## Digits of a digest -/

namespace Digest

theorem length_stem (bytes : List UInt8) : (stem bytes).length = 16 := by
  simp [stem, hexOfWord, List.length_flatMap]

theorem exists_digitChar_of_mem_stem {bytes : List UInt8} {c : Char} (hc : c ∈ stem bytes) :
    ∃ n < 16, c = Nat.digitChar n := by
  have hword (w : UInt32) (h : c ∈ hexOfWord w) : ∃ n < 16, c = Nat.digitChar n := by
    obtain ⟨k, -, h⟩ := List.mem_flatMap.1 h
    simp only [List.mem_cons, List.not_mem_nil, or_false] at h
    rcases h with rfl | rfl <;> exact ⟨_, Nat.mod_lt _ (by decide), rfl⟩
  rw [stem, List.mem_append] at hc
  exact hc.elim (hword _) (hword _)

theorem isBreak_of_mem_stem {bytes : List UInt8} {c : Char} (hc : c ∈ stem bytes) :
    isBreak c = false := by
  have hdigits : ∀ n < 16, isBreak (Nat.digitChar n) = false := by decide
  obtain ⟨n, hn, rfl⟩ := exists_digitChar_of_mem_stem hc
  exact hdigits n hn

theorem map_charKept_stem (encoding : TextEncoding) (bytes : List UInt8) :
    (stem bytes).map encoding.charKept = stem bytes := by
  have hdigits : ∀ n < 16, (Nat.digitChar n).toNat < 128 := by decide
  have hkept : ∀ c ∈ stem bytes, encoding.charKept c = id c := by
    intro c hc
    obtain ⟨n, hn, rfl⟩ := exists_digitChar_of_mem_stem hc
    exact encoding.charKept_of_lt (hdigits n hn)
  rw [List.map_congr_left hkept, List.map_id]

end Digest

theorem isInline_edgeId {node1 label : String} (hnode : IsInline node1) (hlabel : IsInline label)
    (node2 : String) (occurrence : Nat) : IsInline (edgeId node1 label node2 occurrence) := by
  have hhyphen : IsInline "-" := by decide
  exact Text.isInline_append.2 ⟨Text.isInline_append.2 ⟨Text.isInline_append.2
    ⟨Text.isInline_append.2 ⟨hnode, hhyphen⟩, hlabel⟩, hhyphen⟩,
    Text.isInline_ofList.2 fun c hc => Digest.isBreak_of_mem_stem hc⟩

/-! ## Cutting at separators -/

section Separators

variable {α β : Type} {xs ys front back : List α} {a b : α} {f : α → β}

/-- The last separator cuts a list in one way. -/
theorem eq_of_append_cons_eq (h : xs ++ a :: front = ys ++ a :: back) (hfront : a ∉ front)
    (hback : a ∉ back) : xs = ys ∧ front = back := by
  rcases List.append_eq_append_iff.1 h with ⟨between, hys, hrest⟩ | ⟨between, hxs, hrest⟩
  · rcases List.cons_eq_append_iff.1 hrest with ⟨rfl, hsame⟩ | ⟨rest, rfl, rfl⟩
    · exact ⟨by simpa using hys.symm, (List.cons.inj hsame).2.symm⟩
    · exact absurd (by simp) hfront
  · rcases List.cons_eq_append_iff.1 hrest with ⟨rfl, hsame⟩ | ⟨rest, rfl, rfl⟩
    · exact ⟨by simpa using hxs, (List.cons.inj hsame).2⟩
    · exact absurd (by simp) hback

/-- Two lists begin with the same piece if the piece ends at one separator in the lists and, seen
through `f`, at another in two other lists. -/
theorem eq_of_two_separators {front' back' : List α} (hne : f a ≠ f b)
    (hone : xs ++ a :: front = ys ++ a :: back)
    (hother : (xs ++ b :: front').map f = (ys ++ b :: back').map f) : xs = ys := by
  -- On what stands before the separator. Where one side ends first, the two texts would have one
  -- character that is both separators.
  induction xs generalizing ys with
  | nil => cases ys with
    | nil => rfl
    | cons y ys =>
      obtain ⟨rfl, -⟩ := List.cons.inj hone
      exact absurd (List.cons.inj hother).1.symm hne
  | cons x xs ih => cases ys with
    | nil =>
      obtain ⟨rfl, -⟩ := List.cons.inj hone
      exact absurd (List.cons.inj hother).1 hne
    | cons y ys =>
      obtain ⟨rfl, htail⟩ := List.cons.inj hone
      rw [ih htail (List.cons.inj hother).2]

end Separators

/-! ## What an id is made of -/

theorem toList_toString_injective {k l : Nat} (h : (toString k).toList = (toString l).toList) :
    k = l := by
  have hnumber := congrArg (fun digits => Nat.ofDigitChars 10 digits 0) h
  simpa [Nat.toString_eq_ofList_toDigits] using hnumber

variable {node node' label label' node2 node2' : String} {k k' : Nat}

theorem eq_of_idBytes_eq (h : idBytes node label node2 k = idBytes node' label' node2' k') :
    node.toList ++ '\t' :: (label.toList ++ '\t' :: (node2.toList ++ '\t' :: (toString k).toList)) =
      node'.toList ++ '\t' ::
        (label'.toList ++ '\t' :: (node2'.toList ++ '\t' :: (toString k').toList)) := by
  have hchars := congrArg String.toList (Text.bytes_injective h)
  simpa [String.toList_append] using hchars

/-- The characters of an id as they are after it was written: those of its texts, and the digits. -/
theorem toList_kept_edgeId (encoding : TextEncoding) (node label node2 : String) (k : Nat) :
    (encoding.kept (edgeId node label node2 k)).toList =
      (node.toList ++ '-' :: (label.toList ++ ['-'])).map encoding.charKept ++
        Digest.stem (idBytes node label node2 k) := by
  rw [TextEncoding.toList_kept, edgeId]
  simp [String.toList_append, Digest.map_charKept_stem]

/-- **A derived id determines what it was made of**, if the digest tells the two inputs apart. -/
theorem eq_of_kept_edgeId_eq {encoding : TextEncoding}
    (hdigest : Digest.stem (idBytes node label node2 k) =
        Digest.stem (idBytes node' label' node2' k') →
      idBytes node label node2 k = idBytes node' label' node2' k')
    (h : encoding.kept (edgeId node label node2 k) =
      encoding.kept (edgeId node' label' node2' k')) :
    node = node' ∧ label = label' ∧ node2 = node2' ∧ k = k' := by
  have hchars := congrArg String.toList h
  rw [toList_kept_edgeId, toList_kept_edgeId] at hchars
  obtain ⟨hfronts, hstems⟩ :=
    List.append_inj' hchars (by rw [Digest.length_stem, Digest.length_stem])
  have hinputs := eq_of_idBytes_eq (hdigest hstems)
  have hseparators : encoding.charKept '\t' ≠ encoding.charKept '-' := by
    rw [encoding.charKept_of_lt (by decide), encoding.charKept_of_lt (by decide)]
    decide
  -- The id shows node and label with hyphens between, its stem stands for them with tabs between,
  -- so a hyphen in the node cannot be taken for the end of it.
  have hnode := eq_of_two_separators hseparators hinputs hfronts
  rw [hnode] at hinputs hfronts
  obtain ⟨-, hinputs⟩ := List.cons.inj (List.append_cancel_left hinputs)
  have hlabels : (label.toList ++ ['-']).map encoding.charKept =
      (label'.toList ++ ['-']).map encoding.charKept := by
    simpa using hfronts
  have hlabel := eq_of_two_separators hseparators hinputs hlabels
  rw [hlabel] at hinputs
  obtain ⟨-, hinputs⟩ := List.cons.inj (List.append_cancel_left hinputs)
  have hdigits (n : Nat) : '\t' ∉ (toString n).toList := by
    intro htab
    exact absurd ((isField_toString n).isInline '\t' htab) (by decide)
  obtain ⟨hnode2, hcount⟩ := eq_of_append_cons_eq hinputs (hdigits k) (hdigits k')
  exact ⟨String.toList_inj.1 hnode, String.toList_inj.1 hlabel, String.toList_inj.1 hnode2,
    toList_toString_injective hcount⟩

/-! ## Collisions -/

/-- Different bytes with the same first sixteen digits of their digests. -/
structure Digest.Collide (xs ys : List UInt8) : Prop where
  differ : xs ≠ ys
  agree : stem xs = stem ys

/-- An id is what stands before the last hyphen, and the digits after it. -/
theorem edgeId_eq_iff_parts :
    edgeId node label node2 k = edgeId node' label' node2' k' ↔
      node ++ "-" ++ label = node' ++ "-" ++ label' ∧
      Digest.stem (idBytes node label node2 k) = Digest.stem (idBytes node' label' node2' k') := by
  constructor
  · intro h
    have hchars := congrArg String.toList h
    simp only [edgeId, String.toList_append, String.toList_ofList] at hchars
    obtain ⟨hfronts, hstems⟩ :=
      List.append_inj' hchars (by rw [Digest.length_stem, Digest.length_stem])
    have hfront := List.append_cancel_right hfronts
    refine ⟨String.toList_inj.1 ?_, hstems⟩
    simpa only [String.toList_append] using hfront
  · intro h
    rw [edgeId, edgeId, h.1, h.2]

/-- **Equal ids are made of the same, or the digest collides**: the hyphens and the tabs between the
parts add no collision of their own, whatever the parts hold. -/
theorem edgeId_eq_iff :
    edgeId node label node2 k = edgeId node' label' node2' k' ↔
      (node = node' ∧ label = label' ∧ node2 = node2' ∧ k = k') ∨
      (node ++ "-" ++ label = node' ++ "-" ++ label' ∧
        Digest.Collide (idBytes node label node2 k) (idBytes node' label' node2' k')) := by
  constructor
  · intro h
    by_cases hinputs : idBytes node label node2 k = idBytes node' label' node2' k'
    · have hkept := congrArg TextEncoding.utf8.kept h
      exact .inl (eq_of_kept_edgeId_eq (fun _ => hinputs) hkept)
    · obtain ⟨hfront, hstems⟩ := edgeId_eq_iff_parts.1 h
      exact .inr ⟨hfront, hinputs, hstems⟩
  · intro h
    rcases h with ⟨rfl, rfl, rfl, rfl⟩ | ⟨hfront, hcollide⟩
    · rfl
    · exact edgeId_eq_iff_parts.2 ⟨hfront, hcollide.agree⟩

/-- Tabs alone would not do, and neither would hyphens: a text that holds one can be cut there. -/
example : idBytes "a\tb" "c" "" 0 = idBytes "a" "b\tc" "" 0 ∧
    "a-b" ++ "-" ++ "c" = "a" ++ "-" ++ "b-c" := by decide

end FactGraph
