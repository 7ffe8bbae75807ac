import Mathlib.Data.List.Basic
import FactGraph.Proofs.Text.Split
import FactGraph.Query.Select
import FactGraph.Schema.Object

/-!
# Question marks

A piece of SQL is written with one question mark for each cell that it binds, in the order of the
cells. What is told of pieces in order (`SqlText.Additive`) is told of all that is put together of
them. `SqlText.Opens` is of this kind and says what stands before each mark, so what holds of the
parts of a query holds of the query.
-/

namespace FactGraph

/-! ## Texts without marks -/

theorem TableName.not_mem_name (t : TableName) : '?' ∉ t.name.toList := by
  cases t with
  | values kind => cases kind <;> decide
  | _ => decide

theorem not_mem_quoteName {name : String} (h : '?' ∉ name.toList) :
    '?' ∉ (quoteName name).toList := by
  simp only [quoteName, String.toList_ofList, List.mem_append, List.mem_cons, List.mem_flatMap,
    List.not_mem_nil, or_false, not_or, not_exists, not_and]
  refine ⟨⟨by decide, fun c hc => ?_⟩, by decide⟩
  split
  · decide
  · rw [List.mem_singleton]
    exact fun heq => h (heq ▸ hc)

theorem SqlSelect.not_mem_columnsText {s : SqlSelect} (hbase : '?' ∉ s.base.toList)
    (hcolumns : ∀ column ∈ s.columns, '?' ∉ column.1.toList ∧ '?' ∉ column.2.toList) :
    '?' ∉ s.columnsText.toList := by
  unfold columnsText
  split
  · simp [hbase]
  · refine Text.not_mem_intercalate (by decide) (List.forall_mem_map.2 fun column hcolumn => ?_)
    obtain ⟨hname, hexpr⟩ := hcolumns column hcolumn
    have hquoted := not_mem_quoteName hname
    simp [columnText, hquoted, hexpr]

namespace SqlText

variable {a b : SqlText} {parts : List SqlText} {openings more : List String}

/-! ## Texts and cells of pieces -/

@[simp] theorem text_raw (text : String) : (raw text).text = text := rfl
@[simp] theorem params_raw (text : String) : (raw text).params = [] := rfl
@[simp] theorem text_mark (cell : Cell) : (mark cell).text = "?" := rfl
@[simp] theorem params_mark (cell : Cell) : (mark cell).params = [cell] := rfl
@[simp] theorem text_empty : empty.text = "" := rfl
@[simp] theorem params_empty : empty.params = [] := rfl
@[simp] theorem text_append (a b : SqlText) : (a ++ b).text = a.text ++ b.text := rfl
@[simp] theorem params_append (a b : SqlText) : (a ++ b).params = a.params ++ b.params := rfl
@[simp] theorem text_always : always.text = "1=1" := rfl
@[simp] theorem params_always : always.params = [] := rfl

@[ext] theorem ext_parts (htext : a.text = b.text) (hparams : a.params = b.params) : a = b := by
  cases a
  cases b
  simp_all

theorem append_assoc (a b c : SqlText) : a ++ b ++ c = a ++ (b ++ c) :=
  ext_parts (String.append_assoc) (List.append_assoc ..)

@[simp] theorem empty_append (a : SqlText) : empty ++ a = a := ext_parts (by simp) (by simp)
@[simp] theorem append_empty (a : SqlText) : a ++ empty = a := ext_parts (by simp) (by simp)

@[simp] theorem concat_nil : concat [] = empty := rfl
@[simp] theorem concat_cons (a : SqlText) (parts : List SqlText) :
    concat (a :: parts) = a ++ concat parts := rfl

@[simp] theorem concat_append (parts others : List SqlText) :
    concat (parts ++ others) = concat parts ++ concat others := by
  induction parts with
  | nil => simp
  | cons part parts ih => simp [ih, append_assoc]

theorem concat_flatMap {ι : Type} (items : List ι) (f : ι → List SqlText) :
    concat (items.flatMap f) = concat (items.map fun item => concat (f item)) := by
  induction items with
  | nil => rfl
  | cons item items ih => simp [ih]

theorem text_concat_congr {others : List SqlText} (h : parts.map text = others.map text) :
    (concat parts).text = (concat others).text := by
  have htext : ∀ ps : List SqlText, (concat ps).text = (ps.map text).foldr (· ++ ·) "" := by
    intro ps
    induction ps with
    | nil => rfl
    | cons p ps ih => simp [ih]
  rw [htext, htext, h]

theorem text_join_congr {separator : String} {others : List SqlText}
    (h : parts.map text = others.map text) :
    (join separator parts).text = (join separator others).text := by
  have htext : ∀ ps : List SqlText, (ps.intersperse (raw separator)).map text =
      (ps.map text).intersperse separator := by
    intro ps
    induction ps with
    | nil => rfl
    | cons p ps ih => cases ps with
      | nil => rfl
      | cons q ps => simpa using ih
  exact text_concat_congr (by rw [htext, htext, h])

theorem params_concat (parts : List SqlText) : (concat parts).params = parts.flatMap params := by
  induction parts with
  | nil => rfl
  | cons part parts ih => simp [ih]

theorem params_join (separator : String) (parts : List SqlText) :
    (join separator parts).params = parts.flatMap params := by
  rw [join, params_concat]
  induction parts with
  | nil => rfl
  | cons part parts ih => cases parts with
    | nil => rfl
    | cons next rest =>
      rw [List.intersperse_cons_cons, List.flatMap_cons, List.flatMap_cons, ih]
      simp

theorem params_anyOf (parts : List SqlText) : (anyOf parts).params = parts.flatMap params := by
  cases parts with
  | nil => rfl
  | cons part parts => simp [anyOf, params_join, List.flatMap_map]

theorem params_isIn (expr : String) (values : List String) :
    (isIn expr values).params = values.map Cell.text := by
  rw [isIn, params_append, params_append, params_join, List.flatMap_map]
  simpa using (List.map_eq_flatMap (f := Cell.text) (l := values)).symm

theorem text_anyOf_congr {others : List SqlText} (h : parts.map text = others.map text) :
    (anyOf parts).text = (anyOf others).text := by
  have hempty : parts.isEmpty = others.isEmpty := by
    simpa using congrArg List.isEmpty h
  have hwrapped : (parts.map fun part => raw "(" ++ part ++ raw ")").map text =
      (others.map fun part => raw "(" ++ part ++ raw ")").map text := by
    simpa [Function.comp_def] using congrArg (List.map fun text => "(" ++ text ++ ")") h
  unfold anyOf
  rw [hempty]
  split
  · rfl
  · simp only [text_append, text_join_congr hwrapped]

/-- A list of values is written with as many marks, whatever they are. -/
theorem text_isIn_congr {expr : String} {values others : List String}
    (h : values.length = others.length) : (isIn expr values).text = (isIn expr others).text := by
  have hmarks : ∀ texts : List String, (texts.map fun v => mark (.text v)).map text =
      List.replicate texts.length "?" := by
    intro texts
    rw [List.map_map, List.eq_replicate_iff]
    simp
  have hjoin : (join ", " (values.map fun v => mark (.text v))).text =
      (join ", " (others.map fun v => mark (.text v))).text :=
    text_join_congr ((hmarks values).trans (h ▸ (hmarks others).symm))
  simp only [isIn, text_append, text_raw, hjoin]

/-! ## What is told piece by piece -/

/-- A relation that tells something of a text piece by piece: nothing of plain text, and of a text
in two parts what it tells of both, in order. -/
structure Additive {γ : Type} (R : SqlText → List γ → Prop) : Prop where
  plain : ∀ {text : String}, '?' ∉ text.toList → R (raw text) []
  append : ∀ {a b : SqlText} {xs ys : List γ}, R a xs → R b ys → R (a ++ b) (xs ++ ys)

namespace Additive

variable {γ ι : Type} {R : SqlText → List γ → Prop} {items : List ι} {f : ι → SqlText}
  {told : ι → List γ} {text : String} {xs : List γ}

theorem empty (hR : Additive R) : R SqlText.empty [] := hR.plain (by simp)

theorem prepend (hR : Additive R) (htext : '?' ∉ text.toList) (h : R a xs) : R (raw text ++ a) xs :=
  hR.append (hR.plain htext) h

theorem before (hR : Additive R) (htext : '?' ∉ text.toList) (h : R a xs) :
    R (a ++ raw text) xs := by
  simpa using hR.append h (hR.plain htext)

theorem concat (hR : Additive R) (h : ∀ item ∈ items, R (f item) (told item)) :
    R (SqlText.concat (items.map f)) (items.flatMap told) := by
  induction items with
  | nil => exact hR.empty
  | cons item items ih =>
    rw [List.map_cons, concat_cons, List.flatMap_cons]
    exact hR.append (h item List.mem_cons_self) (ih fun next hnext => h next (.tail _ hnext))

theorem join (hR : Additive R) {separator : String} (hplain : '?' ∉ separator.toList)
    (h : ∀ item ∈ items, R (f item) (told item)) :
    R (SqlText.join separator (items.map f)) (items.flatMap told) := by
  induction items with
  | nil => exact hR.empty
  | cons item items ih =>
    have hitem := h item List.mem_cons_self
    cases items with
    | nil => simpa [SqlText.join] using hitem
    | cons next items =>
      have hrest := ih fun other hother => h other (.tail _ hother)
      simp only [SqlText.join, List.map_cons, List.intersperse_cons_cons, concat_cons,
        List.flatMap_cons] at hrest ⊢
      exact hR.append hitem (hR.prepend hplain hrest)

theorem bracketed (hR : Additive R) (h : R a xs) : R (raw "(" ++ a ++ raw ")") xs :=
  hR.before (by simp) (hR.prepend (by simp) h)

theorem anyOf (hR : Additive R) (h : ∀ item ∈ items, R (f item) (told item)) :
    R (SqlText.anyOf (items.map f)) (items.flatMap told) := by
  cases items with
  | nil => exact hR.plain (by simp)
  | cons item items =>
    rw [SqlText.anyOf, if_neg (by simp), List.map_map]
    exact hR.bracketed (hR.join (by simp) fun other hother => hR.bracketed (h other hother))

end Additive

/-! ## What opens the marks -/

/-- The text has one question mark for each opening, and the text since the mark before ends with
the opening. -/
inductive MarksAfter : List Char → List String → Prop
  | done {text : List Char} (hplain : '?' ∉ text) : MarksAfter text []
  | mark {text rest : List Char} {opening : String} {openings : List String} (hplain : '?' ∉ text)
      (hopening : opening.toList <:+ text) (hrest : MarksAfter rest openings) :
      MarksAfter (text ++ '?' :: rest) (opening :: openings)

namespace MarksAfter

variable {cs ds : List Char}

theorem count_eq (h : MarksAfter cs openings) : cs.count '?' = openings.length := by
  induction h with
  | done hplain => exact List.count_eq_zero.2 hplain
  | mark hplain _ _ ih => simp [List.count_eq_zero.2 hplain, ih]

theorem prepend (hplain : '?' ∉ cs) (h : MarksAfter ds openings) :
    MarksAfter (cs ++ ds) openings := by
  cases h with
  | done hrest => exact .done (by simp [hplain, hrest])
  | mark htext hopening hrest =>
    rw [← List.append_assoc]
    exact .mark (by simp [hplain, htext]) (hopening.trans (List.suffix_append ..)) hrest

theorem append (h : MarksAfter cs openings) (hmore : MarksAfter ds more) :
    MarksAfter (cs ++ ds) (openings ++ more) := by
  induction h with
  | done hplain => exact hmore.prepend hplain
  | mark hplain hopening _ ih =>
    rw [List.append_assoc, List.cons_append]
    exact .mark hplain hopening ih

end MarksAfter

/-- The marks of the piece stand after these texts. -/
def Opens (s : SqlText) (openings : List String) : Prop := MarksAfter s.text.toList openings

theorem Opens.count_eq (h : a.Opens openings) : a.text.toList.count '?' = openings.length :=
  MarksAfter.count_eq h

theorem opens_raw {text : String} (h : '?' ∉ text.toList) : (raw text).Opens [] := .done h

theorem opens_empty : empty.Opens [] := opens_raw (by simp)

theorem opens_mark {opening : String} (cell : Cell) (h : '?' ∉ opening.toList) :
    (raw opening ++ mark cell).Opens [opening] := by
  have hmark : MarksAfter (opening.toList ++ '?' :: []) [opening] :=
    .mark h (List.suffix_refl _) (.done (by simp))
  simpa [Opens] using hmark

theorem Opens.append (ha : a.Opens openings) (hb : b.Opens more) :
    (a ++ b).Opens (openings ++ more) := by
  rw [Opens, text_append, String.toList_append]
  exact MarksAfter.append ha hb

theorem additive_opens : Additive Opens := ⟨opens_raw, Opens.append⟩

theorem Opens.prepend {text : String} (h : '?' ∉ text.toList) (ha : a.Opens openings) :
    (raw text ++ a).Opens openings :=
  additive_opens.prepend h ha

theorem Opens.before {text : String} (h : '?' ∉ text.toList) (ha : a.Opens openings) :
    (a ++ raw text).Opens openings :=
  additive_opens.before h ha

/-- The first mark of a list of values stands after the expression, the others after commas. -/
def inOpenings (expr : String) (count : Nat) : List String :=
  (List.range count).map fun i => if i = 0 then expr ++ " IN (" else ", "

theorem opens_isIn {expr : String} (h : '?' ∉ expr.toList) (values : List String) :
    (isIn expr values).Opens (inOpenings expr values.length) := by
  have hcommas : ∀ texts : List String,
      (concat (texts.map fun v => raw ", " ++ mark (.text v))).Opens
        (List.replicate texts.length ", ") := by
    intro texts
    have hopens : (concat (texts.map fun v => raw ", " ++ mark (.text v))).Opens
        (texts.flatMap fun _ => [", "]) :=
      additive_opens.concat fun v _ => opens_mark (.text v) (by simp)
    rwa [← List.map_eq_flatMap, List.map_const'] at hopens
  have hjoin : ∀ (first : String) (rest : List String),
      join ", " ((first :: rest).map fun v => mark (.text v)) =
        mark (.text first) ++ concat (rest.map fun v => raw ", " ++ mark (.text v)) := by
    intro first rest
    induction rest generalizing first with
    | nil => simp [join]
    | cons next rest ih =>
      have hrest := ih next
      simp only [join, List.map_cons, List.intersperse_cons_cons, concat_cons] at hrest ⊢
      rw [hrest, append_assoc]
  have hclose : '?' ∉ ")".toList := by simp
  cases values with
  | nil =>
    have hopen : (raw (expr ++ " IN (")).Opens [] := opens_raw (by simp [h])
    exact (hopen.append opens_empty).before hclose
  | cons first rest =>
    have hfirst : (raw (expr ++ " IN (") ++ mark (.text first)).Opens [expr ++ " IN ("] :=
      opens_mark _ (by simp [h])
    have hall := (hfirst.append (hcommas rest)).before hclose
    rw [isIn, hjoin, ← append_assoc]
    simpa [inOpenings, List.range_succ_eq_map, Function.comp_def, List.map_const'] using hall

end SqlText

end FactGraph
