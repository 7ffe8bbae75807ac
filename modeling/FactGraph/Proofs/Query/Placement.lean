import FactGraph.Proofs.Query.Build
import FactGraph.Proofs.Query.Marks

/-!
# Where the cells of a query belong

A query is put together of pieces of SQL: the conditions of its joins, its own conditions and its
limit. A piece can be put together of other pieces itself (`SqlPiece`). Text and cells are collected
apart, so a cell could come to stand for the mark of another piece. It does not, if every piece has
one mark for each of its cells and all else has no marks: what stands before a piece then has as
many marks as it has cells.

The notion that carries this is `SqlText.Laid`: a text is laid out of pieces if they follow one
another in it with plain text between them. Whatever puts pieces together lays them out
(`laid_anyOf`, `PieceSelect.laid_render`), and a layout can be taken apart at each of its pieces
(`Laid.split`). **So the marks of a query stand in the pieces that their cells come from, at the
same places** (`PieceSelect.marks_of_render`). What is asked of a query is kept by each step that
builds it, so it is enough to ask it of the steps (`PieceSelect.isPlain_built`,
`PieceSelect.balanced_built`).
-/

namespace FactGraph

namespace SqlText

variable {a b s piece : SqlText} {pieces others : List SqlText} {text : String}

/-! ## Marks and cells -/

/-- There is one mark for each cell. -/
def IsBalanced (s : SqlText) : Prop := s.text.toList.count '?' = s.params.length

instance : Decidable s.IsBalanced := inferInstanceAs (Decidable (_ = _))

/-- The places of the marks in the text. -/
def marks (s : SqlText) : List Nat := s.text.toList.findIdxs (· = '?')

theorem length_marks (s : SqlText) : s.marks.length = s.text.toList.count '?' := by
  rw [marks, List.length_findIdxs, List.count_eq_countP']
  rfl

theorem IsBalanced.length_marks (h : s.IsBalanced) : s.marks.length = s.params.length := by
  rw [SqlText.length_marks, h]

/-- The marks of a piece are behind those of the text before it. -/
theorem marks_append (a b : SqlText) :
    (a ++ b).marks = a.marks ++ b.marks.map (· + a.text.length) := by
  have hbehind : b.text.toList.findIdxs (· = '?') a.text.toList.length =
      b.marks.map (· + a.text.toList.length) := List.findIdxs_start
  rw [marks, text_append, String.toList_append, List.findIdxs_append, Nat.zero_add, hbehind,
    String.length_toList]
  rfl

theorem isBalanced_raw (h : '?' ∉ text.toList) : (raw text).IsBalanced :=
  List.count_eq_zero.2 h

theorem IsBalanced.append (ha : a.IsBalanced) (hb : b.IsBalanced) : (a ++ b).IsBalanced := by
  rw [IsBalanced, text_append, String.toList_append, List.count_append, ha, hb, params_append,
    List.length_append]

/-- **The marks and the cells of a piece are found at the same numbers**, if what stands before it
is balanced. -/
theorem marks_of_split {front back : SqlText} (hsplit : s = front ++ piece ++ back)
    (hfront : front.IsBalanced) (hpiece : piece.IsBalanced) {i : Nat}
    (hi : i < piece.params.length) :
    ∃ place, piece.marks[i]? = some place ∧
      s.marks[front.params.length + i]? = some (front.text.length + place) ∧
      s.params[front.params.length + i]? = piece.params[i]? := by
  have hplace : i < piece.marks.length := hpiece.length_marks.symm ▸ hi
  have hmarks : s.marks = front.marks ++ (piece.marks.map (· + front.text.length) ++
      back.marks.map (· + (front ++ piece).text.length)) := by
    rw [hsplit, marks_append, marks_append, List.append_assoc]
  have hparams : s.params = front.params ++ (piece.params ++ back.params) := by
    rw [hsplit, params_append, params_append, List.append_assoc]
  refine ⟨piece.marks[i], List.getElem?_eq_getElem hplace, ?_, ?_⟩
  · rw [hmarks, ← hfront.length_marks, List.getElem?_append_right (Nat.le_add_right ..),
      Nat.add_sub_cancel_left, List.getElem?_append_left (by rwa [List.length_map]),
      List.getElem?_map, List.getElem?_eq_getElem hplace, Option.map_some, Nat.add_comm]
  · rw [hparams, List.getElem?_append_right (Nat.le_add_right ..), Nat.add_sub_cancel_left,
      List.getElem?_append_left hi]

/-! ## Layouts -/

/-- The text is the pieces one after the other, with plain text between them. -/
inductive Laid : SqlText → List SqlText → Prop
  | plain {text : String} (hplain : '?' ∉ text.toList) : Laid (raw text) []
  | piece {text : String} {piece rest : SqlText} {pieces : List SqlText}
      (hplain : '?' ∉ text.toList) (hrest : Laid rest pieces) :
      Laid (raw text ++ piece ++ rest) (piece :: pieces)

theorem laid_self (piece : SqlText) : Laid piece [piece] := by
  have h : Laid (raw "" ++ piece ++ raw "") [piece] := .piece (by simp) (.plain (by simp))
  rwa [show raw "" = empty from rfl, empty_append, append_empty] at h

namespace Laid

theorem prepend (hplain : '?' ∉ text.toList) (h : Laid s pieces) : Laid (raw text ++ s) pieces := by
  have hboth {more : String} (hmore : '?' ∉ more.toList) : '?' ∉ (text ++ more).toList := by
    rw [String.toList_append, List.mem_append]
    exact not_or.2 ⟨hplain, hmore⟩
  cases h with
  | plain hrest => exact .plain (hboth hrest)
  | piece htext hrest =>
    rw [← append_assoc, ← append_assoc]
    exact .piece (hboth htext) hrest

theorem append (ha : Laid a pieces) (hb : Laid b others) : Laid (a ++ b) (pieces ++ others) := by
  induction ha with
  | plain hplain => exact hb.prepend hplain
  | piece hplain _ ih =>
    rw [append_assoc, List.cons_append]
    exact .piece hplain ih

theorem params_eq (h : Laid s pieces) : s.params = pieces.flatMap params := by
  induction h with
  | plain => rfl
  | piece _ _ ih => rw [params_append, params_append, params_raw, List.nil_append, ih,
      List.flatMap_cons]

/-- What is laid out of balanced pieces is balanced. -/
theorem isBalanced (h : Laid s pieces) (hpieces : ∀ p ∈ pieces, p.IsBalanced) : s.IsBalanced := by
  induction h with
  | plain hplain => exact isBalanced_raw hplain
  | piece hplain _ ih =>
    obtain ⟨hpiece, hrest⟩ := List.forall_mem_cons.1 hpieces
    exact ((isBalanced_raw hplain).append hpiece).append (ih hrest)

/-- A layout is taken apart at one of its pieces. -/
theorem split {front back : List SqlText} (h : Laid s (front ++ piece :: back)) :
    ∃ before after, s = before ++ piece ++ after ∧ Laid before front ∧ Laid after back := by
  induction front generalizing s with
  | nil =>
    cases h with
    | piece hplain hrest => exact ⟨_, _, rfl, .plain hplain, hrest⟩
  | cons first front ih =>
    cases h with
    | piece hplain hrest =>
      obtain ⟨before, after, rfl, hbefore, hafter⟩ := ih hrest
      refine ⟨_, after, ?_, .piece hplain hbefore, hafter⟩
      simp only [append_assoc]

end Laid

theorem additive_laid : Additive Laid := ⟨.plain, .append⟩

theorem laid_anyOf (parts : List SqlText) : Laid (anyOf parts) parts := by
  have h := additive_laid.anyOf fun part (_ : part ∈ parts) => laid_self part
  simpa using h

end SqlText

/-! ## Pieces put together -/

/-- A piece of SQL as it is put together. -/
inductive SqlPiece where
  /-- A text with its cells. -/
  | written (sql : SqlText)
  /-- One of the pieces holds; without pieces there is no restriction. -/
  | anyOf (parts : List SqlPiece)
  /-- The expression is one of the texts. -/
  | isIn (expr : String) (values : List String)

namespace SqlPiece

open SqlText (IsBalanced)

mutual

/-- The piece as SQL. -/
def sql : SqlPiece → SqlText
  | written sql => sql
  | anyOf parts => .anyOf (allSql parts)
  | isIn expr values => .isIn expr values

def allSql : List SqlPiece → List SqlText
  | [] => []
  | part :: parts => part.sql :: allSql parts

end

theorem allSql_eq (parts : List SqlPiece) : allSql parts = parts.map sql := by
  induction parts with
  | nil => rfl
  | cons part parts ih => rw [allSql, ih, List.map_cons]

/-- There is one mark for each cell, in the piece and in each that it is put together of. -/
inductive Balanced : SqlPiece → Prop
  | written {s : SqlText} (h : s.IsBalanced) : Balanced (.written s)
  | anyOf {parts : List SqlPiece} (h : ∀ part ∈ parts, Balanced part) : Balanced (.anyOf parts)
  | isIn {expr : String} {values : List String} (h : (SqlText.isIn expr values).IsBalanced) :
      Balanced (.isIn expr values)

/-- The piece is put together of pieces among which is this one, behind these cells. -/
inductive Contains : SqlPiece → List Cell → SqlText → Prop
  | whole (p : SqlPiece) : Contains p [] p.sql
  | part {front back : List SqlPiece} {p : SqlPiece} {before : List Cell} {piece : SqlText}
      (h : Contains p before piece) :
      Contains (.anyOf (front ++ p :: back)) (front.flatMap (·.sql.params) ++ before) piece

variable {p : SqlPiece} {before : List Cell} {piece : SqlText}

theorem Balanced.isBalanced_sql (h : p.Balanced) : p.sql.IsBalanced := by
  induction h with
  | written h => exact h
  | isIn h => exact h
  | anyOf _ ih =>
    rw [sql, allSql_eq]
    exact (SqlText.laid_anyOf _).isBalanced (List.forall_mem_map.2 ih)

/-- A piece divides the text that it is part of. What stands before it has the cells of the pieces
before it, and as many marks. -/
theorem Contains.split (h : p.Contains before piece) (hbalanced : p.Balanced) :
    piece.IsBalanced ∧ ∃ front back : SqlText, p.sql = front ++ piece ++ back ∧
      front.params = before ∧ front.IsBalanced := by
  induction h with
  | whole p =>
    exact ⟨hbalanced.isBalanced_sql, .empty, .empty, by simp, rfl, SqlText.isBalanced_raw (by simp)⟩
  | @part fronts backs p before piece _ ih =>
    cases hbalanced with
    | anyOf hparts =>
      obtain ⟨hpiece, inner, after, hsql, rfl, hinner⟩ := ih (hparts p (by simp))
      have hlaid := SqlText.laid_anyOf (fronts.map sql ++ p.sql :: backs.map sql)
      obtain ⟨head, tail, hwhole, hhead, -⟩ := hlaid.split
      have hfronts : ∀ part ∈ fronts.map sql, part.IsBalanced :=
        List.forall_mem_map.2 fun part hpart => (hparts part (by simp [hpart])).isBalanced_sql
      have hbefore := (hhead.isBalanced hfronts).append hinner
      refine ⟨hpiece, head ++ inner, after ++ tail, ?_, ?_, hbefore⟩
      · rw [sql, allSql_eq, List.map_append, List.map_cons, hwhole, hsql]
        simp only [SqlText.append_assoc]
      · rw [SqlText.params_append, hhead.params_eq, List.flatMap_map]

end SqlPiece

/-! ## Queries put together -/

/-- A query of tables of the schema, with its names, expressions and pieces written out. -/
abbrev PieceSelect := Select TableName String String SqlPiece

namespace PieceSelect

variable (s : PieceSelect)

/-- The query with its pieces as SQL. -/
def sql : SqlSelect := s.map TableName.name id id SqlPiece.sql

/-- What is not a piece has no marks: the names under which tables are joined, the output columns
and the criteria of order. -/
structure IsPlain : Prop where
  base : '?' ∉ s.base.toList
  sources : ∀ j ∈ s.joins, '?' ∉ j.source.toList
  columns : ∀ column ∈ s.columns, '?' ∉ column.1.toList ∧ '?' ∉ column.2.toList
  order : ∀ expr ∈ s.order, '?' ∉ expr.toList

/-- Every condition has one mark for each of its cells, and so has each piece that it is put
together of. -/
structure Balanced : Prop where
  joins : ∀ j ∈ s.joins, j.condition.Balanced
  conditions : ∀ c ∈ s.conditions, c.Balanced

/-- The limit as a piece. -/
def limitPieces : List SqlPiece :=
  match s.limit with
  | some n => [.written (.raw "\nLIMIT " ++ .mark (.int (Int64.ofNat n)))]
  | none => []

/-- The pieces in the order in which they are written. -/
def pieces : List SqlPiece := s.joins.map (·.condition) ++ (s.conditions ++ s.limitPieces)

/-- The query has a piece, behind these cells. -/
def Contains (before : List Cell) (piece : SqlText) : Prop :=
  ∃ front p back inner, s.pieces = front ++ p :: back ∧ p.Contains inner piece ∧
    before = front.flatMap (·.sql.params) ++ inner

variable {s}

theorem Balanced.pieces (h : s.Balanced) : ∀ p ∈ s.pieces, p.Balanced := by
  intro p hp
  rw [PieceSelect.pieces, List.mem_append, List.mem_append, List.mem_map] at hp
  rcases hp with ⟨j, hj, rfl⟩ | hp | hp
  · exact h.joins j hj
  · exact h.conditions p hp
  · unfold limitPieces at hp
    split at hp
    · rw [List.mem_singleton.1 hp]
      exact .written (SqlText.opens_mark _ (by simp)).count_eq
    · exact nomatch hp

theorem joins_sql : s.sql.joins = s.joins.map fun j =>
    ⟨j.kind, j.table.name, j.source, j.condition.sql⟩ := by
  simp only [Select.joins, sql, Select.map, List.flatMap_map, List.map_flatMap, id]

theorem laid_joins (h : s.IsPlain) : SqlText.Laid (.concat (s.sql.joins.map SqlSelect.joinText))
    (s.joins.map (·.condition.sql)) := by
  have hjoin : ∀ j ∈ s.joins, SqlText.Laid
      (SqlSelect.joinText ⟨j.kind, j.table.name, j.source, j.condition.sql⟩) [j.condition.sql] := by
    intro j hj
    have hsource := h.sources j hj
    have htable := j.table.not_mem_name
    refine (SqlText.laid_self j.condition.sql).prepend ?_
    cases j.kind <;> simp [hsource, htable]
  have hall := SqlText.additive_laid.concat hjoin
  rw [← List.map_eq_flatMap] at hall
  rwa [joins_sql, List.map_map]

theorem laid_conditions (s : PieceSelect) :
    SqlText.Laid s.sql.conditionsText (s.conditions.map SqlPiece.sql) := by
  unfold SqlSelect.conditionsText
  split
  next hempty =>
    have hnone : s.conditions = [] := by simpa [sql, Select.map] using hempty
    rw [hnone]
    exact SqlText.additive_laid.empty
  next =>
    have hjoin : SqlText.Laid (.join " AND " (s.conditions.map SqlPiece.sql))
        (s.conditions.flatMap fun c => [c.sql]) :=
      SqlText.additive_laid.join (by decide) fun c _ => SqlText.laid_self c.sql
    rw [List.map_eq_flatMap]
    exact hjoin.prepend (by decide)

theorem laid_order (h : s.IsPlain) : SqlText.Laid s.sql.orderText [] := by
  unfold SqlSelect.orderText
  split
  · exact SqlText.additive_laid.empty
  · have horder : '?' ∉ (", ".intercalate s.sql.order).toList := by
      refine Text.not_mem_intercalate (by decide) fun expr hexpr => h.order expr ?_
      simpa [sql, Select.map] using hexpr
    refine .plain ?_
    rw [String.toList_append, List.mem_append]
    exact not_or.2 ⟨by decide, horder⟩

theorem laid_limit (s : PieceSelect) :
    SqlText.Laid s.sql.limitText (s.limitPieces.map SqlPiece.sql) := by
  have hlimit : s.sql.limit = s.limit := rfl
  unfold SqlSelect.limitText limitPieces
  rw [hlimit]
  cases s.limit with
  | none => exact SqlText.additive_laid.empty
  | some n => exact SqlText.laid_self _

/-- **A query is laid out of its pieces.** -/
theorem laid_render (h : s.IsPlain) : SqlText.Laid s.sql.render (s.pieces.map SqlPiece.sql) := by
  have hcolumns : '?' ∉ s.sql.columnsText.toList := by
    refine SqlSelect.not_mem_columnsText h.base fun column hcolumn => h.columns column ?_
    simpa [sql, Select.map] using hcolumn
  have hbase : '?' ∉ s.sql.base.toList := h.base
  have hhead : '?' ∉
      ("SELECT " ++ s.sql.columnsText ++ "\nFROM edges AS " ++ s.sql.base).toList := by
    simp [hcolumns, hbase]
  have hall := ((((laid_joins h).prepend hhead).append (laid_conditions s)).append
    (laid_order h)).append (laid_limit s)
  rw [SqlSelect.render, pieces, List.map_append, List.map_append, List.map_map]
  simpa only [List.append_nil, List.append_assoc, Function.comp_def] using hall

variable {before : List Cell} {piece : SqlText}

/-- A piece divides the query, and what stands before it has one mark for each of its cells. -/
theorem Contains.split (h : s.Contains before piece) (hplain : s.IsPlain) (hbalanced : s.Balanced) :
    piece.IsBalanced ∧ ∃ front back : SqlText, s.sql.render = front ++ piece ++ back ∧
      front.params = before ∧ front.IsBalanced := by
  obtain ⟨fronts, p, backs, inner, hpieces, hinner, rfl⟩ := h
  have hall := hbalanced.pieces
  rw [hpieces, List.forall_mem_append, List.forall_mem_cons] at hall
  obtain ⟨hfronts, hp, -⟩ := hall
  have hlaid := laid_render hplain
  rw [hpieces, List.map_append, List.map_cons] at hlaid
  obtain ⟨head, tail, hrender, hhead, -⟩ := hlaid.split
  obtain ⟨hpiece, inside, after, hsql, rfl, hinside⟩ := hinner.split hp
  have hbefore : ∀ part ∈ fronts.map SqlPiece.sql, part.IsBalanced :=
    List.forall_mem_map.2 fun part hpart => (hfronts part hpart).isBalanced_sql
  refine ⟨hpiece, head ++ inside, after ++ tail, ?_, ?_, (hhead.isBalanced hbefore).append hinside⟩
  · rw [hrender, hsql]
    simp only [SqlText.append_assoc]
  · rw [SqlText.params_append, hhead.params_eq, List.flatMap_map]

theorem exists_contains (hplain : s.IsPlain) {k : Nat} (hk : k < s.sql.render.params.length) :
    ∃ before piece, s.Contains before piece ∧ before.length ≤ k ∧
      k < before.length + piece.params.length := by
  rw [(laid_render hplain).params_eq, List.flatMap_map] at hk
  obtain ⟨front, p, back, hpieces, hfront, hp⟩ := Text.exists_split_of_lt_length_flatMap hk
  refine ⟨front.flatMap (·.sql.params), p.sql, ?_, hfront, hp⟩
  exact ⟨front, p, back, [], hpieces, .whole p, (List.append_nil _).symm⟩

/-! ## Queries as they are built -/

/-- What a query of pieces is built by. -/
abbrev Step := BuildStep TableName String String SqlPiece

/-- The step with its pieces as SQL. -/
def Step.sql (step : Step) : BuildStep String String String SqlText :=
  step.map TableName.name id id SqlPiece.sql

/-- What the step adds has no marks, its pieces apart. -/
def Step.IsPlain : Step → Prop
  | .addFragment f => ∀ j ∈ f.joins, '?' ∉ j.source.toList
  | .project name expr => '?' ∉ name.toList ∧ '?' ∉ expr.toList
  | .orderBy expr => '?' ∉ expr.toList
  | .filter _ => True
  | .setLimit _ => True

/-- The pieces that the step adds are balanced. -/
def Step.Balanced : Step → Prop
  | .addFragment f => ∀ j ∈ f.joins, j.condition.Balanced
  | .filter c => c.Balanced
  | .project _ _ => True
  | .orderBy _ => True
  | .setLimit _ => True

variable {base : String} {steps : List Step} {step : Step}

theorem forall_mem_joins_append {p : Join TableName String SqlPiece → Prop}
    {f : Fragment TableName String SqlPiece} (hs : ∀ j ∈ s.joins, p j) (hf : ∀ j ∈ f.joins, p j) :
    ∀ j ∈ Select.joins { s with fragments := s.fragments ++ [f] }, p j := by
  rw [Select.joins, List.flatMap_append, List.flatMap_singleton]
  exact List.forall_mem_append.2 ⟨hs, hf⟩

theorem IsPlain.apply (h : s.IsPlain) (hstep : Step.IsPlain step) : IsPlain (step.apply s) := by
  cases step with
  | addFragment f =>
    rw [BuildStep.apply]
    rcases s.addFragment_eq_or f with heq | heq
    · rwa [heq]
    · rw [heq]
      exact { h with sources := forall_mem_joins_append h.sources hstep }
  | project name expr =>
    exact { h with
      columns := List.forall_mem_append.2 ⟨h.columns, List.forall_mem_singleton.2 hstep⟩ }
  | orderBy expr =>
    exact { h with order := List.forall_mem_append.2 ⟨h.order, List.forall_mem_singleton.2 hstep⟩ }
  | filter c => exact { h with }
  | setLimit limit => exact { h with }

theorem Balanced.apply (h : s.Balanced) (hstep : Step.Balanced step) :
    Balanced (step.apply s) := by
  cases step with
  | addFragment f =>
    rw [BuildStep.apply]
    rcases s.addFragment_eq_or f with heq | heq
    · rwa [heq]
    · rw [heq]
      exact { h with joins := forall_mem_joins_append h.joins hstep }
  | filter c =>
    exact { h with
      conditions := List.forall_mem_append.2 ⟨h.conditions, List.forall_mem_singleton.2 hstep⟩ }
  | project name expr => exact { h with }
  | orderBy expr => exact { h with }
  | setLimit limit => exact { h with }

theorem isPlain_built (hbase : '?' ∉ base.toList) (hsteps : ∀ step ∈ steps, Step.IsPlain step) :
    IsPlain (.built base steps) :=
  List.foldlRecOn steps BuildStep.apply ⟨hbase, nofun, nofun, nofun⟩
    fun _ hs step hstep => hs.apply (hsteps step hstep)

theorem balanced_built (hsteps : ∀ step ∈ steps, Step.Balanced step) :
    Balanced (.built base steps) :=
  List.foldlRecOn steps BuildStep.apply ⟨nofun, nofun⟩
    fun _ hs step hstep => hs.apply (hsteps step hstep)

/-- **The marks of a query and its cells belong to the same pieces.** There are as many marks as
cells. Each cell comes from a piece of the query. The text divides at each piece, at whatever depth;
and for each of its cells, the mark of the cell's number in the query is the mark of the cell's
number in the piece. A query that is built in steps is built by the same steps with their pieces as
SQL, repeated fragments left out alike. -/
theorem marks_of_render (hplain : s.IsPlain) (hbalanced : s.Balanced) :
    s.sql.render.marks.length = s.sql.render.params.length ∧
    (∀ k < s.sql.render.params.length, ∃ before piece, s.Contains before piece ∧
      before.length ≤ k ∧ k < before.length + piece.params.length) ∧
    (∀ before piece, s.Contains before piece → ∃ front back : SqlText,
      s.sql.render = front ++ piece ++ back ∧ front.params = before ∧
      ∀ i < piece.params.length, ∃ place, piece.marks[i]? = some place ∧
        s.sql.render.marks[before.length + i]? = some (front.text.length + place) ∧
        s.sql.render.params[before.length + i]? = piece.params[i]?) ∧
    ∀ base steps, s = .built base steps → s.sql = .built base (steps.map Step.sql) := by
  refine ⟨?_, fun k hk => exists_contains hplain hk, ?_, ?_⟩
  · have hpieces : ∀ piece ∈ s.pieces.map SqlPiece.sql, piece.IsBalanced :=
      List.forall_mem_map.2 fun p hp => (hbalanced.pieces p hp).isBalanced_sql
    exact ((laid_render hplain).isBalanced hpieces).length_marks
  · intro before piece hcontains
    obtain ⟨hpiece, front, back, hrender, rfl, hfront⟩ := hcontains.split hplain hbalanced
    exact ⟨front, back, hrender, rfl, fun i hi => SqlText.marks_of_split hrender hfront hpiece hi⟩
  · rintro base steps rfl
    exact Select.map_built ..

def nestedSteps : List Step :=
  let join : Join TableName String SqlPiece :=
    ⟨.inner, .values .string, "s", .written ⟨"s.edge_id = p.id AND p.label = ?", [.text "P31"]⟩⟩
  let inner : SqlPiece := .anyOf [.written ⟨"p.node2 = ?", [.text "Q3"]⟩]
  [.addFragment ⟨"subject", [join]⟩, .project "node" "p.node1",
    .filter (.anyOf [.isIn "p.node1" ["Q1", "Q2"], inner]), .addFragment ⟨"subject", [join, join]⟩,
    .orderBy "p.id", .setLimit 10]

/-- A query with a join, whose owner asks for it again, with alternatives inside alternatives, and
with a limit. -/
def nested : PieceSelect := .built "p" nestedSteps

/-- The mark in the innermost alternative is the fourth of five, and binds its cell. -/
theorem marks_of_render_nested : nested.IsPlain ∧ nested.Balanced ∧
    nested.sql.render.params.length = 5 ∧ nested.sql.render.marks.length = 5 ∧
    nested.Contains [.text "P31", .text "Q1", .text "Q2"] ⟨"p.node2 = ?", [.text "Q3"]⟩ ∧
    ∃ front back : SqlText, nested.sql.render = front ++ ⟨"p.node2 = ?", [.text "Q3"]⟩ ++ back ∧
      front.params = [.text "P31", .text "Q1", .text "Q2"] ∧
      nested.sql.render.marks[3]? = some (front.text.length + 10) ∧
      nested.sql.render.params[3]? = some (.text "Q3") := by
  have hplain : nested.IsPlain := by
    refine isPlain_built (by decide) fun step hstep => ?_
    simp only [nestedSteps, List.mem_cons, List.not_mem_nil, or_false] at hstep
    rcases hstep with rfl | rfl | rfl | rfl | rfl | rfl <;> simp [Step.IsPlain]
  have hbalanced : nested.Balanced := by
    have hjoin : SqlText.IsBalanced ⟨"s.edge_id = p.id AND p.label = ?", [.text "P31"]⟩ := by decide
    have hinner : (SqlPiece.anyOf [.written ⟨"p.node2 = ?", [.text "Q3"]⟩]).Balanced :=
      .anyOf (List.forall_mem_singleton.2 (.written (by decide)))
    refine balanced_built fun step hstep => ?_
    simp only [nestedSteps, List.mem_cons, List.not_mem_nil, or_false] at hstep
    rcases hstep with rfl | rfl | rfl | rfl | rfl | rfl
    · exact List.forall_mem_singleton.2 (.written hjoin)
    · trivial
    · exact .anyOf (List.forall_mem_cons.2 ⟨.isIn (by decide), List.forall_mem_singleton.2 hinner⟩)
    · exact List.forall_mem_cons.2 ⟨.written hjoin, List.forall_mem_singleton.2 (.written hjoin)⟩
    · trivial
    · trivial
  have hcontains : nested.Contains [.text "P31", .text "Q1", .text "Q2"]
      ⟨"p.node2 = ?", [.text "Q3"]⟩ := by
    have hinner := @SqlPiece.Contains.part [] [] _ _ _
      (.whole (.written ⟨"p.node2 = ?", [.text "Q3"]⟩))
    have houter := @SqlPiece.Contains.part [.isIn "p.node1" ["Q1", "Q2"]] [] _ _ _ hinner
    exact ⟨[_], _, _, _, rfl, houter, by decide⟩
  obtain ⟨hcount, -, hpieces, -⟩ := marks_of_render hplain hbalanced
  obtain ⟨front, back, hrender, hfront, hall⟩ := hpieces _ _ hcontains
  obtain ⟨place, hplace, hmark, hcell⟩ := hall 0 (by decide)
  have hten : 10 = place := Option.some.inj (hplace ▸ by decide)
  have hparams : nested.sql.render.params.length = 5 := by decide
  exact ⟨hplain, hbalanced, hparams, hcount.trans hparams, hcontains, front, back, hrender, hfront,
    hten ▸ hmark, hcell⟩

end PieceSelect

end FactGraph
