import FactGraph.Query.Sql

/-!
# Queries

A query starts from one table and joins others to it, each under a name of its own. Joins come
in fragments; a fragment belongs to an owner, and the second fragment of an owner is left out,
so that every part of a query can ask for the joins it needs.

Tables (`τ`), names (`α`), expressions (`ε`) and conditions (`χ`) are parameters: a query of
typed terms can be evaluated, and a query of texts is written as SQL.
-/

namespace FactGraph

/-- A row without partner is dropped by an inner join and kept by a left join. -/
inductive JoinKind where
  | inner
  | left
  deriving DecidableEq, Repr

/-- A table joined under a name. -/
structure Join (τ α χ : Type) where
  kind : JoinKind
  table : τ
  source : α
  condition : χ
  deriving DecidableEq, Repr

/-- The joins of one owner. -/
structure Fragment (τ α χ : Type) where
  owner : String
  joins : List (Join τ α χ)
  deriving DecidableEq, Repr

/-- A query. -/
structure Select (τ α ε χ : Type) where
  base : α
  fragments : List (Fragment τ α χ)
  columns : List (String × ε)
  conditions : List χ
  order : List ε
  limit : Option Nat
  deriving DecidableEq, Repr

namespace Select

variable {τ α ε χ : Type}

/-- The query for all rows of the first table. -/
def ofBase (base : α) : Select τ α ε χ := ⟨base, [], [], [], [], none⟩

def owners (s : Select τ α ε χ) : List String := s.fragments.map (·.owner)

def hasFragment (s : Select τ α ε χ) (owner : String) : Bool := owner ∈ s.owners

/-- Adds the fragment unless its owner has one. -/
def addFragment (s : Select τ α ε χ) (fragment : Fragment τ α χ) : Select τ α ε χ :=
  if s.hasFragment fragment.owner then s
  else { s with fragments := s.fragments ++ [fragment] }

/-- Adds an output column. -/
def project (s : Select τ α ε χ) (name : String) (expr : ε) : Select τ α ε χ :=
  { s with columns := s.columns ++ [(name, expr)] }

/-- Adds a condition that rows have to meet. -/
def filter (s : Select τ α ε χ) (condition : χ) : Select τ α ε χ :=
  { s with conditions := s.conditions ++ [condition] }

/-- Adds a criterion of order after those that there are. -/
def orderBy (s : Select τ α ε χ) (expr : ε) : Select τ α ε χ :=
  { s with order := s.order ++ [expr] }

/-- Limits the number of rows; zero and less lift the limit. -/
def setLimit (s : Select τ α ε χ) (limit : Int64) : Select τ α ε χ :=
  { s with limit := if 0 < limit.toInt then some limit.toInt.toNat else none }

def columnNames (s : Select τ α ε χ) : List String := s.columns.map (·.1)

/-- All joins in the order in which they are made. -/
def joins (s : Select τ α ε χ) : List (Join τ α χ) := s.fragments.flatMap (·.joins)

/-- The same query in other terms. -/
def map {τ' α' ε' χ' : Type} (table : τ → τ') (source : α → α') (expr : ε → ε')
    (condition : χ → χ') (s : Select τ α ε χ) : Select τ' α' ε' χ' where
  base := source s.base
  fragments := s.fragments.map fun f =>
    ⟨f.owner, f.joins.map fun j =>
      ⟨j.kind, table j.table, source j.source, condition j.condition⟩⟩
  columns := s.columns.map fun (name, e) => (name, expr e)
  conditions := s.conditions.map condition
  order := s.order.map expr
  limit := s.limit

end Select

/-! ## Queries of texts -/

/-- A query whose parts are SQL. -/
abbrev SqlSelect := Select String String String SqlText

namespace SqlSelect

def joinText (j : Join String String SqlText) : SqlText :=
  let keyword := match j.kind with
    | .inner => "JOIN"
    | .left => "LEFT JOIN"
  .raw ("\n" ++ keyword ++ " " ++ j.table ++ " AS " ++ j.source ++ " ON ") ++ j.condition

def columnText (column : String × String) : String := column.2 ++ " AS " ++ quoteName column.1

/-- The output columns; a query without any gives the id of its base. -/
def columnsText (s : SqlSelect) : String :=
  if s.columns.isEmpty then s.base ++ ".id" else ", ".intercalate (s.columns.map columnText)

def conditionsText (s : SqlSelect) : SqlText :=
  if s.conditions.isEmpty then .empty else .raw "\nWHERE " ++ .join " AND " s.conditions

def orderText (s : SqlSelect) : SqlText :=
  if s.order.isEmpty then .empty else .raw ("\nORDER BY " ++ ", ".intercalate s.order)

def limitText (s : SqlSelect) : SqlText :=
  match s.limit with
  | some n => .raw "\nLIMIT " ++ .mark (.int (Int64.ofNat n))
  | none => .empty

/-- The query as one statement, with its cells in the order of their marks. -/
def render (s : SqlSelect) : SqlText :=
  .raw ("SELECT " ++ s.columnsText ++ "\nFROM edges AS " ++ s.base)
    ++ .concat (s.joins.map joinText) ++ s.conditionsText ++ s.orderText ++ s.limitText

end SqlSelect

end FactGraph
