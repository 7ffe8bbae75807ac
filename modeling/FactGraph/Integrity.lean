import FactGraph.Store.Database

/-!
# Integrity

A database is sound if every edge has its value in the table of its kind and in no other, and
every value belongs to an edge. The report counts what is against this: edges without a value
in their table, values of an edge of another kind, values without an edge, and values of an id
beyond its first.
-/

namespace FactGraph

-- Sums are those of the core library, whatever else is in scope.
attribute [local instance (high)] Zero.ofOfNat0

/-- The number of edges, and the counts of faults. -/
structure IntegrityReport where
  edges : Nat
  faults : IntegrityCounts
  deriving DecidableEq, Repr

namespace IntegrityReport

/-- The report on no edges. -/
def empty : IntegrityReport := ⟨0, ⟨0, 0, 0, 0⟩⟩

def hasIssues (r : IntegrityReport) : Bool :=
  0 < r.faults.missing || 0 < r.faults.mismatched || 0 < r.faults.orphan ||
    0 < r.faults.duplicate

/-- Both reports in one, on the same edges. -/
def merge (a b : IntegrityReport) : IntegrityReport where
  edges := max a.edges b.edges
  faults :=
    { missing := a.faults.missing + b.faults.missing
      mismatched := a.faults.mismatched + b.faults.mismatched
      orphan := a.faults.orphan + b.faults.orphan
      duplicate := a.faults.duplicate + b.faults.duplicate }

end IntegrityReport

namespace Tables

/-- The edges of a kind that have no value in its table. -/
def missingValues (t : Tables) (kind : ValueKind) : Nat :=
  t.edges.rows.countP fun e => t.kindOf? e = some kind ∧ !(t.values kind).contains e.id

/-- The values of a kind whose edge is of another. -/
def mismatchedValues (t : Tables) (kind : ValueKind) : Nat :=
  (t.valueIds kind).countP fun id => (t.edges.find? id).any (t.kindOf? · ≠ some kind)

/-- The values of a kind without an edge. -/
def orphanValues (t : Tables) (kind : ValueKind) : Nat :=
  (t.valueIds kind).countP fun id => !t.edges.contains id

/-- The values beyond the first of each id, in all tables together. -/
def duplicateValues (t : Tables) : Nat :=
  let ids := ValueKind.all.flatMap t.valueIds
  ids.length - (sortedTexts ids).length

def sumOverKinds (count : ValueKind → Nat) : Nat := (ValueKind.all.map count).sum

/-- Edges and values against their kinds. -/
def presenceReport (t : Tables) : IntegrityReport :=
  ⟨t.edges.size, ⟨sumOverKinds t.missingValues, sumOverKinds t.mismatchedValues, 0, 0⟩⟩

/-- Values without an edge. -/
def orphanReport (t : Tables) : IntegrityReport :=
  ⟨t.edges.size, ⟨0, 0, sumOverKinds t.orphanValues, 0⟩⟩

/-- Ids with several values. -/
def duplicateReport (t : Tables) : IntegrityReport :=
  ⟨t.edges.size, ⟨0, 0, 0, t.duplicateValues⟩⟩

/-- All checks. -/
def integrityReport (t : Tables) : IntegrityReport :=
  ((IntegrityReport.empty.merge t.presenceReport).merge t.orphanReport).merge t.duplicateReport

end Tables

/-- Why a strict check fails: it could not be made, or it found faults. -/
inductive IntegrityError where
  | unchecked (cause : StoreError)
  | faulty (report : IntegrityReport)
  deriving DecidableEq, Repr

namespace IntegrityError

/-- The report that goes with the failure. -/
def report : IntegrityError → IntegrityReport
  | unchecked _ => .empty
  | faulty r => r

/-- What the failure is called, if a wording exists. -/
def message : IntegrityError → String
  | unchecked cause => "integrity check failed: " ++ cause.message
  | faulty r => "integrity violations detected: " ++ r.faults.message

/-- The failure as that of a command. -/
def toStoreError : IntegrityError → StoreError
  | unchecked _ => .query
  | faulty r => .integrity r.faults

end IntegrityError

namespace Database

/-- A check names the edges and all values. -/
def checked (db : Database) (check : Tables → IntegrityReport) :
    Except StoreError IntegrityReport := do
  db.require .edges
  ValueKind.all.forM fun kind => db.require (.values kind)
  .ok (check db.tables)

/-- All checks; faults are a failure. -/
def checkStrictly (db : Database) : Except IntegrityError IntegrityReport :=
  match db.checked Tables.integrityReport with
  | .error cause => .error (.unchecked cause)
  | .ok r => if r.hasIssues then .error (.faulty r) else .ok r

end Database

end FactGraph
