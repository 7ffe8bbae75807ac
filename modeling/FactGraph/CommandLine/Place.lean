/-!
# Paths and places

A path is names with slashes between them. It leads, name by name, from the root or from the present
directory to a place: a point stands for the place itself, two points for the place above. The place
above the root is the root; places above the present directory are known by their points only.

A name is made of bytes, which need not be a text.
-/

namespace FactGraph

/-- The bytes of a path. -/
abbrev Path := List UInt8

/-- A text as a path. -/
def Path.ofText (text : String) : Path := text.toUTF8.data.toList

/-- The names that lead to a place, the last one first, from the root or from the present
directory. -/
structure Place where
  fromRoot : Bool
  names : List (List UInt8)
  deriving DecidableEq, Repr

namespace Place

/-- The most bytes of a name. -/
def maxNameLength : Nat := 255

/-- The most bytes of a path. -/
def maxPathLength : Nat := 4095

def slash : UInt8 := 0x2F

/-- The name of a place itself. -/
def point : List UInt8 := [0x2E]

/-- The name of the place above. -/
def twoPoints : List UInt8 := [0x2E, 0x2E]

/-- The place to which a name leads. -/
def enter (p : Place) (name : List UInt8) : Place :=
  if name = point then p
  else if name = twoPoints then
    match p.names with
    | [] => if p.fromRoot then p else { p with names := [twoPoints] }
    | last :: above => { p with names := if last = twoPoints then twoPoints :: p.names else above }
  else { p with names := name :: p.names }

/-- The place where a path starts. -/
def startOf (path : Path) : Place := ⟨path.head? = some slash, []⟩

/-- The names of a path. A slash at the end stands for a point behind it. -/
def namesOf (path : Path) : List (List UInt8) :=
  let names := (path.splitOn slash).filter (!·.isEmpty)
  if path.getLast? = some slash then names ++ [point] else names

/-- The place of a path on a disk where all directories are there. -/
def ofPath (path : Path) : Place := (namesOf path).foldl enter (startOf path)

/-- The shortest path to a place. -/
def path (p : Place) : Path :=
  let names := [slash].intercalate p.names.reverse
  if p.fromRoot then slash :: names
  else if p.names.isEmpty then point
  else names

/-- One place is on the way to the other. -/
def isAbove (p q : Place) : Bool :=
  p.fromRoot = q.fromRoot && p.names.isSuffixOf q.names && p.names.length < q.names.length

end Place

end FactGraph
