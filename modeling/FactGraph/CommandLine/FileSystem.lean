import FactGraph.CommandLine.Place

/-!
# File systems

What the command line needs of the files of a machine: to read what is at a path, to write a file,
and to remove one. All else is written for any file system, one in memory or a real one.
-/

namespace FactGraph

/-- What is found at a path. -/
inductive FileContent where
  | file (bytes : List UInt8)
  | directory
  /-- A device, in which nothing can be kept. There is nothing to read. -/
  | device
  deriving DecidableEq, Repr

namespace FileContent

/-- The bytes of a file. -/
def bytes? : FileContent → Option (List UInt8)
  | file bytes => some bytes
  | _ => none

end FileContent

/-- What becomes of bytes that are written. -/
inductive WriteOutcome where
  | stored
  /-- They are part of what is printed. -/
  | printed
  /-- They are part of the printed errors. -/
  | printedToErrors
  /-- There is no room for them. -/
  | noRoom
  /-- There can be no file at the path. -/
  | refused
  deriving DecidableEq, Repr

/-- How files are read and written. -/
structure FileSystem (m : Type → Type) where
  /-- What is at a path, if it can be opened. -/
  read : Path → m (Option FileContent)
  /-- Gives a file these bytes. -/
  write : Path → List UInt8 → m WriteOutcome
  /-- Removes a file, if there is one. -/
  remove : Path → m Unit

end FactGraph
