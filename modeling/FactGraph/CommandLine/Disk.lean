import FactGraph.CommandLine.FileSystem

/-!
# Disks in memory

A disk holds files by place. A directory exists if a file lies in it; the present directory, those
above it and the common directories of a machine always exist, and so do the common devices. A file
can be written only into a directory that exists.
-/

namespace FactGraph

/-- A file with its place. -/
structure DiskFile where
  place : Place
  bytes : List UInt8
  deriving DecidableEq, Repr

abbrev Disk := List DiskFile

/-- The common devices. -/
inductive Device where
  /-- Takes everything. -/
  | sink
  /-- Takes nothing. -/
  | full
  | input
  | output
  | errors
  /-- Cannot be opened. -/
  | closed
  deriving DecidableEq, Repr

namespace Device

/-- The devices with their paths. -/
def paths : List (Device × List String) :=
  [(sink, ["/dev/null", "/dev/zero", "/dev/random", "/dev/urandom"]),
   (full, ["/dev/full"]),
   (input, ["/dev/stdin", "/dev/fd/0", "/proc/self/fd/0"]),
   (output, ["/dev/stdout", "/dev/fd/1", "/proc/self/fd/1"]),
   (errors, ["/dev/stderr", "/dev/fd/2", "/proc/self/fd/2"]),
   (closed, ["/dev/tty"])]

/-- The device at a place. -/
def at? (p : Place) : Option Device :=
  paths.findSome? fun (device, paths) =>
    if p ∈ paths.map fun path => Place.ofPath (Path.ofText path) then some device else none

/-- What the device shows to a reader. -/
def content? : Device → Option FileContent
  | sink | full | input => some .device
  | output | errors | closed => none

/-- What becomes of bytes that are written to the device. -/
def taken : Device → WriteOutcome
  | sink => .stored
  | full => .noRoom
  | input | closed => .refused
  | output => .printed
  | errors => .printedToErrors

end Device

namespace Disk

/-- A disk with these files, each with its path. -/
def ofFiles (files : List (String × List UInt8)) : Disk :=
  files.map fun (path, bytes) => ⟨Place.ofPath (Path.ofText path), bytes⟩

/-- The directories that every machine has. -/
def commonDirectories : List String :=
  ["/bin", "/boot", "/dev", "/dev/fd", "/dev/pts", "/dev/shm", "/etc", "/home", "/lib", "/media",
   "/mnt", "/opt", "/proc", "/proc/self", "/proc/self/fd", "/root", "/run", "/sbin", "/srv", "/sys",
   "/tmp", "/usr", "/usr/bin", "/usr/lib", "/usr/local", "/usr/local/bin", "/usr/sbin",
   "/usr/share", "/var", "/var/lib", "/var/log", "/var/tmp"]

/-- The directories in which no file can be written. -/
def closedDirectories : List String := ["/dev/fd", "/dev/pts", "/proc", "/sys"]

def placeOf (path : String) : Place := Place.ofPath (Path.ofText path)

def isDirectory (d : Disk) (p : Place) : Bool :=
  p.names.isEmpty || p.names.head? = some Place.twoPoints ||
    (p.fromRoot && p ∈ commonDirectories.map placeOf) || d.any fun file => p.isAbove file.place

/-- The place to which names lead, if each leads out of a directory. -/
def walk (d : Disk) (p : Place) : List (List UInt8) → Option Place
  | [] => some p
  | name :: names =>
    if d.isDirectory p && name.length ≤ Place.maxNameLength then d.walk (p.enter name) names
    else none

/-- The place of a path. -/
def locate? (d : Disk) (path : Path) : Option Place :=
  if path.isEmpty || Place.maxPathLength < path.length then none
  else d.walk (Place.startOf path) (Place.namesOf path)

/-- What is found at a path. -/
def read (d : Disk) (path : Path) : Option FileContent := do
  let p ← d.locate? path
  match Device.at? p with
  | some device => device.content?
  | none =>
    match d.find? fun file => file.place = p with
    | some file => some (.file file.bytes)
    | none => if d.isDirectory p then some .directory else none

/-- Writes bytes to a path, if a file can be there. -/
def write (d : Disk) (path : Path) (bytes : List UInt8) : WriteOutcome × Disk :=
  match d.locate? path with
  | none => (.refused, d)
  | some p =>
    match Device.at? p with
    | some device => (device.taken, d)
    | none =>
      if d.isDirectory p || closedDirectories.any fun path => (placeOf path).isAbove p then
        (.refused, d)
      else (.stored, ⟨p, bytes⟩ :: d.filter (·.place ≠ p))

/-- The disk without the file at a path. -/
def remove (d : Disk) (path : Path) : Disk :=
  match d.locate? path with
  | some p => d.filter (·.place ≠ p)
  | none => d

/-- Files on a disk in memory. -/
def files : FileSystem (StateM Disk) where
  read path := do return (← get).read path
  write path bytes := modifyGet fun d => d.write path bytes
  remove path := modify fun d => d.remove path

end Disk

end FactGraph
