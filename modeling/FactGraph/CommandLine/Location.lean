import FactGraph.CommandLine.Place
import FactGraph.Literal.Numeral
import FactGraph.Store.Engine

/-!
# Locations of databases

The name of a database tells where it is kept and how it is opened. The empty name and `:memory:`
stand for a database that is not kept. A name that starts with `file:` is an address: a host that
has to be this one, a path in which bytes can be written in hexadecimal, options after a question
mark, and a remark after a number sign. Any other name is a path.

The path of a database is cleaned of points before it is used, so directories that it leaves again
need not exist.
-/

namespace FactGraph

/-- How a database is opened. -/
inductive Access where
  | readOnly
  | readWrite
  /-- A file that is missing is created. -/
  | create
  deriving DecidableEq, Repr

/-- How the file of a database is shared with other programs. -/
inductive Sharing where
  /-- It does not change as long as it is open. -/
  | fixed
  /-- It is locked where needed; changes go to a log, which has an index. -/
  | shared
  /-- No other program can use it; changes go to a log. -/
  | exclusive
  /-- It is not locked, so changes go to the file. -/
  | unlocked
  /-- Another file says that it is in use. Changes go to the file, and while it is in use no journal
  is looked at. -/
  | marked
  deriving DecidableEq, Repr

/-- Changes can go to a log. -/
def Sharing.allowsLog : Sharing → Bool
  | shared | exclusive => true
  | fixed | unlocked | marked => false

/-- A file in which a database is kept. -/
structure KeptPlace where
  place : Place
  sharing : Sharing
  /-- The index of the log cannot be written. -/
  hasFixedIndex : Bool
  /-- A file that has to be there, because the new file is made like it. -/
  model? : Option Path
  deriving DecidableEq, Repr

namespace KeptPlace

/-- The most bytes of the name of a database: there has to be room for the names of the files that
go with it. -/
def maxNameLength : Nat := Place.maxNameLength - "-journal".utf8ByteSize

/-- There is room for the names of the files that go with the database. -/
def hasRoom (k : KeptPlace) : Bool := k.place.names.head?.all (·.length ≤ maxNameLength)

end KeptPlace

/-- Where a database is kept and how it is opened. -/
structure Location where
  access : Access
  /-- The file, if the database is kept. -/
  kept? : Option KeptPlace
  deriving DecidableEq, Repr

/-! ## Addresses -/

/-- The parts of an address, in bytes. -/
structure Address where
  path : Path
  options : List (List UInt8 × List UInt8)
  deriving DecidableEq, Repr

namespace Address

/-- The bytes of a part in which a percent sign and two digits stand for a byte. The byte zero
ends the part. -/
def decode : List Char → List UInt8
  | [] => []
  | '%' :: a :: b :: rest =>
    match digitValue? 16 a, digitValue? 16 b with
    | some high, some low =>
      if high = 0 ∧ low = 0 then [] else UInt8.ofNat (16 * high + low) :: decode rest
    | _, _ => 0x25 :: decode (a :: b :: rest)
  | c :: rest => c.toString.toUTF8.data.toList ++ decode rest

/-- A text up to a mark, and what follows the mark. -/
def split (mark : Char) (cs : List Char) : List Char × List Char :=
  (cs.takeWhile (· ≠ mark), (cs.dropWhile (· ≠ mark)).tail)

/-- Options have a name and perhaps a value. -/
def optionsOf (cs : List Char) : List (List UInt8 × List UInt8) :=
  ((cs.splitOn '&').map fun option =>
    let (name, value) := split '=' option
    (decode name, decode value)).filter (!·.1.isEmpty)

/-- What follows the host, which has to be this one. -/
def skipHost : List Char → Option (List Char)
  | '/' :: '/' :: rest =>
    let host := rest.takeWhile (· ≠ '/')
    if host.isEmpty ∨ host = "localhost".toList then some (rest.dropWhile (· ≠ '/')) else none
  | cs => some cs

/-- Reads an address after `file:`. -/
def read? (cs : List Char) : Option Address := do
  let (path, options) := split '?' ((← skipHost cs).takeWhile (· ≠ '#'))
  some ⟨decode path, optionsOf options⟩

/-- Bytes as a text. What asks for something is ASCII, so other bytes are all the same. -/
def text (bytes : List UInt8) : String :=
  String.ofList (bytes.map fun b => Char.ofNat (if b < 0x80 then b.toNat else 0xFFFD))

/-- The value of the first option of a name. -/
def value? (a : Address) (name : String) : Option (List UInt8) :=
  (a.options.find? fun (bytes, _) => text bytes = name).map (·.2)

/-- The first option of a name says yes. -/
def asksFor (a : Address) (name : String) : Bool :=
  (a.value? name).any fun bytes => Setting.isYes (text bytes)

/-- What the options ask for: how the file is opened, the most that a further option can ask for,
whether the database is kept, and how files are reached. -/
structure Opening where
  access : Access
  limit : Nat
  isKept : Bool
  reach : String
  deriving DecidableEq, Repr

namespace Opening

/-- A file is created if it is missing. -/
def standard : Opening := ⟨.create, 6, true, "unix"⟩

/-- The ways to reach files. -/
def reaches : List String := ["unix", "unix-none", "unix-dotfile", "unix-excl", "memdb"]

/-- Asks for an access of a weight. -/
def ask (o : Opening) (access : Access) (weight : Nat) : Option Opening :=
  if weight ≤ o.limit then some { o with access := access, limit := weight, isKept := true }
  else none

/-- One more option. -/
def set (o : Opening) (name value : String) : Option Opening :=
  match name, value with
  | "mode", "ro" => o.ask .readOnly 1
  | "mode", "rw" => o.ask .readWrite 2
  | "mode", "rwc" => o.ask .create 6
  | "mode", "memory" => some { o with access := .create, limit := 128, isKept := false }
  | "mode", _ => none
  | "cache", _ => if value = "shared" ∨ value = "private" then some o else none
  | "vfs", _ => some { o with reach := value }
  | _, _ => some o

end Opening

/-- What the options of an address ask for. -/
def opening? (a : Address) : Option Opening :=
  a.options.foldlM (fun o (name, value) => o.set (text name) (text value)) .standard

/-- How the file of an address is shared. -/
def sharing (a : Address) (reach : String) : Sharing :=
  if a.asksFor "immutable" then .fixed
  else if a.asksFor "nolock" then .unlocked
  else match reach with
  | "unix" => .shared
  | "unix-excl" => .exclusive
  | "unix-dotfile" => .marked
  | _ => .unlocked

end Address

/-! ## Names -/

namespace Location

/-- A database that is not kept. -/
def unkept (access : Access) : Location := ⟨access, none⟩

/-- The path stands for a database that is not kept. -/
def isUnkept (path : Path) : Bool := path.isEmpty || path = Path.ofText ":memory:"

/-- The place of a database, if its names are not too long. -/
def placeOf? (path : Path) : Option Place :=
  if (Place.namesOf path).all (·.length ≤ Place.maxNameLength) then some (Place.ofPath path)
  else none

/-- The database at a path. -/
def ofPath? (path : Path) : Option Location :=
  if isUnkept path then some (unkept .create)
  else (placeOf? path).map fun place => ⟨.create, some ⟨place, .shared, false, none⟩⟩

/-- The database at an address. One that is not kept can still have a name, and then be fixed. -/
def ofAddress? (a : Address) : Option Location := do
  let o ← a.opening?
  if o.reach ∉ Address.Opening.reaches then none
  else if !o.isKept || isUnkept a.path then some (unkept o.access)
  else if o.reach = "memdb" then
    some (unkept (if a.asksFor "immutable" then .readOnly else o.access))
  else
    let place ← placeOf? a.path
    some ⟨o.access, some ⟨place, a.sharing o.reach, a.asksFor "readonly_shm", a.value? "modeof"⟩⟩

/-- The location that a name stands for. -/
def ofName? (name : String) : Option Location :=
  match name.toList with
  | 'f' :: 'i' :: 'l' :: 'e' :: ':' :: rest => (Address.read? rest).bind ofAddress?
  | _ => ofPath? (Path.ofText name)

end Location

end FactGraph
