import Lightboard.Binary.Wire

/-!
# A store of encoded programs

Entries are bytes, kept under their hash. Whatever can be written to bytes can be put in; what comes
out is decoded again, and each decoding makes a copy of its own.
-/

namespace Lightboard.Store

/-- Why the store has no answer. -/
inductive Error where
  | notFound (h : UInt64)
  /-- The entry is no program. -/
  | undecodable (h : UInt64) (e : StoredError)
  /-- The reader of the entry failed, in its own words. -/
  | unread (h : UInt64) (why : Text)
  /-- There is no program to put in. -/
  | noProgram
  /-- The item to put in failed, in its own words. -/
  | unwritten (why : Text)
  deriving DecidableEq, Repr

/-- An error in words. -/
def Error.wording (w : Wording) : Error → Text
  | .notFound h => Text.concat ["hash not found in CAS: ", Hash64.digits h]
  | .undecodable h e =>
    if e.isBreakdown then e.wording w
    else Text.concat ["deserializing ", Hash64.digits h, ": ", e.wording w]
  | .unread h why => Text.concat ["deserializing ", Hash64.digits h, ": ", why]
  | .noProgram => "nil program"
  | .unwritten why => why

def Error.message (e : Error) : Text := e.wording .plain

/-- What can be put into the store. -/
inductive Item where
  | program (p : Program)
  | noProgram
  | raw (bytes : Text)
  /-- An item that cannot be written. -/
  | broken (why : Text)

/-- The bytes of an item. -/
def Item.bytes : Item → Except Error Text
  | .program p => .ok p.encode
  | .noProgram => .error .noProgram
  | .raw t => .ok t
  | .broken why => .error (.unwritten why)

/-- A program in memory. Two copies are the same object just if their serial numbers agree. -/
structure Copy where
  program : Program
  serial : Nat

/-- Entries under their hashes. -/
structure Memory where
  entries : Table UInt64 Text := {}

namespace Memory

def get? (m : Memory) (h : UInt64) : Option Text := m.entries.get? h

def has (m : Memory) (h : UInt64) : Bool := m.entries.contains h

def size (m : Memory) : Nat := m.entries.size

/-- Keeps bytes under their hash. -/
def insert (m : Memory) (t : Text) : Memory := ⟨m.entries.insert (Hash64.hash t) t⟩

/-- Puts an item in, and gives its hash. An item that cannot be written changes nothing. -/
def put (m : Memory) (item : Item) : Except Error UInt64 × Memory :=
  match item.bytes with
  | .error e => (.error e, m)
  | .ok t => (.ok (Hash64.hash t), m.insert t)

/-- The bytes under a hash. -/
def bytes (m : Memory) (h : UInt64) : Except Error Text :=
  match m.get? h with
  | some t => .ok t
  | none => .error (.notFound h)

end Memory

/-- What makes something of the bytes of an entry, or fails in its own words. -/
abbrev Reader := Text → Except Text Text

/-- Reads the bytes of an entry. -/
def readEntry (h : UInt64) (t : Text) (reader : Reader) : Except Error Text :=
  match reader t with
  | .ok made => .ok made
  | .error why => .error (.unread h why)

/-- Decodes an entry. -/
def decodeEntry (h : UInt64) (t : Text) : Except Error Program :=
  match Program.decode .memory t with
  | .ok p => .ok p
  | .error e => .error (.undecodable h e)

namespace Memory

/-- What a reader makes of the bytes under a hash. -/
def retrieve (m : Memory) (h : UInt64) (reader : Reader) : Except Error Text :=
  match m.bytes h with
  | .ok t => readEntry h t reader
  | .error e => .error e

/-- The program under a hash, as a new copy with the given serial number. -/
def program (m : Memory) (h : UInt64) (serial : Nat) : Except Error Copy :=
  match m.bytes h with
  | .ok t => (decodeEntry h t).map (⟨·, serial⟩)
  | .error e => .error e

end Memory

end Lightboard.Store
