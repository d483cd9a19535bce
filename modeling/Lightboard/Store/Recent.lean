import Lightboard.Store.Memory

/-!
# Recently used entries

A view of a store that remembers the entries it was asked for last, and the programs decoded from
them. When there are too many, the one that was not asked for the longest goes.

Which entry goes is read off a list of hashes, and which entries are there off a table. The two are
changed together, so that they always name the same entries.
-/

namespace Lightboard.Store

/-- An entry that is remembered, with the program once it was decoded. -/
structure Remembered where
  bytes : Text
  copy : Option Copy := none

/-- The entries asked for last. -/
structure Recent where
  capacity : Nat
  /-- The hashes of the entries, the one asked for last first. -/
  order : List UInt64 := []
  /-- The entries by their hashes. -/
  entries : Table UInt64 Remembered := {}
  hits : Nat := 0
  misses : Nat := 0

namespace Recent

/-- A view that remembers so many entries; a number that is not positive selects a thousand. -/
def create (capacity : Int) : Recent := { capacity := if capacity ≤ 0 then 1000 else capacity.toNat }

/-- The number of entries that are remembered. -/
def size (c : Recent) : Nat := c.entries.size

/-- Puts an item into the store behind. -/
def put (_ : Recent) (m : Memory) (item : Item) : Except Error UInt64 × Memory := m.put item

/-- Whether the store behind has an entry. -/
def has (_ : Recent) (m : Memory) (h : UInt64) : Bool := m.has h

/-- Puts a hash that is remembered first. -/
def touch (c : Recent) (h : UInt64) : Recent := { c with order := h :: c.order.erase h }

/-- Forgets the entry that was not asked for the longest. -/
def evict (c : Recent) : Recent :=
  match c.order.getLast? with
  | none => c
  | some h => { c with order := c.order.dropLast, entries := c.entries.erase h }

/-- Remembers a new entry, and forgets another one if there is no room. -/
def add (c : Recent) (h : UInt64) (t : Text) : Recent :=
  let c := { c with order := h :: c.order, entries := c.entries.insert h { bytes := t } }
  if c.capacity < c.order.length then c.evict else c

/-- Asks for an entry. One that is remembered comes first from now on, and one that is not is taken
from the store. -/
def lookup (c : Recent) (m : Memory) (h : UInt64) : Option Remembered × Recent :=
  match c.entries.get? h with
  | some e => (some e, { c with hits := c.hits + 1 }.touch h)
  | none =>
    let c := { c with misses := c.misses + 1 }
    match m.get? h with
    | none => (none, c)
    | some t => (some { bytes := t }, c.add h t)

/-- What a reader makes of the bytes under a hash. -/
def retrieve (c : Recent) (m : Memory) (h : UInt64) (reader : Reader) :
    Except Error Text × Recent :=
  match c.lookup m h with
  | (some e, c) => (readEntry h e.bytes reader, c)
  | (none, c) => (.error (.notFound h), c)

/-- Remembers the copy of an entry that is remembered. -/
def keep (c : Recent) (h : UInt64) (copy : Copy) : Recent :=
  match c.entries.get? h with
  | some e => { c with entries := c.entries.insert h { e with copy := some copy } }
  | none => c

/-- The program under a hash. It is decoded when it is first asked for, as a copy with the given serial
number, and while the entry is remembered that copy is given again. -/
def program (c : Recent) (m : Memory) (h : UInt64) (serial : Nat) : Except Error Copy × Recent :=
  match c.lookup m h with
  | (none, c) => (.error (.notFound h), c)
  | (some e, c) =>
    match e.copy with
    | some copy => (.ok copy, c)
    | none =>
      match decodeEntry h e.bytes with
      | .error err => (.error err, c)
      | .ok p => (.ok ⟨p, serial⟩, c.keep h ⟨p, serial⟩)

end Recent

end Lightboard.Store
