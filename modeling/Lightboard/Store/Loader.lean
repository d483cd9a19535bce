import Lightboard.Assembly.Loader
import Lightboard.Store.Recent

/-!
# Loading through a store

A caching loader stands in front of another loader. A source that was loaded before is not read again:
the program it gave was put into the store, and comes back from there. Sources are told apart by the
hash of their bytes, so a program keeps the name it had when its bytes were first loaded.
-/

namespace Lightboard.Store

/-- A loader with errors of its own kind: the program of a source under a name, and what it logs. -/
abbrev SourceLoader (ε : Type) := Text → Stream → Except ε Program × List Entry

/-- The loader of programs in one form. -/
def SourceLoader.ofForm (form : Form) : SourceLoader LoadError := fun name s =>
  let loaded := form.load name s
  (loaded.result, loaded.log)

/-- Why a source gives no program. -/
inductive SourceError (ε : Type) where
  /-- The bytes could not be read to their end. -/
  | unread (name why : Text)
  | load (e : ε)
  /-- The program could not be put into the store. -/
  | unstored (name : Text) (e : Error)

def SourceError.message : SourceError LoadError → Text
  | .unread name why => Text.concat ["reading ", name, ": ", why]
  | .load e => e.message
  | .unstored name e => Text.concat ["storing ", name, ": ", e.message]

/-- Whether an error breaks a command off at once. -/
def SourceError.isBreakdown : SourceError LoadError → Bool
  | .load e => e.isBreakdown
  | _ => false

/-- A loader in front of a store. -/
structure CachingLoader (ε : Type) where
  /-- The loader behind, which reads the sources that were not loaded before. -/
  next : SourceLoader ε
  recent : Recent
  /-- The hash of the program that the bytes of a hash gave. -/
  sources : Table UInt64 UInt64 := {}

/-- What a load leaves. -/
structure CachedLoad (ε : Type) where
  result : Except (SourceError ε) Copy
  loader : CachingLoader ε
  memory : Memory
  log : List Entry := []
  /-- What the loader behind answered, if it was asked. -/
  asked : Option (Except ε Program) := none

namespace CachingLoader

variable {ε : Type}

/-- A caching loader for another one. -/
def wrapping (next : SourceLoader ε) (capacity : Int) : CachingLoader ε :=
  { next := next, recent := Recent.create capacity }

/-- A caching loader for programs in one form. -/
def create (form : Form) (capacity : Int) : CachingLoader LoadError := wrapping (.ofForm form) capacity

/-- Reads a source by the loader behind and puts the program into the store. A failure changes
nothing. -/
def loadNew (l : CachingLoader ε) (m : Memory) (name : Text) (t : Text) (serial : Nat)
    (earlier : List Entry) : CachedLoad ε :=
  match l.next name { bytes := t } with
  | (.error e, log) =>
    { result := .error (.load e), loader := l, memory := m, log := earlier ++ log
      asked := some (.error e) }
  | (.ok p, log) =>
    match l.recent.put m (.program p) with
    | (.error e, m) =>
      { result := .error (.unstored name e), loader := l, memory := m, log := earlier ++ log
        asked := some (.ok p) }
    | (.ok h, m) =>
      { result := .ok ⟨p, serial⟩
        loader := { l with sources := l.sources.insert (Hash64.hash t) h }
        memory := m
        log := earlier ++ log ++
          [Entry.debug "Program cached" [("source", .text name), ("hash", .text (Hash64.digits h))]]
        asked := some (.ok p) }

/-- Loads a source, from the store if it is there. -/
def load (l : CachingLoader ε) (m : Memory) (name : Text) (s : Stream) (serial : Nat) :
    CachedLoad ε :=
  match s.failure with
  | some why => { result := .error (.unread name why), loader := l, memory := m }
  | none =>
    match l.sources.get? (Hash64.hash s.bytes) with
    | none => l.loadNew m name s.bytes serial []
    | some h =>
      match l.recent.program m h serial with
      | (.ok copy, recent) =>
        { result := .ok copy
          loader := { l with recent := recent }
          memory := m
          log := [Entry.debug "Program cache hit"
            [("source", .text name), ("hash", .text (Hash64.digits h))]] }
      | (.error e, recent) =>
        { l with recent := recent }.loadNew m name s.bytes serial
          [Entry.warn "Cached program unavailable, reloading"
            [("error", .text e.message), ("source", .text name)]]

end CachingLoader

end Lightboard.Store
