import Lightboard.Assembly.Source
import Lightboard.Binary.Wire
import Lightboard.PathName

/-!
# Loading programs

A program comes as assembly text or in its stored form; the name of a file tells which. Loading gives
the program or the reason why there is none, and the warnings met on the way.
-/

namespace Lightboard

/-- Why a program could not be loaded. -/
inductive LoadError where
  /-- The text is no document of the right shape. -/
  | malformed (name : Text)
  /-- The text could not be read to its end. -/
  | unreadable (name why : Text)
  | instruction (program : Text) (index : Nat) (e : Assembly.InstructionError)
  | stored (name : Text) (e : StoredError)

def LoadError.message : LoadError → Text
  | .malformed name => Text.concat ["Parsing ", name, ": toml"]
  | .unreadable name why => Text.concat ["Parsing ", name, ": ", why]
  | .instruction program index e =>
    Text.concat [program, ": instruction ", Text.ofNat index, ": ", e.message]
  | .stored name e => if e.isBreakdown then e.message else Text.concat [name, ": ", e.message]

/-- Whether an error breaks a command off at once. -/
def LoadError.isBreakdown : LoadError → Bool
  | .stored _ e => e.isBreakdown
  | _ => false

/-- What is read from: some bytes, and then the end or a failure. -/
structure Stream where
  bytes : Text
  failure : Option Text := none
  medium : Pack.Medium := .memory

/-- The outcome of loading, with the entries written on the way. -/
structure Loaded where
  result : Except LoadError Program
  log : List Entry := []

/-- The two forms of a program. -/
inductive Form where
  | assembly
  | stored
  deriving DecidableEq, Repr

namespace Form

/-- The form of a file by its extension. -/
def ofPath (path : Text) : Form :=
  if (PathName.extension path).foldsTo ".lbc" then .stored else .assembly

end Form

namespace Assembly

/-- The warnings about calls of a program to routines that it does not have. -/
def callWarnings (p : Program) : List Entry :=
  (undefinedCalls p).map fun (pc, routine) =>
    Entry.warn "Call to undefined routine"
      [("program", .text p.name), ("pc", .int pc), ("routine", .text routine)]

/-- Loads a source. The name is used for messages, and for a program that gives itself none. -/
def loadSource (name : Text) (src : Source) : Loaded :=
  let warnings :=
    if src.unknown.isEmpty then []
    else [Entry.warn "Ignoring unknown keys" [("file", .text name), ("keys", .paths src.unknown)]]
  let own := if src.name.isEmpty then name else src.name
  match readCode Table.empty 0 src.code with
  | .error (index, e) => ⟨.error (.instruction own index e), warnings⟩
  | .ok (code, routines) =>
    let p : Program := { name := own, code := code, routines := routines }
    ⟨.ok p, warnings ++ callWarnings p⟩

/-- Loads assembly text. -/
def load (name : Text) (s : Stream) : Loaded :=
  match s.failure with
  | some why => ⟨.error (.unreadable name why), []⟩
  | none =>
    match Source.read? s.bytes with
    | some src => loadSource name src
    | none => ⟨.error (.malformed name), []⟩

end Assembly

/-- Loads the stored form. Only as much is read as the program takes. -/
def loadStored (name : Text) (s : Stream) : Loaded :=
  match Program.decode s.medium s.bytes with
  | .error e => ⟨.error (.stored name e), []⟩
  | .ok p => ⟨.ok (if p.name.isEmpty then { p with name := name } else p), []⟩

/-- Loads a program in either form. -/
def Form.load (f : Form) (name : Text) (s : Stream) : Loaded :=
  match f with
  | .assembly => Assembly.load name s
  | .stored => loadStored name s

/-- Loads the contents of a file, which give the program its name if it has none of its own. -/
def loadFile (path : Text) (bytes : Text) : Loaded :=
  (Form.ofPath path).load (PathName.stem path) { bytes := bytes, medium := .file }

end Lightboard
