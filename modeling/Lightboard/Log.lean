import Lightboard.Text.Basic

/-!
# Records of what happened

Warnings, failures and notes are collected as entries: a level, a message and named fields. An entry of
a machine also tells which program was loaded.
-/

namespace Lightboard

/-- How much an entry matters. -/
inductive Level where
  | debug
  | info
  | warn
  | error
  deriving DecidableEq, Repr

namespace Level

def rank : Level → Nat
  | .debug => 0
  | .info => 1
  | .warn => 2
  | .error => 3

def label : Level → Text
  | .debug => "debug"
  | .info => "info"
  | .warn => "warn"
  | .error => "error"

end Level

/-- What a field of an entry holds. -/
inductive Detail where
  | text (t : Text)
  | int (n : Int)
  /-- A length of time in nanoseconds. -/
  | span (ns : Int)
  /-- Paths of a document. -/
  | paths (ps : List (List Text))
  deriving DecidableEq, Repr

/-- One record. -/
structure Entry where
  level : Level
  message : Text
  details : List (Text × Detail) := []
  deriving DecidableEq, Repr

namespace Entry

def warn (message : String) (details : List (Text × Detail)) : Entry := ⟨.warn, message, details⟩

def debug (message : String) (details : List (Text × Detail)) : Entry := ⟨.debug, message, details⟩

/-- An entry with one more field. -/
def tagged (e : Entry) (name value : Text) : Entry :=
  { e with details := e.details ++ [(name, .text value)] }

end Entry

end Lightboard
