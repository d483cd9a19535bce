import Lightboard.Code.Value
import Lightboard.Format.Directive
import Lightboard.Log
import Lightboard.Number.Read

/-!
# Templates

A template is text with fields in braces. An empty field takes the next buffered value, a number the
value at that place, and any other name the register or variable of that name; a colon may follow
with the way the value is to be rendered. Braces that stand for themselves are written twice.

A template is first cut into pieces, and each piece is then rendered by itself.
-/

namespace Lightboard.Format

/-- A piece of a template. -/
inductive Piece where
  | byte (b : UInt8)
  /-- What stands between a pair of braces. -/
  | field (inside : Text)
  deriving DecidableEq, Repr

def openBrace : UInt8 := 0x7b

def closeBrace : UInt8 := 0x7d

/-- Cuts a template, after passing over `skip` bytes that belong to a piece already cut. An opening
brace without a closing one leaves the rest of the text as it is. -/
def piecesFrom (skip : Nat) : Text → List Piece
  | [] => []
  | b :: t =>
    match skip with
    | k + 1 => piecesFrom k t
    | 0 =>
      if b = closeBrace then
        .byte b :: piecesFrom (if t.head? = some closeBrace then 1 else 0) t
      else if b = openBrace then
        if t.head? = some openBrace then .byte b :: piecesFrom 1 t
        else if t.contains closeBrace then
          let inside := t.takeWhile (· != closeBrace)
          .field inside :: piecesFrom (inside.length + 1) t
        else (b :: t).map .byte
      else .byte b :: piecesFrom 0 t

/-- The pieces of a template. -/
def pieces (t : Text) : List Piece := piecesFrom 0 t

/-- A value as it is printed without further instructions. -/
def plainText (v : Value) : Text := v.text

/-- The last bytes of an instruction for rendering that are verbs of their own. -/
def isVerb (b : UInt8) : Bool := ("bdoxXeEfFgGs" : Text).contains b

def isIntegerVerb (b : UInt8) : Bool := ("bdoxX" : Text).contains b

def isFloatVerb (b : UInt8) : Bool := ("eEfFgG" : Text).contains b

/-- A value by an instruction for rendering. Numbers take the verbs for numbers, integers after
rounding; everything else is rendered as text. -/
def renderValue (v : Value) (spec : Text) : Text :=
  match spec.getLast? with
  | none => plainText v
  | some verb =>
    let percent := ascii '%'
    let asText (spec : Text) : Text := expand (percent :: spec ++ [ascii 's']) [.text (plainText v)]
    if !isVerb verb then asText spec
    else
      match v.number? with
      | some x =>
        if isIntegerVerb verb then
          expand (percent :: spec) [.int (Number.truncate (Number.round x))]
        else if isFloatVerb verb then expand (percent :: spec) [.float x]
        else asText spec.dropLast
      | none => asText spec.dropLast

/-- What a field stands for. -/
inductive Target where
  | next
  | index (n : Int)
  | name (t : Text)
  deriving DecidableEq, Repr

/-- What the part of a field before the colon stands for. -/
def target (name : Text) : Target :=
  if name.isEmpty then .next
  else
    match Number.readDecimalInteger? name with
    | some n => .index n
    | none => .name name

/-- What a template can refer to: buffered values, and values by name. -/
structure Source where
  buffer : List Slot
  named : Text → Option Slot

namespace Source

/-- The buffered value at a place, with a warning if there is none. -/
def positional (s : Source) (n : Int) : Slot × List Entry :=
  if 0 ≤ n ∧ n < s.buffer.length then ((s.buffer[n.toNat]?).join, [])
  else
    (none, [Entry.warn "PRINTF: no value for positional field"
      [("index", .int n), ("buffered", .int s.buffer.length)]])

/-- The value of a name, with a warning if there is none. -/
def byName (s : Source) (name : Text) : Slot × List Entry :=
  match s.named name with
  | some v => (v, [])
  | none => (none, [Entry.warn "PRINTF: unknown field" [("name", .text name)]])

/-- The value a field refers to; `next` counts the fields before it that take the next value. -/
def value (s : Source) (next : Nat) : Target → Slot × List Entry
  | .next => s.positional next
  | .index n => s.positional n
  | .name t => s.byName t

/-- A field, rendered. One without a value shows itself between angle brackets. -/
def field (s : Source) (next : Nat) (inside : Text) : Text × List Entry :=
  let (name, spec) := Text.cut (ascii ':') inside
  match s.value next (target name) with
  | (some v, log) => (renderValue v spec, log)
  | (none, log) => (Text.concat ["<", inside, "?>"], log)

/-- Whether a field takes the next buffered value. -/
def takesNext (inside : Text) : Bool := target (Text.cut (ascii ':') inside).1 == .next

/-- The pieces of a template, rendered one after the other. -/
def renderFrom (s : Source) (next : Nat) : List Piece → Text × List Entry
  | [] => ([], [])
  | .byte b :: ps =>
    let (t, log) := s.renderFrom next ps
    (b :: t, log)
  | .field inside :: ps =>
    let (out, warnings) := s.field next inside
    let (t, log) := s.renderFrom (if takesNext inside then next + 1 else next) ps
    (out ++ t, warnings ++ log)

/-- A template, rendered, with the warnings met on the way. -/
def render (s : Source) (template : Text) : Text × List Entry := s.renderFrom 0 (pieces template)

end Source

end Lightboard.Format
