import Lightboard.Code.Value
import Lightboard.Number.Read
import Lightboard.Toml.Document

/-!
# Operands in assembly text

Numbers and truth values stand for themselves. A string begins with a sigil that tells what it names:
`%` a register, `$` a variable, `@` a loop token, `#` a tag and `~` a time pattern; a backslash takes
the meaning away from the sigil after it, and any other string is a literal.

`Operand.read` reads this notation and `Operand.write` writes it.
-/

namespace Lightboard.Assembly

/-- Why a value is no operand. -/
inductive OperandError where
  /-- A list, a table or a date. -/
  | unsupported (d : Toml.Datum)
  | register (name : Text)
  | emptyName
  | loopToken (word : Text)
  | tag (name : Text)
  | pattern (e : PatternError)

def OperandError.message : OperandError → Text
  | .unsupported d => Text.concat ["Unsupported operand ", d.shown, " (", d.kind, ")"]
  | .register name => Text.concat ["Unknown register ", name.quoted]
  | .emptyName => "Empty variable name"
  | .loopToken word => Text.concat ["Bad loop token ", word.quoted]
  | .tag name => Text.concat ["Unknown tag ", name.quoted]
  | .pattern e => e.message

namespace Operand

/-- Reads a string by its sigil. -/
def readWord (word : Text) : Except OperandError Value :=
  match word with
  | [] => .ok (.str [])
  | sigil :: rest =>
    if sigil = ascii '\\' then .ok (.str rest)
    else if sigil = ascii '%' then
      match Register.ofName? rest with
      | some r => .ok (.register r)
      | none => .error (.register rest)
    else if sigil = ascii '$' then
      if rest.isEmpty then .error .emptyName else .ok (.symbol rest)
    else if sigil = ascii '@' then
      match Number.readLenientInteger? rest with
      | some n => if n < 0 then .error (.loopToken word) else .ok (.loopVar n)
      | none => .error (.loopToken word)
    else if sigil = ascii '#' then
      match Value.ofTag? rest with
      | some v => .ok v
      | none => .error (.tag rest)
    else if sigil = ascii '~' then
      match TimePattern.read rest with
      | .ok p => .ok (.pattern p)
      | .error e => .error (.pattern e)
    else .ok (.str word)

/-- Reads an operand. -/
def read : Toml.Datum → Except OperandError Value
  | .boolean b => .ok (.bool b)
  | .text t => readWord t
  | .integer n => .ok (.number (Number.ofInt n))
  | .float x => .ok (.number x)
  | d => .error (.unsupported d)

/-- One character of a string on one line. -/
def quoteChar (c : Char) : Text :=
  let n := c.toNat
  if c = '"' then "\\\""
  else if c = '\\' then "\\\\"
  else if c = '\n' then "\\n"
  else if c = '\r' then "\\r"
  else if c = '\t' then "\\t"
  else if n < 0x20 ∨ (0x7F ≤ n ∧ n < 0xA0) then "\\u" ++ Text.raise (Text.hex 4 n)
  else String.utf8EncodeChar c

/-- A text as a string on one line, with escapes for control characters. -/
def quote (t : Text) : Text :=
  Text.concat ["\"", (t.runes.map Rune.shown).flatMap quoteChar, "\""]

/-- The bytes that a literal can only begin with after a backslash. -/
def isSigil (b : UInt8) : Bool := ("\\%$@#~" : Text).contains b

/-- A literal string, protected from being read by its first byte. -/
def protect (t : Text) : Text :=
  match t with
  | b :: _ => if isSigil b then ascii '\\' :: t else t
  | [] => []

/-- A number: plain below 10^15, with an exponent from there on. -/
def writeNumber (x : Float) : Text :=
  match Number.exact x with
  | .nan => "nan"
  | .inf false => "inf"
  | .inf true => "-inf"
  | .finite _ _ _ => if 1e15 ≤ x.abs then Number.numeral (.scientific 'e') none x else Number.plain x

/-- An operand in assembly notation. -/
def write : Value → Text
  | .number x => writeNumber x
  | .bool true => "true"
  | .bool false => "false"
  | .str t => quote (protect t)
  | .nothing => quote "#NONE"
  | .unitMode m => quote (ascii '#' :: m.label)
  | .operand o => quote (ascii '#' :: o.label)
  | .pattern p => quote (ascii '~' :: p.text)
  | v => quote v.text

end Operand

end Lightboard.Assembly
