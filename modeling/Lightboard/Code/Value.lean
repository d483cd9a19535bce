import Lightboard.Code.Tag
import Lightboard.Code.TimePattern
import Lightboard.Number.Decimal

/-!
# Values

What an operand, register, variable or stack slot can hold. Registers, symbols and loop tokens are
references: they say where a value is kept. A slot is a value or nothing at all, since an instruction
may leave operands out.

`Slot.equal` is the equality programs see. It compares by numeric reading where the left side has one, and
elsewhere by content or by the printed form.
-/

namespace Lightboard

/-- A value of the machine. -/
inductive Value where
  | number (x : Float)
  | str (t : Text)
  | bool (b : Bool)
  /-- The value that stands for the lack of one. -/
  | nothing
  | unitMode (m : UnitMode)
  | operand (o : Operand)
  /-- A reference to a register. -/
  | register (r : Register)
  /-- A reference to a variable or constant. -/
  | symbol (name : Text)
  /-- A reference to a variable of the loop on top. -/
  | loopVar (n : Int)
  | operator (o : Operator)
  | jump (c : JumpCondition)
  | io (o : IoOp)
  | setOp (o : SetOp)
  | pattern (p : TimePattern)

/-- A place that may hold a value. -/
abbrev Slot := Option Value

namespace Value

instance : Inhabited Value := ⟨.nothing⟩

/-- The name of a value's kind. -/
def kind : Value → Text
  | .number _ => "Number"
  | .str _ => "StrValue"
  | .bool _ => "BoolValue"
  | .nothing => "NoneValue"
  | .unitMode _ => "UnitModeValue"
  | .operand _ => "OperandValue"
  | .register _ => "RegisterRef"
  | .symbol _ => "Symbol"
  | .loopVar _ => "LoopVar"
  | .operator _ => "OperatorValue"
  | .jump _ => "JumpConditionValue"
  | .io _ => "IoOpValue"
  | .setOp _ => "SetOpValue"
  | .pattern _ => "TimePattern"

/-- A value as plain text. References carry their sigil, and so do the tags that occur in operands
only. -/
def text : Value → Text
  | .number x => Number.plain x
  | .str t => t
  | .bool true => "True"
  | .bool false => "False"
  | .nothing => "None"
  | .unitMode m => m.label
  | .operand o => o.label
  | .register r => ascii '%' :: r.label
  | .symbol name => ascii '$' :: name
  | .loopVar n => ascii '@' :: Text.ofInt n
  | .operator o => ascii '#' :: o.label
  | .jump c => ascii '#' :: c.label
  | .io o => ascii '#' :: o.label
  | .setOp o => ascii '#' :: o.label
  | .pattern p => p.text

/-- Whether a value counts as true. -/
def isTrue : Value → Bool
  | .number x => x != 0
  | .str t => !t.isEmpty
  | .bool b => b
  | .nothing => false
  | _ => true

/-- The numeric reading of a value. Truth values count as zero and one. -/
def number? : Value → Option Float
  | .number x => some x
  | .bool b => some (if b then 1 else 0)
  | _ => none

/-- Whether a value says where another one is kept. -/
def isReference : Value → Bool
  | .register _ | .symbol _ | .loopVar _ => true
  | _ => false

/-- How a value appears in a listing of instructions: literals between quotation marks, patterns with
their sigil. -/
def listed : Value → Text
  | .str t => t.quoted
  | .pattern p => ascii '~' :: p.text
  | v => v.text

/-- How a value appears in a listing of the machine's state: as in a listing of instructions, with
numbers in their shortest form. -/
def shown : Value → Text
  | .number x => Number.brief x
  | v => v.listed

/-- A value with its kind, as one text. -/
def described (v : Value) : Text := Text.concat ["vm.", v.kind, ":", v.text]

/-- Equality of a value that has no numeric reading with another one. References, and the tags that
occur in operands only, are compared as they print, their kind included. -/
def sameContent : Value → Value → Bool
  | .str s, .str t => s == t
  | .nothing, .nothing => true
  | .unitMode m, .unitMode n => m == n
  | .operand o, .operand p => o == p
  | .pattern p, .pattern q => p.text == q.text
  | .str _, _ | .nothing, _ | .unitMode _, _ | .operand _, _ | .pattern _, _ => false
  | a, b => a.described == b.described

/-- The equality that programs see. -/
def equal (a b : Value) : Bool :=
  match a.number?, b.number? with
  | some x, some y => x == y
  | some _, none => false
  | none, _ => a.sameContent b

/-- The value a tag names, in any letter case. Tag names differ across the kinds of tag. -/
def ofTag? (t : Text) : Option Value :=
  let name := t.upper
  if name = ("NONE" : Text) then some .nothing
  else
    (Operator.named.find? (·.label == name)).map .operator
    <|> (JumpCondition.named.find? (·.label == name)).map .jump
    <|> (Operand.named.find? (·.label == name)).map .operand
    <|> (UnitMode.named.find? (·.label == name)).map .unitMode
    <|> (IoOp.named.find? (·.label == name)).map .io
    <|> (SetOp.named.find? (·.label == name)).map .setOp

end Value

namespace Slot

/-- How a slot appears in a message. -/
def inMessage : Slot → Text
  | none => "<nil>"
  | some v => v.text

/-- How a slot appears in a message that wants a text there. -/
def wanted : Slot → Text
  | none => "%!s(<nil>)"
  | some v => v.text

/-- How the kind of what a slot holds appears in a message. -/
def kindInMessage : Slot → Text
  | none => "<nil>"
  | some v => "vm." ++ v.kind

/-- How a slot appears in a listing of the machine's state. -/
def shown : Slot → Text
  | none => "<unset>"
  | some v => v.shown

/-- The numeric reading of what a slot holds. -/
def number? (s : Slot) : Option Float := s.bind Value.number?

/-- The equality that programs see, on slots. -/
def equal : Slot → Slot → Bool
  | some a, some b => a.equal b
  | none, none => true
  | _, _ => false

end Slot

end Lightboard
