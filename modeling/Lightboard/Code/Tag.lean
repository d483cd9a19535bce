import Lightboard.Text.Utf8

/-!
# Tags

The closed sets of names an instruction can carry: registers, operators, jump conditions, addressing
kinds, unit modes, output operations and set operations. Each has a code of one byte. A program built
by hand can carry a byte beyond the named codes; it prints as the kind of tag and the number.
-/

namespace Lightboard

/-- How a code without a name prints. -/
def unnamedCode (kind : String) (n : Nat) : Text :=
  Text.ofString kind ++ ascii '(' :: Text.ofNat n ++ [ascii ')']

/-- A slot of the register bank. Red, green and blue are other names for hue, saturation and brightness;
which name applies depends on the unit mode. -/
inductive Register where
  | hue
  | saturation
  | brightness
  | kelvin
  | red
  | green
  | blue
  | power
  | duration
  | time
  | name
  | operand
  | firstZone
  | lastZone
  | pc
  | result
  | unitMode
  | unnamed (past : Fin 239)
  deriving DecidableEq, Repr

namespace Register

/-- The named ones in the order of their codes. -/
def named : List Register :=
  [.hue, .saturation, .brightness, .kelvin, .red, .green, .blue, .power, .duration, .time, .name,
   .operand, .firstZone, .lastZone, .pc, .result, .unitMode]

def label : Register → Text
  | .hue => "hue"
  | .saturation => "saturation"
  | .brightness => "brightness"
  | .kelvin => "kelvin"
  | .red => "red"
  | .green => "green"
  | .blue => "blue"
  | .power => "power"
  | .duration => "duration"
  | .time => "time"
  | .name => "name"
  | .operand => "operand"
  | .firstZone => "first_zone"
  | .lastZone => "last_zone"
  | .pc => "pc"
  | .result => "result"
  | .unitMode => "unit_mode"
  | .unnamed past => unnamedCode "Register" (17 + past)

def code : Register → Nat
  | .unnamed past => 17 + past
  | x => named.idxOf x

def ofCode (n : UInt8) : Register :=
  named.getD n.toNat (.unnamed (Fin.ofNat 239 (n.toNat - 17)))

/-- The register whose slot is used: the color names fold onto the slot they share. -/
def canonical : Register → Register
  | .red => .hue
  | .green => .saturation
  | .blue => .brightness
  | r => r

/-- Looks a register up by its name, in any letter case. -/
def ofName? (t : Text) : Option Register := named.find? fun r => r.label == t.lower

end Register

/-- An operation on the operand stack. -/
inductive Operator where
  | add
  | sub
  | mul
  | div
  | mod
  | pow
  | eq
  | noteq
  | lt
  | lteq
  | gt
  | gteq
  | and
  | or
  | not
  | unaryMinus
  | unaryPlus
  | unnamed (past : Fin 239)
  deriving DecidableEq, Repr

namespace Operator

/-- The named ones in the order of their codes. -/
def named : List Operator :=
  [.add, .sub, .mul, .div, .mod, .pow, .eq, .noteq, .lt, .lteq, .gt, .gteq, .and, .or, .not,
   .unaryMinus, .unaryPlus]

def label : Operator → Text
  | .add => "ADD"
  | .sub => "SUB"
  | .mul => "MUL"
  | .div => "DIV"
  | .mod => "MOD"
  | .pow => "POW"
  | .eq => "EQ"
  | .noteq => "NOTEQ"
  | .lt => "LT"
  | .lteq => "LTEQ"
  | .gt => "GT"
  | .gteq => "GTEQ"
  | .and => "AND"
  | .or => "OR"
  | .not => "NOT"
  | .unaryMinus => "UNARY_MINUS"
  | .unaryPlus => "UNARY_PLUS"
  | .unnamed past => unnamedCode "Operator" (17 + past)

def code : Operator → Nat
  | .unnamed past => 17 + past
  | x => named.idxOf x

def ofCode (n : UInt8) : Operator :=
  named.getD n.toNat (.unnamed (Fin.ofNat 239 (n.toNat - 17)))

/-- Takes one operand rather than two. -/
def isUnary : Operator → Bool
  | .not | .unaryMinus | .unaryPlus => true
  | _ => false

end Operator

/-- When a jump is taken, and where to: an indirect jump goes to an address, the others by an offset. -/
inductive JumpCondition where
  | always
  | ifTrue
  | ifFalse
  | indirect
  | unnamed (past : Fin 252)
  deriving DecidableEq, Repr

namespace JumpCondition

/-- The named ones in the order of their codes. -/
def named : List JumpCondition :=
  [.always, .ifTrue, .ifFalse, .indirect]

def label : JumpCondition → Text
  | .always => "ALWAYS"
  | .ifTrue => "IF_TRUE"
  | .ifFalse => "IF_FALSE"
  | .indirect => "INDIRECT"
  | .unnamed past => unnamedCode "JumpCondition" (4 + past)

def code : JumpCondition → Nat
  | .unnamed past => 4 + past
  | x => named.idxOf x

def ofCode (n : UInt8) : JumpCondition :=
  named.getD n.toNat (.unnamed (Fin.ofNat 252 (n.toNat - 4)))

end JumpCondition

/-- Which lights a command addresses. -/
inductive Operand where
  | all
  | light
  | group
  | location
  | mzLight
  | unnamed (past : Fin 251)
  deriving DecidableEq, Repr

namespace Operand

/-- The named ones in the order of their codes. -/
def named : List Operand :=
  [.all, .light, .group, .location, .mzLight]

def label : Operand → Text
  | .all => "ALL"
  | .light => "LIGHT"
  | .group => "GROUP"
  | .location => "LOCATION"
  | .mzLight => "MZ_LIGHT"
  | .unnamed past => unnamedCode "Operand" (5 + past)

def code : Operand → Nat
  | .unnamed past => 5 + past
  | x => named.idxOf x

def ofCode (n : UInt8) : Operand :=
  named.getD n.toNat (.unnamed (Fin.ofNat 251 (n.toNat - 5)))

end Operand

/-- The units colors and times are held in. -/
inductive UnitMode where
  | logical
  | raw
  | rgb
  | unnamed (past : Fin 253)
  deriving DecidableEq, Repr

namespace UnitMode

/-- The named ones in the order of their codes. -/
def named : List UnitMode :=
  [.logical, .raw, .rgb]

def label : UnitMode → Text
  | .logical => "LOGICAL"
  | .raw => "RAW"
  | .rgb => "RGB"
  | .unnamed past => unnamedCode "UnitMode" (3 + past)

def code : UnitMode → Nat
  | .unnamed past => 3 + past
  | x => named.idxOf x

def ofCode (n : UInt8) : UnitMode :=
  named.getD n.toNat (.unnamed (Fin.ofNat 253 (n.toNat - 3)))

/-- Looks a mode up by its name, in any letter case. -/
def ofName? (t : Text) : Option UnitMode := named.find? fun m => m.label == t.upper

end UnitMode

/-- What an output instruction does. -/
inductive IoOp where
  | register
  | literal
  | print
  | println
  | printf
  | unnamed (past : Fin 251)
  deriving DecidableEq, Repr

namespace IoOp

/-- The named ones in the order of their codes. -/
def named : List IoOp :=
  [.register, .literal, .print, .println, .printf]

def label : IoOp → Text
  | .register => "REGISTER"
  | .literal => "LITERAL"
  | .print => "PRINT"
  | .println => "PRINTLN"
  | .printf => "PRINTF"
  | .unnamed past => unnamedCode "IoOp" (5 + past)

def code : IoOp → Nat
  | .unnamed past => 5 + past
  | x => named.idxOf x

def ofCode (n : UInt8) : IoOp :=
  named.getD n.toNat (.unnamed (Fin.ofNat 251 (n.toNat - 5)))

end IoOp

/-- How a time pattern joins the one in the time register. -/
inductive SetOp where
  | init
  | union
  | unnamed (past : Fin 254)
  deriving DecidableEq, Repr

namespace SetOp

/-- The named ones in the order of their codes. -/
def named : List SetOp :=
  [.init, .union]

def label : SetOp → Text
  | .init => "INIT"
  | .union => "UNION"
  | .unnamed past => unnamedCode "SetOp" (2 + past)

def code : SetOp → Nat
  | .unnamed past => 2 + past
  | x => named.idxOf x

def ofCode (n : UInt8) : SetOp :=
  named.getD n.toNat (.unnamed (Fin.ofNat 254 (n.toNat - 2)))

end SetOp

end Lightboard
