import Lightboard.Code.OpCode
import Lightboard.Code.Value

/-!
# What can go wrong

A *fault* is a state the machine cannot go on from: a stack is empty, or a value of the wrong sort
reached a place where only some sorts are known. An *error* is any reason an instruction fails for,
faults included. Each is kept as its cause; `message` gives the wording.
-/

namespace Lightboard

/-- A state the machine cannot go on from. -/
inductive Fault where
  | operandStackUnderrun
  | callStackUnderrun
  /-- A call frame is to be popped while loops are open in it. -/
  | loopStillOpen
  /-- A loop is to be left where none is open. -/
  | noLoop
  | loopVarOutside (token : Int)
  /-- A variable is to be written through a value that names none. -/
  | variableToken (token : Slot)
  | unknownRegister (code : Nat)
  | unknownOperand (code : Nat)
  | noConversion (start goal : UnitMode)
  | unnamedOpCode
  /-- Arithmetic is asked for with an operator that is none of arithmetic. -/
  | unhandledOperator
  /-- A slot that should hold a value holds none. -/
  | missingValue

def Fault.message : Fault → Text
  | .operandStackUnderrun => "Operand stack underrun"
  | .callStackUnderrun => "Call stack underrun"
  | .loopStillOpen => "Call frame popped with a loop still open"
  | .noLoop => "END_LOOP without a loop frame"
  | .loopVarOutside n =>
    Text.concat ["Loop variable ", (Value.loopVar n).text, " written outside a loop"]
  | .variableToken s => Text.concat ["Unsupported variable token ", Slot.kindInMessage s]
  | .unknownRegister n => Text.concat ["Unknown register ", Text.ofNat n]
  | .unknownOperand n => Text.concat ["Unknown operand ", Text.ofNat n]
  | .noConversion start goal =>
    Text.concat ["No unit conversion from ", start.label, " to ", goal.label]
  | .unnamedOpCode => "Unnamed opcode"
  | .unhandledOperator => "Unhandled numericOp operator"
  | .missingValue => "runtime error: invalid memory address or nil pointer dereference"

/-- What is wrong with the operands of an instruction. -/
inductive BadParam where
  | registerValue (r : Register) (v : Slot)
  | pushMissing
  | popTarget (dest : Slot)
  | notUnary (op : Operator)
  | notBinary (op : Operator)
  | moveMissing
  | pushLiteralMissing
  | operatorExpected (v : Slot)
  | conditionExpected (v : Slot)
  | indirectTarget (source : Slot) (v : Slot)
  | offsetExpected (v : Slot)
  | unknownCondition (code : Nat)
  | operandMissing
  | unitMode (v : Slot)
  | storeTarget (dest : Slot)
  | nameExpected (v : Slot)
  | waitValue (v : Slot)
  | setOpExpected (v : Slot)
  | badPattern (e : PatternError)
  | notPattern (v : Slot)
  | unknownSetOp (code : Nat)
  | discoveryOperand (v : Slot)
  | unknownOperand (code : Nat)
  | lightName (v : Slot)
  | ioOpExpected (v : Slot)
  | registerExpected (v : Slot)
  | literalMissing
  | formatExpected (v : Slot)
  | unknownIoOp (code : Nat)

def BadParam.message : BadParam → Text
  | .registerValue r v =>
    Text.concat ["register ", r.label, " can't hold ", Slot.kindInMessage v, " ", Slot.wanted v]
  | .pushMissing => "PUSH without an operand"
  | .popTarget dest => Text.concat ["can't POP into ", Slot.inMessage dest]
  | .notUnary op => Text.concat [op.label, " is not a unary operator"]
  | .notBinary op => Text.concat [op.label, " is not a binary operator"]
  | .moveMissing => "MOVEQ without a value"
  | .pushLiteralMissing => "PUSHQ without a value"
  | .operatorExpected v => Text.concat ["OP needs an operator, got ", Slot.inMessage v]
  | .conditionExpected v => Text.concat ["JUMP needs a condition, got ", Slot.inMessage v]
  | .indirectTarget source v =>
    Text.concat ["indirect jump through ", Slot.wanted source, " holding ", Slot.wanted v]
  | .offsetExpected v => Text.concat ["JUMP needs a numeric offset, got ", Slot.inMessage v]
  | .unknownCondition n => Text.concat ["unknown jump condition ", Text.ofNat n]
  | .operandMissing => "missing operand"
  | .unitMode v => Text.concat ["unit mode can't be ", Slot.wanted v]
  | .storeTarget dest => Text.concat ["can't store into ", Slot.inMessage dest]
  | .nameExpected v => Text.concat ["expected a name, got ", Slot.inMessage v]
  | .waitValue v => Text.concat ["can't wait on ", Slot.wanted v]
  | .setOpExpected v => Text.concat ["TIME_PATTERN needs a set op, got ", Slot.inMessage v]
  | .badPattern e => e.message
  | .notPattern v => Text.concat ["not a time pattern: ", Slot.wanted v]
  | .unknownSetOp n => Text.concat ["unknown set op ", Text.ofNat n]
  | .discoveryOperand v => Text.concat ["discovery needs an operand, got ", Slot.inMessage v]
  | .unknownOperand n => Text.concat ["unknown operand ", Text.ofNat n]
  | .lightName v => Text.concat ["expected a light name, got ", Slot.inMessage v]
  | .ioOpExpected v => Text.concat ["OUT needs an io op, got ", Slot.inMessage v]
  | .registerExpected v => Text.concat ["OUT REGISTER needs a register, got ", Slot.inMessage v]
  | .literalMissing => "OUT LITERAL without a value"
  | .formatExpected v => Text.concat ["PRINTF needs a format string, got ", Slot.inMessage v]
  | .unknownIoOp n => Text.concat ["unknown io op ", Text.ofNat n]

/-- Why an instruction or a run failed. -/
inductive RunError where
  | noProgram
  | counterOutOfRange (pc : Int)
  | cancelled
  | deadline
  /-- The keyboard has no more keys. -/
  | endOfInput
  | badParam (why : BadParam)
  | unresolvedRoutine (name : Text)
  | unresolvedName (token : Value)
  | divideByZero
  | cannotApply (op : Operator) (v : Slot)
  | cannotCompare (a b : Slot)
  | notNumeric (a b : Slot)
  /-- The clock, the keyboard or the output failed, in its own words. -/
  | external (why : Text)
  | readingKey (e : RunError)
  | fault (f : Fault)
  /-- The failure of the instruction at an address. -/
  | instruction (pc : Int) (op : OpCode) (e : RunError)

namespace RunError

def message : RunError → Text
  | .noProgram => "No program loaded"
  | .counterOutOfRange pc => Text.concat ["Program counter ", Text.ofInt pc, " out of range"]
  | .cancelled => "context canceled"
  | .deadline => "context deadline exceeded"
  | .endOfInput => "EOF"
  | .badParam why => Text.concat ["Bad instruction parameter: ", why.message]
  | .unresolvedRoutine name => Text.concat ["Unresolved routine: ", name]
  | .unresolvedName token => Text.concat ["Unresolved name: ", token.text]
  | .divideByZero => "Division by zero"
  | .cannotApply op v => Text.concat ["Can't apply ", op.label, " to ", Slot.kindInMessage v]
  | .cannotCompare a b =>
    Text.concat ["Can't compare ", Slot.kindInMessage a, " to ", Slot.kindInMessage b]
  | .notNumeric a b =>
    Text.concat
      ["Trying to do a numeric operation between a ", Slot.kindInMessage a, " and a ",
       Slot.kindInMessage b]
  | .external why => why
  | .readingKey e => Text.concat ["reading key: ", e.message]
  | .fault f => f.message
  | .instruction pc op e => Text.concat ["pc ", Text.ofInt pc, " ", op.inMessage, ": ", e.message]

/-- The cause under the circumstances it came up in. -/
def cause : RunError → RunError
  | .readingKey e => e.cause
  | .instruction _ _ e => e.cause
  | e => e

end RunError

end Lightboard
