import Lightboard.Machine.Error
import Lightboard.Number.Power

/-!
# Operators

The operators on values. Arithmetic takes numbers and truth values, comparisons those or two texts, a
sum also joins two texts. Equality and the logical operators take everything.
-/

namespace Lightboard.Operator

/-- A value that must be there. -/
def need (v : Slot) : Except RunError Value :=
  match v with
  | some v => .ok v
  | none => .error (.fault .missingValue)

/-- The remainder with the sign of the divisor. -/
def modulo (x y : Float) : Float :=
  let r := Number.remainder x y
  if r != 0 && (decide (r < 0) != decide (y < 0)) then r + y else r

/-- Arithmetic on two numbers; operators that are none of arithmetic have no result. -/
def arithmetic? (op : Operator) (x y : Float) : Option (Except RunError Float) :=
  match op with
  | .add => some (.ok (x + y))
  | .sub => some (.ok (x - y))
  | .mul => some (.ok (x * y))
  | .div => some (if y == 0 then .error .divideByZero else .ok (x / y))
  | .mod => some (if y == 0 then .error .divideByZero else .ok (modulo x y))
  | .pow => some (.ok (Number.power x y))
  | _ => none

/-- Arithmetic on two values. -/
def numeric (op : Operator) (a b : Slot) : Except RunError Slot :=
  match Slot.number? a, Slot.number? b with
  | some x, some y =>
    match arithmetic? op x y with
    | some (.ok z) => .ok (some (.number z))
    | some (.error e) => .error e
    | none => .error (.fault .unhandledOperator)
  | _, _ => .error (.notNumeric a b)

/-- The order of two values. Numbers that are neither below nor above one another count as equal. -/
def compare (a b : Slot) : Except RunError Ordering :=
  match Slot.number? a, Slot.number? b with
  | some x, some y => .ok (if x < y then .lt else if y < x then .gt else .eq)
  | _, _ =>
    match a, b with
    | some (.str s), some (.str t) =>
      .ok (if Text.before s t then .lt else if Text.before t s then .gt else .eq)
    | _, _ => .error (.cannotCompare a b)

/-- What a comparison operator makes of an order. -/
def holds (op : Operator) (o : Ordering) : Bool :=
  match op with
  | .lt => o == .lt
  | .lteq => o != .gt
  | .gt => o == .gt
  | _ => o != .lt

/-- The result of a comparison. -/
def comparison (op : Operator) (a b : Slot) : Except RunError Slot :=
  match compare a b with
  | .ok o => .ok (some (.bool (holds op o)))
  | .error e => .error e

/-- Both count as true; the second is looked at only if the first does. -/
def both (a b : Slot) : Except RunError Bool := do
  let a ← need a
  if a.isTrue then do
    let b ← need b
    return b.isTrue
  else return false

/-- One counts as true; the second is looked at only if the first does not. -/
def either (a b : Slot) : Except RunError Bool := do
  let a ← need a
  if a.isTrue then return true
  else do
    let b ← need b
    return b.isTrue

/-- The result of an operator on two values. -/
def binary (op : Operator) (a b : Slot) : Except RunError Slot :=
  match op with
  | .eq => .ok (some (.bool (Slot.equal a b)))
  | .noteq => .ok (some (.bool (!Slot.equal a b)))
  | .and => (both a b).map fun r => some (.bool r)
  | .or => (either a b).map fun r => some (.bool r)
  | .lt => comparison op a b
  | .lteq => comparison op a b
  | .gt => comparison op a b
  | .gteq => comparison op a b
  | .add =>
    match a, b with
    | some (.str s), some (.str t) => .ok (some (.str (s ++ t)))
    | _, _ => numeric op a b
  | .sub => numeric op a b
  | .mul => numeric op a b
  | .div => numeric op a b
  | .mod => numeric op a b
  | .pow => numeric op a b
  | _ => .error (.badParam (.notBinary op))

/-- The result of an operator on one value. -/
def unary (op : Operator) (a : Slot) : Except RunError Slot :=
  match op with
  | .not => (need a).map fun v => some (.bool (!v.isTrue))
  | .unaryMinus =>
    match Slot.number? a with
    | some x => .ok (some (.number (-x)))
    | none => .error (.cannotApply op a)
  | .unaryPlus =>
    match Slot.number? a with
    | some x => .ok (some (.number x))
    | none => .error (.cannotApply op a)
  | _ => .error (.badParam (.notUnary op))

end Lightboard.Operator

namespace Lightboard

/-- The operand stack, the top first. -/
abbrev OperandStack := List Slot

namespace OperandStack

/-- Takes the top off. -/
def pop (s : OperandStack) : Except Fault (Slot × OperandStack) :=
  match s with
  | [] => .error .operandStackUnderrun
  | v :: rest => .ok (v, rest)

/-- Applies an operator to the top. A failure leaves the stack as it was. -/
def unary (op : Operator) (s : OperandStack) : OperandStack × Except RunError Unit :=
  match s with
  | [] => (s, .error (.fault .operandStackUnderrun))
  | v :: rest =>
    match op.unary v with
    | .ok w => (w :: rest, .ok ())
    | .error e => (s, .error e)

/-- Applies an operator to the two on top, of which the lower is the left operand. What was taken off
stays off after a failure. -/
def binary (op : Operator) (s : OperandStack) : OperandStack × Except RunError Unit :=
  match s with
  | [] => (s, .error (.fault .operandStackUnderrun))
  | [_] => ([], .error (.fault .operandStackUnderrun))
  | right :: left :: rest =>
    match op.binary left right with
    | .ok w => (w :: rest, .ok ())
    | .error e => (rest, .error e)

/-- Applies an operator to as many values as it takes. -/
def apply (op : Operator) (s : OperandStack) : OperandStack × Except RunError Unit :=
  if op.isUnary then unary op s else binary op s

/-- The stack, a line each from the top down, with the places counted from the bottom. -/
def shown (s : OperandStack) : Text :=
  if s.isEmpty then "  (empty)\n"
  else
    s.zipIdx.flatMap fun (v, i) =>
      Text.concat ["  [", Text.ofNat (s.length - 1 - i), "] ", Slot.shown v, "\n"]

end OperandStack

end Lightboard
