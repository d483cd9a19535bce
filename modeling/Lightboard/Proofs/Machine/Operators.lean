import Lightboard.Machine.Arithmetic

/-!
# What operators give

An operator makes a number, a text or a truth value of its operands. It fails if it needs an operand
that holds no value, and for a few reasons of its own. `Operator.Gives` lists all of this, and
`OperandStack.Applied` says in addition what becomes of the operand stack.
-/

namespace Lightboard

namespace Operator

/-- What an operator can make of its operands. -/
inductive Gives (operands : List Slot) : Except RunError Slot → Prop
  | number (x : Float) : Gives operands (.ok (some (.number x)))
  | text (t : Text) : Gives operands (.ok (some (.str t)))
  | truth (b : Bool) : Gives operands (.ok (some (.bool b)))
  | missing (among : none ∈ operands) : Gives operands (.error (.fault .missingValue))
  | divideByZero : Gives operands (.error .divideByZero)
  | notNumeric (a b : Slot) : Gives operands (.error (.notNumeric a b))
  | cannotCompare (a b : Slot) : Gives operands (.error (.cannotCompare a b))
  | cannotApply (op : Operator) (a : Slot) : Gives operands (.error (.cannotApply op a))
  | notBinary (op : Operator) : Gives operands (.error (.badParam (.notBinary op)))
  | notUnary (op : Operator) : Gives operands (.error (.badParam (.notUnary op)))

/-- The operators on two numbers with a number as their result. -/
def IsArithmetic : Operator → Prop
  | .add | .sub | .mul | .div | .mod | .pow => True
  | _ => False

/-- Arithmetic fails for a division by zero only, if the operator is one of arithmetic. -/
theorem arithmetic?_eq {op : Operator} (h : op.IsArithmetic) (x y : Float) :
    (∃ z, arithmetic? op x y = some (.ok z)) ∨
      arithmetic? op x y = some (.error .divideByZero) := by
  cases op with
  | add => exact .inl ⟨_, rfl⟩
  | sub => exact .inl ⟨_, rfl⟩
  | mul => exact .inl ⟨_, rfl⟩
  | pow => exact .inl ⟨_, rfl⟩
  | div =>
      simp only [arithmetic?]
      split
      · exact .inr rfl
      · exact .inl ⟨_, rfl⟩
  | mod =>
      simp only [arithmetic?]
      split
      · exact .inr rfl
      · exact .inl ⟨_, rfl⟩
  | _ => exact h.elim

theorem numeric_gives {op : Operator} (h : op.IsArithmetic) (a b : Slot) :
    Gives [a, b] (numeric op a b) := by
  unfold numeric
  split
  · next x y _ _ =>
    obtain ⟨z, made⟩ | byZero := arithmetic?_eq h x y
    · rw [made]
      exact .number z
    · rw [byZero]
      exact .divideByZero
  · exact .notNumeric a b

theorem compare_of_error {a b : Slot} {e : RunError} (failed : compare a b = .error e) :
    e = .cannotCompare a b := by
  unfold compare at failed
  split at failed
  · cases failed
  · split at failed
    · cases failed
    · exact (Except.error.inj failed).symm

theorem comparison_gives (op : Operator) (a b : Slot) : Gives [a, b] (comparison op a b) := by
  unfold comparison
  split
  · exact .truth _
  · next failed =>
    rw [compare_of_error failed]
    exact .cannotCompare a b

/-- The second operand is needed only if the first does not decide. -/
theorem both_gives (a b : Slot) :
    Gives [a, b] ((both a b).map fun r => (some (.bool r) : Slot)) := by
  cases a with
  | none => exact .missing (by simp)
  | some v =>
      cases truth : v.isTrue <;> simp only [both, need, truth, bind, Except.bind, pure, Except.pure]
      case false => exact .truth false
      case true =>
        cases b with
        | none => exact .missing (by simp)
        | some w => exact .truth w.isTrue

theorem either_gives (a b : Slot) :
    Gives [a, b] ((either a b).map fun r => (some (.bool r) : Slot)) := by
  cases a with
  | none => exact .missing (by simp)
  | some v =>
      cases truth : v.isTrue <;>
        simp only [either, need, truth, bind, Except.bind, pure, Except.pure]
      case true => exact .truth true
      case false =>
        cases b with
        | none => exact .missing (by simp)
        | some w => exact .truth w.isTrue

theorem binary_gives (op : Operator) (a b : Slot) : Gives [a, b] (op.binary a b) := by
  cases op with
  | eq => exact .truth _
  | noteq => exact .truth _
  | and => exact both_gives a b
  | or => exact either_gives a b
  | lt => exact comparison_gives _ a b
  | lteq => exact comparison_gives _ a b
  | gt => exact comparison_gives _ a b
  | gteq => exact comparison_gives _ a b
  | add =>
      simp only [binary]
      split
      · exact .text _
      · exact @numeric_gives .add trivial a b
  | sub => exact @numeric_gives .sub trivial a b
  | mul => exact @numeric_gives .mul trivial a b
  | div => exact @numeric_gives .div trivial a b
  | mod => exact @numeric_gives .mod trivial a b
  | pow => exact @numeric_gives .pow trivial a b
  | _ => exact .notBinary _

theorem unary_gives (op : Operator) (a : Slot) : Gives [a] (op.unary a) := by
  unfold unary
  split
  · cases a with
    | none => exact .missing (by simp)
    | some v => exact .truth _
  · split
    · exact .number _
    · exact .cannotApply _ a
  · split
    · exact .number _
    · exact .cannotApply _ a
  · exact .notUnary op

end Operator

namespace OperandStack

/-- What an operator can make of the operand stack. -/
inductive Applied (s : OperandStack) : OperandStack × Except RunError Unit → Prop
  | underrun {rest : OperandStack} (left : rest <:+ s) :
      Applied s (rest, .error (.fault .operandStackUnderrun))
  | made {operands rest : List Slot} {v : Slot} (taken : operands ⊆ s) (left : rest <:+ s)
      (gives : Operator.Gives operands (.ok v)) : Applied s (v :: rest, .ok ())
  | failed {operands rest : List Slot} {e : RunError} (taken : operands ⊆ s) (left : rest <:+ s)
      (gives : Operator.Gives operands (.error e)) : Applied s (rest, .error e)

theorem apply_applied (op : Operator) (s : OperandStack) : s.Applied (apply op s) := by
  unfold apply unary binary
  split
  · split
    · exact .underrun (List.suffix_refl _)
    · next v rest =>
      have gives := op.unary_gives v
      have taken : [v] ⊆ v :: rest := by simp
      split
      · next made => exact .made taken (List.suffix_cons v rest) (made ▸ gives)
      · next failed => exact .failed taken (List.suffix_refl _) (failed ▸ gives)
  · split
    · exact .underrun (List.suffix_refl _)
    · exact .underrun List.nil_suffix
    · next right left rest =>
      have gives := op.binary_gives left right
      have taken : [left, right] ⊆ right :: left :: rest := by simp
      have below : rest <:+ right :: left :: rest :=
        (List.suffix_cons left rest).trans (List.suffix_cons right _)
      split
      · next made => exact .made taken below (made ▸ gives)
      · next failed => exact .failed taken below (failed ▸ gives)

end OperandStack

end Lightboard
