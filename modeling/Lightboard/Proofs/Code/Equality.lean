import Lightboard.Proofs.Code.Labels
import Lightboard.Proofs.Number.Order

/-!
# What equality means

`Value.equal` compares two numeric readings, or what two values of a kind hold, or how two values print.
`Value.equal_means_same` says that all of this comes to one thing: values with numeric readings are equal
if these are, and any others if they are the same value. So equality is symmetric and transitive, and
only a float that is not a number is different from itself.
-/

namespace Lightboard.Value

theorem described_eq_described_iff {a b : Value} (printed : a.IsPrinted) :
    (a.described == b.described) = true ↔ a = b := by
  rw [beq_iff_eq]
  constructor
  · exact eq_of_described printed
  · rintro rfl
    rfl

/-- A value without a numeric reading has the content of no value but itself. -/
theorem sameContent_iff {a : Value} (unread : a.number? = none) (b : Value) :
    a.sameContent b = true ↔ a = b := by
  cases a with
  | number x => cases unread
  | bool x => cases unread
  | str s => cases b <;> simp [sameContent]
  | nothing => cases b <;> simp [sameContent]
  | unitMode m => cases b <;> simp [sameContent]
  | operand o => cases b <;> simp [sameContent]
  | pattern p =>
      cases b with
      | pattern q =>
          have texts : p.text = q.text ↔ p = q :=
            ⟨TimePattern.text_injective, congrArg TimePattern.text⟩
          simp [sameContent, texts]
      | _ => simp [sameContent]
  | _ => exact described_eq_described_iff trivial

theorem equal_iff (a b : Value) :
    a.equal b = true ↔
      (∃ x y, a.number? = some x ∧ b.number? = some y ∧ (x == y) = true) ∨
        (a.number? = none ∧ b.number? = none ∧ a = b) := by
  unfold equal
  cases left : a.number? with
  | none =>
      rw [sameContent_iff left]
      constructor
      · rintro rfl
        exact .inr ⟨rfl, left, rfl⟩
      · rintro (⟨x, y, read, -⟩ | ⟨-, -, same⟩)
        · cases read
        · exact same
  | some x => cases right : b.number? <;> simp

theorem equal_comm (a b : Value) : a.equal b = b.equal a := by
  have turn {a b : Value} (same : a.equal b = true) : b.equal a = true := by
    obtain ⟨x, y, left, right, floats⟩ | ⟨left, right, rfl⟩ := (equal_iff a b).mp same
    · exact (equal_iff b a).mpr (.inl ⟨y, x, right, left, Number.beq_symm x y ▸ floats⟩)
    · exact same
  exact Bool.eq_iff_iff.mpr ⟨turn, turn⟩

theorem equal_trans {a b c : Value} (first : a.equal b = true) (second : b.equal c = true) :
    a.equal c = true := by
  obtain ⟨x, y, left, middle, floats⟩ | ⟨-, -, rfl⟩ := (equal_iff a b).mp first
  · obtain ⟨y', z, middle', right, floats'⟩ | ⟨unread, -, -⟩ := (equal_iff b c).mp second
    · obtain rfl := Option.some.inj (middle.symm.trans middle')
      exact (equal_iff a c).mpr (.inl ⟨x, z, left, right, Number.beq_trans floats floats'⟩)
    · cases middle.symm.trans unread
  · exact second

theorem equal_self_eq_false_iff (a : Value) :
    a.equal a = false ↔ ∃ x, a = .number x ∧ x.isNaN = true := by
  cases read : a.number? with
  | none =>
      have same : a.equal a = true := (equal_iff a a).mpr (.inr ⟨read, read, rfl⟩)
      rw [same]
      refine iff_of_false nofun ?_
      rintro ⟨x, rfl, -⟩
      cases read
  | some x =>
      have floats : a.equal a = (x == x) := by simp only [equal, read]
      rw [floats, Number.beq_self_eq_false_iff]
      cases a with
      | number y =>
          obtain rfl := Option.some.inj read
          simp
      | bool b =>
          obtain rfl := Option.some.inj read
          refine iff_of_false ?_ nofun
          cases b <;> decide +kernel
      | _ => cases read

/-- Equality is equality of meaning. Two values are equal if and only if both have a numeric reading and
the readings are equal, or neither has one and they are the same value, of the same kind and with the same
content; patterns with the same alternatives are the same. So equality is symmetric and transitive, and a
value is equal to itself unless it is a float that is not a number. -/
theorem equal_means_same :
    (∀ a b : Value, a.equal b = true ↔
      (∃ x y, a.number? = some x ∧ b.number? = some y ∧ (x == y) = true) ∨
        (a.number? = none ∧ b.number? = none ∧ a = b)) ∧
    (∀ p q : TimePattern, (pattern p).equal (pattern q) = true ↔ p.alternatives = q.alternatives) ∧
    (∀ a b : Value, a.equal b = b.equal a) ∧
    (∀ a b c : Value, a.equal b = true → b.equal c = true → a.equal c = true) ∧
    ∀ a : Value, a.equal a = false ↔ ∃ x, a = number x ∧ x.isNaN = true := by
  refine ⟨equal_iff, ?_, equal_comm, fun a b c => equal_trans, equal_self_eq_false_iff⟩
  intro p q
  change (pattern p).sameContent (pattern q) = true ↔ _
  rw [sameContent_iff rfl, pattern.injEq]
  exact ⟨congrArg TimePattern.alternatives, TimePattern.ext_alternatives⟩

/-- The two zeros are equal to falsehood and so to each other. A register code without a name is equal to
itself and not to the next one, nor to the symbol that prints its label. -/
theorem zeros_and_codes_compared :
    ((number (-0)).equal (bool false) = true ∧ (bool false).equal (number 0) = true ∧
      (number (-0)).equal (number 0) = true) ∧
    (register (.unnamed 0)).equal (register (.unnamed 0)) = true ∧
    (register (.unnamed 0)).equal (register (.unnamed 1)) = false ∧
    (register (.unnamed 0)).equal (symbol (Register.unnamed 0).label) = false ∧
    (number Number.notANumber).equal (number Number.notANumber) = false := by
  obtain ⟨means, -, -, trans, self⟩ := equal_means_same
  have different {a b : Value} (unread : a.number? = none) (other : a ≠ b) : a.equal b = false := by
    rw [Bool.eq_false_iff, ne_eq, means]
    rintro (⟨x, y, read, -⟩ | ⟨-, -, same⟩)
    · cases unread.symm.trans read
    · exact other same
  have left : (number (-0)).equal (bool false) = true :=
    (means _ _).mpr (.inl ⟨_, _, rfl, rfl, by decide +kernel⟩)
  have right : (bool false).equal (number 0) = true :=
    (means _ _).mpr (.inl ⟨_, _, rfl, rfl, by decide +kernel⟩)
  exact ⟨⟨left, right, trans _ _ _ left right⟩, (means _ _).mpr (.inr ⟨rfl, rfl, rfl⟩),
    different rfl nofun, different rfl nofun, (self _).mpr ⟨_, rfl, by decide +kernel⟩⟩

end Lightboard.Value
