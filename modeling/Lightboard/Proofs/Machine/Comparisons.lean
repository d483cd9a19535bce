import Lightboard.Machine.Arithmetic
import Lightboard.Proofs.Number.Order
import Lightboard.Proofs.Text.Order

/-!
# Comparisons against one another

The operators for order read what `compare` finds, the operators for equality ask `Slot.equal`. Where
`compare` finds that two values are the same it agrees with equality, with one exception: a float that is
not a number is equal to nothing, but compares as the same with every number. So the six operators agree
with each other on all pairs without such a float, and on no pair with one.
-/

namespace Lightboard.Operator

/-- An operator gives this truth value. -/
def Answers (op : Operator) (a b : Slot) (r : Bool) : Prop := binary op a b = .ok (some (.bool r))

/-- Both sides read as floats, and one of the two is not a number. -/
def Unordered (a b : Slot) : Prop :=
  ∃ x y, Slot.number? a = some x ∧ Slot.number? b = some y ∧ (x.isNaN = true ∨ y.isNaN = true)

theorem numbers_order (x y : Float) :
    (if x < y then Ordering.lt else if y < x then .gt else .eq) = (Number.order? x y).getD .eq := by
  simp only [Number.lt_iff_order?, Number.order?_swap x y]
  cases Number.order? x y with
  | none => rfl
  | some o => cases o <;> rfl

/-- The order of two texts. -/
def textOrder (s t : Text) : Ordering :=
  if Text.before s t then .lt else if Text.before t s then .gt else .eq

theorem textOrder_swap (s t : Text) : textOrder t s = (textOrder s t).swap := by
  have asymmetric (less : s < t) : ¬ t < s := List.lt_asymm less
  by_cases less : s < t
  · simp [textOrder, Text.before, less, asymmetric less]
  · by_cases more : t < s
    · simp [textOrder, Text.before, less, more]
    · simp [textOrder, Text.before, less, more]

theorem textOrder_eq_iff (s t : Text) : textOrder s t = .eq ↔ s = t := by
  constructor
  · intro same
    by_cases more : t < s
    · simp [textOrder, Text.before, more, List.lt_asymm more] at same
    · by_cases different : s = t
      · exact different
      · have less := Text.lt_of_not_lt_of_ne more different
        simp [textOrder, Text.before, less] at same
  · rintro rfl
    simp [textOrder, Text.before, List.lt_irrefl]

/-- Two numbers or two texts are compared, and nothing else. -/
theorem compare_cases {a b : Slot} {o : Ordering} (h : compare a b = .ok o) :
    (∃ x y, Slot.number? a = some x ∧ Slot.number? b = some y ∧ o = (Number.order? x y).getD .eq) ∨
      ∃ s t, a = some (.str s) ∧ b = some (.str t) ∧ o = textOrder s t := by
  unfold compare at h
  split at h
  · next x y left right =>
    exact .inl ⟨x, y, left, right, (numbers_order x y).symm ▸ (Except.ok.inj h).symm⟩
  · split at h
    · next s t _ => exact .inr ⟨_, _, rfl, rfl, (Except.ok.inj h).symm⟩
    · cases h

theorem compare_numbers {a b : Slot} {x y : Float} (left : Slot.number? a = some x)
    (right : Slot.number? b = some y) : compare a b = .ok ((Number.order? x y).getD .eq) := by
  unfold compare
  rw [left, right, ← numbers_order]

theorem compare_texts (s t : Text) :
    compare (some (.str s)) (some (.str t)) = .ok (textOrder s t) := rfl

/-- Turning the operands around turns the order around. -/
theorem compare_swap {a b : Slot} {o : Ordering} (h : compare a b = .ok o) :
    compare b a = .ok o.swap := by
  obtain ⟨x, y, left, right, rfl⟩ | ⟨s, t, rfl, rfl, rfl⟩ := compare_cases h
  · rw [compare_numbers right left, Number.order?_swap x y]
    cases Number.order? x y <;> rfl
  · rw [compare_texts, textOrder_swap s t]

theorem equal_numbers {a b : Slot} {x y : Float} (left : Slot.number? a = some x)
    (right : Slot.number? b = some y) : Slot.equal a b = (x == y) := by
  cases a with
  | none => cases left
  | some v =>
      cases b with
      | none => cases right
      | some w =>
          change v.number? = some x at left
          change w.number? = some y at right
          rw [Slot.equal, Value.equal, left, right]

/-- Away from floats that are not numbers, being the same in the order is equality. -/
theorem equal_iff_compare {a b : Slot} {o : Ordering} (h : compare a b = .ok o)
    (ordered : ¬ Unordered a b) : Slot.equal a b = (o == .eq) := by
  rw [Bool.eq_iff_iff]
  obtain ⟨x, y, left, right, rfl⟩ | ⟨s, t, rfl, rfl, rfl⟩ := compare_cases h
  · rw [equal_numbers left right, Number.beq_iff_order?]
    cases found : Number.order? x y with
    | none => exact absurd ⟨x, y, left, right, (Number.order?_eq_none_iff x y).mp found⟩ ordered
    | some o => simp
  · rw [beq_iff_eq, textOrder_eq_iff]
    exact beq_iff_eq

/-- With a float that is not a number both sides count as the same place and as different values. -/
theorem compare_of_unordered {a b : Slot} (unordered : Unordered a b) :
    compare a b = .ok .eq ∧ Slot.equal a b = false := by
  obtain ⟨x, y, left, right, notNumber⟩ := unordered
  have none := (Number.order?_eq_none_iff x y).mpr notNumber
  refine ⟨by rw [compare_numbers left right, none]; rfl, ?_⟩
  rw [equal_numbers left right, Bool.eq_false_iff]
  intro same
  rw [Number.beq_iff_order?, none] at same
  cases same

theorem compare_ok_iff (a b : Slot) :
    (∃ o, compare a b = .ok o) ↔
      ((Slot.number? a).isSome ∧ (Slot.number? b).isSome) ∨
        ∃ s t, a = some (.str s) ∧ b = some (.str t) := by
  constructor
  · rintro ⟨o, h⟩
    obtain ⟨x, y, left, right, -⟩ | ⟨s, t, rfl, rfl, -⟩ := compare_cases h
    · exact .inl ⟨by rw [left]; rfl, by rw [right]; rfl⟩
    · exact .inr ⟨s, t, rfl, rfl⟩
  · rintro (⟨left, right⟩ | ⟨s, t, rfl, rfl⟩)
    · obtain ⟨x, left⟩ := Option.isSome_iff_exists.mp left
      obtain ⟨y, right⟩ := Option.isSome_iff_exists.mp right
      exact ⟨_, compare_numbers left right⟩
    · exact ⟨_, compare_texts s t⟩

/-- The operators that read the order of their operands. -/
def IsOrdering (op : Operator) : Prop := op = .lt ∨ op = .lteq ∨ op = .gt ∨ op = .gteq

theorem binary_ordering {op : Operator} (ordering : op.IsOrdering) (a b : Slot) :
    binary op a b = comparison op a b := by
  obtain rfl | rfl | rfl | rfl := ordering <;> rfl

theorem answers_ordering {op : Operator} (ordering : op.IsOrdering) {a b : Slot} {o : Ordering}
    (h : compare a b = .ok o) : Answers op a b (holds op o) := by
  rw [Answers, binary_ordering ordering, comparison, h]

theorem ordering_error_iff {op : Operator} (ordering : op.IsOrdering) (a b : Slot) (e : RunError) :
    binary op a b = .error e ↔ compare a b = .error e := by
  rw [binary_ordering ordering, comparison]
  cases compare a b <;> simp

/-- Where the ordering operators have an answer, so has every comparison, and the answers are those of
one order. The laws that tie the order to equality hold just for the pairs without a float that is
not a number. -/
theorem comparisons_consistent_iff (a b : Slot) :
    ((∃ v, binary .lt a b = .ok v) ↔
      ((Slot.number? a).isSome ∧ (Slot.number? b).isSome) ∨
        ∃ s t, a = some (.str s) ∧ b = some (.str t)) ∧
    (∀ op : Operator, op.IsOrdering → ∀ e, binary op a b = .error e ↔ binary .lt a b = .error e) ∧
    ∀ v, binary .lt a b = .ok v → ∃ lt eq gt lteq gteq : Bool,
      Answers .lt a b lt ∧ Answers .eq a b eq ∧ Answers .gt a b gt ∧
      Answers .lteq a b lteq ∧ Answers .gteq a b gteq ∧
      Answers .noteq a b (!eq) ∧ Answers .gt b a lt ∧
      ([lt, eq, gt].count true = 1 ↔ ¬ Unordered a b) ∧
      (lteq = (lt || eq) ↔ ¬ Unordered a b) ∧
      (gteq = (gt || eq) ↔ ¬ Unordered a b) := by
  have lt : IsOrdering .lt := .inl rfl
  have lteq : IsOrdering .lteq := .inr (.inl rfl)
  have gt : IsOrdering .gt := .inr (.inr (.inl rfl))
  have gteq : IsOrdering .gteq := .inr (.inr (.inr rfl))
  refine ⟨?_, ?_, ?_⟩
  · rw [← compare_ok_iff, binary_ordering lt, comparison]
    cases compare a b <;> simp
  · intro op ordering e
    rw [ordering_error_iff ordering, ordering_error_iff lt]
  · intro v succeeded
    obtain ⟨o, compared⟩ : ∃ o, compare a b = .ok o := by
      rw [binary_ordering lt, comparison] at succeeded
      cases found : compare a b with
      | error e =>
          rw [found] at succeeded
          cases succeeded
      | ok o => exact ⟨o, rfl⟩
    have turned : Answers .gt b a (holds .lt o) := by
      have answer := answers_ordering gt (compare_swap compared)
      cases o <;> exact answer
    refine ⟨holds .lt o, Slot.equal a b, holds .gt o, holds .lteq o, holds .gteq o,
      answers_ordering lt compared, rfl, answers_ordering gt compared, answers_ordering lteq compared,
      answers_ordering gteq compared, rfl, turned, ?_⟩
    by_cases unordered : Unordered a b
    · obtain ⟨same, different⟩ := compare_of_unordered unordered
      obtain rfl := Except.ok.inj (same.symm.trans compared)
      simp [unordered, different, holds]
    · rw [equal_iff_compare compared unordered]
      cases o <;> simp [unordered, holds]

/-- A truth value compares with a number as the number it stands for. What is not a number is neither
below one nor equal to it, and yet at most one. -/
theorem notANumber_disagrees :
    (∃ lt eq gt lteq : Bool,
      Answers .lt (some (.bool true)) (some (.number 0.5)) lt ∧
      Answers .eq (some (.bool true)) (some (.number 0.5)) eq ∧
      Answers .gt (some (.bool true)) (some (.number 0.5)) gt ∧
      Answers .lteq (some (.bool true)) (some (.number 0.5)) lteq ∧
      [lt, eq, gt].count true = 1 ∧ lteq = (lt || eq)) ∧
    ∃ lt eq lteq : Bool,
      Answers .lt (some (.number Number.notANumber)) (some (.number 1)) lt ∧
      Answers .eq (some (.number Number.notANumber)) (some (.number 1)) eq ∧
      Answers .lteq (some (.number Number.notANumber)) (some (.number 1)) lteq ∧
      lteq ≠ (lt || eq) := by
  constructor
  · obtain ⟨domain, -, laws⟩ := comparisons_consistent_iff (some (.bool true)) (some (.number 0.5))
    have ordered : ¬ Unordered (some (.bool true)) (some (.number 0.5)) := by
      rintro ⟨x, y, left, right, notNumber⟩
      obtain rfl := Option.some.inj left
      obtain rfl := Option.some.inj right
      revert notNumber
      decide +kernel
    obtain ⟨v, compared⟩ := domain.mpr (.inl ⟨rfl, rfl⟩)
    obtain ⟨lt, eq, gt, lteq, -, less, same, more, atMost, -, -, -, one, joined, -⟩ := laws v compared
    exact ⟨lt, eq, gt, lteq, less, same, more, atMost, one.mpr ordered, joined.mpr ordered⟩
  · obtain ⟨domain, -, laws⟩ :=
      comparisons_consistent_iff (some (.number Number.notANumber)) (some (.number 1))
    have unordered : Unordered (some (.number Number.notANumber)) (some (.number 1)) :=
      ⟨_, _, rfl, rfl, .inl (by decide +kernel)⟩
    obtain ⟨v, compared⟩ := domain.mpr (.inl ⟨rfl, rfl⟩)
    obtain ⟨lt, eq, -, lteq, -, less, same, -, atMost, -, -, -, -, joined, -⟩ := laws v compared
    exact ⟨lt, eq, lteq, less, same, atMost, fun law => joined.mp law unordered⟩

end Lightboard.Operator
