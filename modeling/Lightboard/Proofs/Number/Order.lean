import Lightboard.Number.Binary64

/-!
# The order of floats

Two floats that are numbers stand in exactly one of three relations, and turning the pair around turns
the relation around. A float that is not a number stands in none of them, not even to itself.
-/

namespace Lightboard.Number

open Float.Model Float.Model.UnpackedFloat

/-- How two floats compare; nothing if one of them is not a number. -/
def order? (x y : Float) : Option Ordering := x.toModel.unpack.compare y.toModel.unpack

theorem lt_iff_order? (x y : Float) : x < y ↔ order? x y = some .lt := by
  change decide (((order? x y) == some .lt) = true) = true ↔ _
  rw [decide_eq_true_iff, beq_iff_eq]

theorem beq_iff_order? (x y : Float) : (x == y) = true ↔ order? x y = some .eq := by
  change ((order? x y) == some .eq) = true ↔ _
  rw [beq_iff_eq]

theorem compare_sign_swap (s t : Sign) : compare t s = (compare s t).swap := by
  cases s <;> cases t <;> rfl

/-- Exponents decide before mantissas, in either direction. -/
theorem compare_parts_swap (e f : Int) (m n : Nat) :
    (compare f e).then (compare n m) = ((compare e f).then (compare m n)).swap := by
  rw [Ordering.swap_then, Int.compare_swap, Nat.compare_swap]

theorem order?_swap (x y : Float) : order? y x = (order? x y).map Ordering.swap := by
  unfold order?
  generalize x.toModel.unpack = u
  generalize y.toModel.unpack = v
  cases u with
  | notANumber => cases v <;> rfl
  | infinity s =>
      cases v with
      | infinity t => exact congrArg some (compare_sign_swap s t)
      | _ => cases s <;> rfl
  | zero s =>
      cases v with
      | infinity t => cases t <;> rfl
      | finite t => cases t <;> rfl
      | _ => rfl
  | finite s m e =>
      cases v with
      | finite t n f =>
          have parts := compare_parts_swap e f m n
          cases s <;> cases t
          · exact congrArg (fun o => some o.swap) parts
          · rfl
          · rfl
          · exact congrArg some parts
      | notANumber => rfl
      | infinity t => cases t <;> rfl
      | zero t => cases s <;> rfl

/-- Whatever is a number compares with whatever is a number. -/
theorem compare_ne_none {u v : UnpackedFloat} (left : u ≠ .notANumber) (right : v ≠ .notANumber) :
    u.compare v ≠ none := by
  cases u with
  | notANumber => exact absurd rfl left
  | _ s =>
      cases v with
      | notANumber => exact absurd rfl right
      | _ t => cases s <;> cases t <;> nofun

theorem isNaN_iff (x : Float) : x.isNaN = true ↔ x.toModel.unpack = .notANumber := by
  change x.toModel.unpack.isNaN = true ↔ _
  cases x.toModel.unpack with
  | notANumber => exact iff_of_true rfl rfl
  | _ => exact iff_of_false Bool.false_ne_true nofun

theorem order?_eq_none_iff (x y : Float) : order? x y = none ↔ x.isNaN = true ∨ y.isNaN = true := by
  rw [isNaN_iff, isNaN_iff, order?]
  constructor
  · intro unordered
    refine Classical.byContradiction fun numbers => ?_
    obtain ⟨left, right⟩ := not_or.mp numbers
    exact compare_ne_none left right unordered
  · rintro (left | right)
    · rw [left]
      rfl
    · rw [right]
      cases x.toModel.unpack <;> rfl

/-- Only a float with itself compares as the same, and one zero with the other. -/
theorem compare_eq_some_eq {u v : UnpackedFloat} (same : u.compare v = some .eq) :
    u = v ∨ ∃ s t, u = .zero s ∧ v = .zero t := by
  cases u with
  | notANumber => cases v <;> cases same
  | infinity s =>
      cases v with
      | infinity t => cases s <;> cases t <;> first | exact .inl rfl | cases same
      | _ => cases s <;> cases same
  | zero s =>
      cases v with
      | zero t => exact .inr ⟨s, t, rfl, rfl⟩
      | notANumber => cases same
      | infinity t => cases t <;> cases same
      | finite t => cases t <;> cases same
  | finite s m e =>
      cases v with
      | finite t n f =>
          have parts (h : (compare e f).then (compare m n) = .eq) : e = f ∧ m = n := by
            obtain ⟨exponents, mantissas⟩ := Ordering.then_eq_eq.mp h
            exact ⟨Int.compare_eq_eq.mp exponents, Nat.compare_eq_eq.mp mantissas⟩
          cases s <;> cases t
          · obtain ⟨rfl, rfl⟩ := parts (Ordering.swap_eq_eq.mp (Option.some.inj same))
            exact .inl rfl
          · cases same
          · cases same
          · obtain ⟨rfl, rfl⟩ := parts (Option.some.inj same)
            exact .inl rfl
      | notANumber => cases same
      | infinity t => cases t <;> cases same
      | zero t => cases s <;> cases same

theorem beq_symm (x y : Float) : (x == y) = (y == x) := by
  rw [Bool.eq_iff_iff, beq_iff_order?, beq_iff_order?, order?_swap x y]
  cases order? x y with
  | none => simp
  | some o => cases o <;> simp

theorem beq_trans {x y z : Float} (first : (x == y) = true) (second : (y == z) = true) :
    (x == z) = true := by
  rw [beq_iff_order?] at first second ⊢
  unfold order? at first second ⊢
  obtain same | ⟨s, t, left, right⟩ := compare_eq_some_eq first
  · rwa [same]
  · obtain same | ⟨-, u, -, last⟩ := compare_eq_some_eq second
    · rwa [← same]
    · rw [left, last]
      rfl

/-- A float is the same as itself unless it is not a number. -/
theorem beq_self_eq_false_iff (x : Float) : (x == x) = false ↔ x.isNaN = true := by
  rw [Bool.eq_false_iff, ne_eq, beq_iff_order?, ← or_self_iff (a := x.isNaN = true),
    ← order?_eq_none_iff]
  have swapped := order?_swap x x
  cases found : order? x x with
  | none => simp
  | some o =>
      rw [found] at swapped
      cases o <;> simp_all

end Lightboard.Number
