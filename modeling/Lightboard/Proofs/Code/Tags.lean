import Lightboard.Code.OpCode
import Lightboard.Code.Tag
import Mathlib

/-!
# Codes of tags and op-codes

A tag has a code of one byte and is found again by it, also if it has no name. The same goes for
op-codes.
-/

namespace Lightboard

/-- A code is a place in the list of the named ones, or counts on from its end. -/
theorem found_by_code {α : Type} (named : List α) {size : Nat} [NeZero size]
    (unnamed : Fin size → α)
    {x : α} {code : Nat} (total : named.length + size = 256)
    (place : named[code]? = some x ∨ ∃ past, x = unnamed past ∧ code = named.length + past) :
    code < 256 ∧
      named.getD (UInt8.ofNat code).toNat
        (unnamed (Fin.ofNat size ((UInt8.ofNat code).toNat - named.length))) = x := by
  have small : code < 256 := by
    obtain within | ⟨past, -, rfl⟩ := place
    · have := (List.getElem?_eq_some_iff.1 within).1
      omega
    · have := past.isLt
      omega
  have byte : (UInt8.ofNat code).toNat = code := UInt8.toNat_ofNat_of_lt small
  refine ⟨small, ?_⟩
  rw [byte, List.getD_eq_getElem?_getD]
  obtain within | ⟨past, rfl, rfl⟩ := place
  · rw [within]
    rfl
  · rw [List.getElem?_eq_none (by omega), Nat.add_sub_cancel_left, Option.getD_none]
    congr
    exact Fin.ext (Nat.mod_eq_of_lt past.isLt)

theorem Register.ofCode_code (r : Register) :
    r.code < 256 ∧ Register.ofCode (UInt8.ofNat r.code) = r := by
  refine found_by_code Register.named .unnamed rfl ?_
  cases r with
  | unnamed past => exact .inr ⟨past, rfl, rfl⟩
  | _ => exact .inl rfl

theorem Operator.ofCode_code (o : Operator) :
    o.code < 256 ∧ Operator.ofCode (UInt8.ofNat o.code) = o := by
  refine found_by_code Operator.named .unnamed rfl ?_
  cases o with
  | unnamed past => exact .inr ⟨past, rfl, rfl⟩
  | _ => exact .inl rfl

theorem JumpCondition.ofCode_code (c : JumpCondition) :
    c.code < 256 ∧ JumpCondition.ofCode (UInt8.ofNat c.code) = c := by
  refine found_by_code JumpCondition.named .unnamed rfl ?_
  cases c with
  | unnamed past => exact .inr ⟨past, rfl, rfl⟩
  | _ => exact .inl rfl

theorem Operand.ofCode_code (o : Operand) :
    o.code < 256 ∧ Operand.ofCode (UInt8.ofNat o.code) = o := by
  refine found_by_code Operand.named .unnamed rfl ?_
  cases o with
  | unnamed past => exact .inr ⟨past, rfl, rfl⟩
  | _ => exact .inl rfl

theorem UnitMode.ofCode_code (m : UnitMode) :
    m.code < 256 ∧ UnitMode.ofCode (UInt8.ofNat m.code) = m := by
  refine found_by_code UnitMode.named .unnamed rfl ?_
  cases m with
  | unnamed past => exact .inr ⟨past, rfl, rfl⟩
  | _ => exact .inl rfl

theorem IoOp.ofCode_code (o : IoOp) :
    o.code < 256 ∧ IoOp.ofCode (UInt8.ofNat o.code) = o := by
  refine found_by_code IoOp.named .unnamed rfl ?_
  cases o with
  | unnamed past => exact .inr ⟨past, rfl, rfl⟩
  | _ => exact .inl rfl

theorem SetOp.ofCode_code (o : SetOp) :
    o.code < 256 ∧ SetOp.ofCode (UInt8.ofNat o.code) = o := by
  refine found_by_code SetOp.named .unnamed rfl ?_
  cases o with
  | unnamed past => exact .inr ⟨past, rfl, rfl⟩
  | _ => exact .inl rfl

theorem OpCode.ofCode_code (op : OpCode) :
    op.code < 256 ∧ OpCode.ofCode (UInt8.ofNat op.code) = op := by
  refine found_by_code OpCode.named .unnamed rfl ?_
  cases op with
  | unnamed past => exact .inr ⟨past, rfl, rfl⟩
  | _ => exact .inl rfl

/-- The op-codes with a mnemonic come first. -/
theorem OpCode.mem_named_iff (op : OpCode) : op ∈ OpCode.named ↔ op.code < OpCode.named.length := by
  cases op with
  | unnamed past => simp [OpCode.named, OpCode.code]
  | _ => decide

theorem OpCode.ofCode_mem_named {b : UInt8} (small : b.toNat < OpCode.named.length) :
    OpCode.ofCode b ∈ OpCode.named := by
  unfold OpCode.ofCode
  rw [List.getD_eq_getElem?_getD, List.getElem?_eq_getElem small]
  exact List.getElem_mem small

end Lightboard
