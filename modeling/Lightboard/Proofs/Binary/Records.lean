import Lightboard.Binary.Wire
import Lightboard.Proofs.Binary.Packed

/-!
# Stored records are read back

The records of a stored program are read from the bytes they are written to, whatever record they
are read over. A text or a list may be as long as its length can be written.
-/

namespace Lightboard.Wire

open Pack

/-- A length that can be written. -/
def FitsLength (n : Nat) : Prop := n < 2 ^ 32

instance (n : Nat) : Decidable (FitsLength n) := inferInstanceAs (Decidable (n < 2 ^ 32))

namespace Operand

theorem readOver_bytes (before : Operand) {w : Operand} (small : FitsLength w.str.length) :
    Reads before.readOver w.bytes w := by
  refine readRecord_writeRecord (by simp) ?_
  refine readFields_cons (if_pos rfl) (by decide) (readByte_writeNat w.kind) ?_
  refine readFields_cons ((if_neg (by decide)).trans (if_pos rfl)) (by decide)
    (readFloat_writeFloat w.num) ?_
  refine readFields_cons ((if_neg (by decide)).trans ((if_neg (by decide)).trans (if_pos rfl)))
    (by decide) (readText_writeText small) ?_
  exact readFields_nil _ _

end Operand

namespace Instruction

theorem read_bytes {w : Instruction} (first : FitsLength w.first.str.length)
    (second : FitsLength w.second.str.length) : Reads Instruction.read w.bytes w := by
  refine readRecord_writeRecord (by simp) ?_
  refine readFields_cons (if_pos rfl) (by decide) (readByte_writeNat w.op) ?_
  refine readFields_cons ((if_neg (by decide)).trans (if_pos rfl)) (by decide)
    (Operand.readOver_bytes _ first) ?_
  refine readFields_cons ((if_neg (by decide)).trans ((if_neg (by decide)).trans (if_pos rfl)))
    (by decide) (Operand.readOver_bytes _ second) ?_
  exact readFields_nil _ _

end Instruction

namespace Routine

theorem read_bytes {w : Routine} (name : FitsLength w.name.length)
    (entry : Number.FitsWord w.entry) : Reads Routine.read w.bytes w := by
  refine readRecord_writeRecord (by simp) ?_
  refine readFields_cons (if_pos rfl) (by decide) (readText_writeText name) ?_
  refine readFields_cons ((if_neg (by decide)).trans (if_pos rfl)) (by decide)
    (readInt_writeInt entry) ?_
  exact readFields_nil _ _

end Routine

namespace Program

/-- A record of a program whose lengths and entries can be written. -/
structure Fits (w : Program) : Prop where
  name : FitsLength w.name.length
  code : FitsLength w.code.length
  routines : FitsLength w.routines.length
  operands : ∀ i ∈ w.code, FitsLength i.first.str.length ∧ FitsLength i.second.str.length
  entries : ∀ r ∈ w.routines, FitsLength r.name.length ∧ Number.FitsWord r.entry

theorem read_bytes {w : Program} (fits : w.Fits) : Reads Program.read w.bytes w := by
  refine readRecord_writeRecord (by simp) ?_
  refine readFields_cons (if_pos rfl) (by decide) (readText_writeText fits.name) ?_
  refine readFields_cons ((if_neg (by decide)).trans (if_pos rfl)) (by decide)
    (readList_writeList _ fits.code fun i member =>
      Instruction.read_bytes (fits.operands i member).1 (fits.operands i member).2) ?_
  refine readFields_cons ((if_neg (by decide)).trans ((if_neg (by decide)).trans (if_pos rfl)))
    (by decide) (readList_writeList _ fits.routines fun r member =>
      Routine.read_bytes (fits.entries r member).1 (fits.entries r member).2) ?_
  exact readFields_nil _ _

end Program

end Lightboard.Wire
