import Lightboard.Text.Basic

/-!
# Op-codes

The twenty-eight instructions of the machine, with their mnemonics and codes. A program that was
built by hand can carry a code that names no instruction, so the codes from 28 to 255 are op-codes
too, without a mnemonic.
-/

namespace Lightboard

/-- What an instruction does. -/
inductive OpCode where
  /-- `NOP`: does nothing. -/
  | nop
  /-- `BREAKPOINT`: records the state of the machine. -/
  | breakpoint
  /-- `COLOR`: sets the color of the addressed lights. -/
  | color
  /-- `CONSTANT`: defines a constant; the first definition stays. -/
  | constant
  /-- `DISC`: finds the first name of a kind. -/
  | disc
  /-- `DISCM`: finds the first zone of a light. -/
  | discZone
  /-- `DNEXT`: finds the name after the current one. -/
  | discNext
  /-- `DNEXTM`: finds the zone after the current one. -/
  | discNextZone
  /-- `END`: leaves the open loops and returns from the routine. -/
  | ret
  /-- `END_LOOP`: leaves a loop. -/
  | endLoop
  /-- `GET_COLOR`: reads a light into the color registers. -/
  | getColor
  /-- `JSR`: calls a routine. -/
  | call
  /-- `JUMP`: jumps, by an offset or to an address. -/
  | jump
  /-- `LOOP`: enters a loop. -/
  | loop
  /-- `MOVE`: copies a value. -/
  | move
  /-- `MOVEQ`: stores the operand itself. -/
  | moveLiteral
  /-- `OP`: applies an operator to the operand stack. -/
  | apply
  /-- `OUT`: buffers and prints output. -/
  | out
  /-- `PARAM`: stages a parameter for the next call. -/
  | param
  /-- `PAUSE`: waits for a key. -/
  | pause
  /-- `POP`: stores the top of the operand stack. -/
  | pop
  /-- `POWER`: sets the power of the addressed lights. -/
  | power
  /-- `PUSH`: pushes a value. -/
  | push
  /-- `PUSHQ`: pushes the operand itself. -/
  | pushLiteral
  /-- `ROUTINE`: marks the entry of a routine. -/
  | routine
  /-- `STOP`: halts. -/
  | stop
  /-- `TIME_PATTERN`: sets or extends the time pattern. -/
  | timePattern
  /-- `WAIT`: waits for a time or until a pattern matches. -/
  | wait
  /-- A code that names no instruction, counted from the first such code. -/
  | unnamed (past : Fin 228)
  deriving DecidableEq, Repr

namespace OpCode

/-- The instructions in the order of their codes. -/
def named : List OpCode :=
  [.nop, .breakpoint, .color, .constant, .disc, .discZone, .discNext, .discNextZone, .ret,
   .endLoop, .getColor, .call, .jump, .loop, .move, .moveLiteral, .apply, .out, .param, .pause, .pop,
   .power, .push, .pushLiteral, .routine, .stop, .timePattern, .wait]

/-- The name an instruction is written with. -/
def mnemonic? : OpCode → Option String
  | .nop => some "NOP"
  | .breakpoint => some "BREAKPOINT"
  | .color => some "COLOR"
  | .constant => some "CONSTANT"
  | .disc => some "DISC"
  | .discZone => some "DISCM"
  | .discNext => some "DNEXT"
  | .discNextZone => some "DNEXTM"
  | .ret => some "END"
  | .endLoop => some "END_LOOP"
  | .getColor => some "GET_COLOR"
  | .call => some "JSR"
  | .jump => some "JUMP"
  | .loop => some "LOOP"
  | .move => some "MOVE"
  | .moveLiteral => some "MOVEQ"
  | .apply => some "OP"
  | .out => some "OUT"
  | .param => some "PARAM"
  | .pause => some "PAUSE"
  | .pop => some "POP"
  | .power => some "POWER"
  | .push => some "PUSH"
  | .pushLiteral => some "PUSHQ"
  | .routine => some "ROUTINE"
  | .stop => some "STOP"
  | .timePattern => some "TIME_PATTERN"
  | .wait => some "WAIT"
  | .unnamed _ => none

def code : OpCode → Nat
  | .unnamed past => 28 + past
  | op => named.idxOf op

/-- The op-code of a byte. -/
def ofCode (n : UInt8) : OpCode :=
  named.getD n.toNat (.unnamed (Fin.ofNat 228 (n.toNat - 28)))

/-- Looks an instruction up by its mnemonic, which is in upper case. -/
def ofMnemonic? (t : Text) : Option OpCode :=
  named.find? fun op => op.mnemonic?.any fun m => Text.ofString m == t

/-- Whether the program counter moves on by one after the instruction. Calls, returns and jumps set
it themselves. -/
def advances : OpCode → Bool
  | .ret | .call | .jump => false
  | _ => true

/-- How an op-code stands in a message. A code without a mnemonic leaves a note about the failed
attempt to name it. -/
def inMessage (op : OpCode) : Text :=
  match op.mnemonic? with
  | some m => m
  | none => "%!s(PANIC=String method: Unnamed opcode)"

theorem ofMnemonic?_mnemonic {op : OpCode} {m : String} (h : op.mnemonic? = some m) :
    ofMnemonic? m = some op := by
  cases op <;> simp only [mnemonic?, Option.some.injEq, reduceCtorEq] at h <;> subst h <;> rfl

end OpCode

end Lightboard
