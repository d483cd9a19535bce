import Lightboard.Machine.Error
import Lightboard.Table

/-!
# Calls and loops

Variables live in the scopes of call frames. The root frame holds the global ones and is never popped;
a call pushes the frame whose parameters were staged before it. A loop opens inside a call frame and
shares its scope, and has tokens of its own that are seen only while it is the innermost loop of the
innermost frame.

`CallStack.frames` is the stack as a list of frames, loops included.
-/

namespace Lightboard

/-- Variables by name. -/
abbrev Scope := Table Text Slot

/-- The tokens of a loop. -/
abbrev Tokens := Table Int Slot

/-- A call frame with the loops open in it, the innermost first. -/
structure CallFrame where
  scope : Scope := {}
  returnAddr : Int := 0
  loops : List Tokens := []

/-- The call stack. -/
structure CallStack where
  /-- The frame of the global variables. -/
  root : CallFrame := {}
  /-- The frames of calls, the innermost first. -/
  calls : List CallFrame := []
  /-- Parameters staged for the next call. -/
  stagedScope : Scope := {}
  /-- The return address of the next call. -/
  stagedReturn : Int := 0
  constants : Table Text Slot := {}

namespace CallStack

/-- The frame that runs. -/
def innermost (s : CallStack) : CallFrame := s.calls.headD s.root

/-- The stack with another frame in place of the one that runs. -/
def setInnermost (s : CallStack) (f : CallFrame) : CallStack :=
  match s.calls with
  | [] => { s with root := f }
  | _ :: rest => { s with calls := f :: rest }

/-- One frame of the stack as a list. -/
inductive Frame where
  | globals (scope : Scope)
  | call (scope : Scope) (returnAddr : Int)
  | loop (tokens : Tokens)

/-- The frames, from the root on. -/
def frames (s : CallStack) : List Frame :=
  .globals s.root.scope :: s.root.loops.reverse.map .loop ++
    s.calls.reverse.flatMap fun f => .call f.scope f.returnAddr :: f.loops.reverse.map .loop

/-- The number of frames, loops included. -/
def depth (s : CallStack) : Nat := s.frames.length

/-- The number of call frames, the root included. -/
def callDepth (s : CallStack) : Nat := s.calls.length + 1

/-- Whether a loop is open in the frame that runs. -/
def inLoop (s : CallStack) : Bool := !s.innermost.loops.isEmpty

/-- Stages a parameter for the next call. -/
def putParam (s : CallStack) (name : Text) (v : Slot) : CallStack :=
  { s with stagedScope := s.stagedScope.insert name v }

/-- Defines a constant; the first definition of a name stays. -/
def putConstant (s : CallStack) (name : Text) (v : Slot) : CallStack :=
  if s.constants.contains name then s else { s with constants := s.constants.insert name v }

/-- Writes a variable: a global one if there is one of that name, else one of the frame that runs. -/
def putName (s : CallStack) (name : Text) (v : Slot) : CallStack :=
  if s.root.scope.contains name then
    { s with root := { s.root with scope := s.root.scope.insert name v } }
  else
    let f := s.innermost
    s.setInnermost { f with scope := f.scope.insert name v }

/-- Reads a name: a constant, else a variable of the frame that runs, else a global one. -/
def getName (s : CallStack) (name : Text) : Option Slot :=
  s.constants.get? name <|> s.innermost.scope.get? name <|> s.root.scope.get? name

/-- Writes a token of the innermost loop. -/
def putToken (s : CallStack) (n : Int) (v : Slot) : Except Fault CallStack :=
  let f := s.innermost
  match f.loops with
  | [] => .error (.loopVarOutside n)
  | l :: rest => .ok (s.setInnermost { f with loops := l.insert n v :: rest })

/-- Reads a token of the innermost loop. -/
def getToken (s : CallStack) (n : Int) : Option Slot :=
  match s.innermost.loops with
  | [] => none
  | l :: _ => l.get? n

/-- Writes through what names a variable. -/
def putVariable (s : CallStack) (token : Slot) (v : Slot) : Except Fault CallStack :=
  match token with
  | some (.loopVar n) => s.putToken n v
  | some (.symbol name) => .ok (s.putName name v)
  | some (.str name) => .ok (s.putName name v)
  | _ => .error (.variableToken token)

/-- Reads through what names a variable. -/
def getVariable (s : CallStack) (token : Slot) : Option Slot :=
  match token with
  | some (.loopVar n) => s.getToken n
  | some (.symbol name) => s.getName name
  | some (.str name) => s.getName name
  | _ => none

/-- Whether the frame that runs has a variable of a name. -/
def isParam (s : CallStack) (name : Text) : Bool := s.innermost.scope.contains name

def setReturn (s : CallStack) (addr : Int) : CallStack := { s with stagedReturn := addr }

/-- The return address of the frame that runs. -/
def getReturn (s : CallStack) : Int := s.innermost.returnAddr

/-- Makes the staged frame the one that runs. -/
def push (s : CallStack) : CallStack :=
  { s with
    calls := { scope := s.stagedScope, returnAddr := s.stagedReturn } :: s.calls
    stagedScope := {}
    stagedReturn := 0 }

/-- Drops the frame that runs, and with it whatever was staged. -/
def pop (s : CallStack) : Except Fault CallStack :=
  if s.inLoop then .error .loopStillOpen
  else
    match s.calls with
    | [] => .error .callStackUnderrun
    | _ :: rest => .ok { s with calls := rest, stagedScope := {}, stagedReturn := 0 }

def enterLoop (s : CallStack) : CallStack :=
  let f := s.innermost
  s.setInnermost { f with loops := {} :: f.loops }

def exitLoop (s : CallStack) : Except Fault CallStack :=
  let f := s.innermost
  match f.loops with
  | [] => .error .noLoop
  | _ :: rest => .ok (s.setInnermost { f with loops := rest })

/-- Leaves all loops of the frame that runs. -/
def unwindLoops (s : CallStack) : CallStack := s.setInnermost { s.innermost with loops := [] }

/-- Variables in the order of their names, a line each. -/
def shownScope (t : Table Text Slot) : Text :=
  (t.entries.mergeSort fun a b => Text.atMost a.1 b.1).flatMap fun (k, v) =>
    Text.concat ["    ", k, " = ", Slot.shown v, "\n"]

/-- Tokens, a line each. No order of the lines is promised; here they are in ascending order. -/
def shownTokens (t : Tokens) : Text :=
  Text.concat <| Text.sorted <| t.entries.map fun (n, v) =>
    Text.concat ["    ", (Value.loopVar n).text, " = ", Slot.shown v, "\n"]

def shownVariables (scope : Scope) : Text :=
  if scope.entries.isEmpty then "    (none)\n" else shownScope scope

/-- A frame, which stands at `index` of the list. -/
def shownFrame (index : Nat) : Frame → Text
  | .globals scope => Text.concat ["  Globals:\n", shownVariables scope]
  | .loop tokens => Text.concat ["  Frame ", Text.ofNat index, " (loop):\n", shownTokens tokens]
  | .call scope returnAddr =>
    Text.concat
      ["  Frame ", Text.ofNat index, " (return ", Text.ofInt returnAddr, "):\n",
       shownVariables scope]

/-- The whole stack: its depth, the constants and the frames. -/
def shown (s : CallStack) : Text :=
  Text.concat
    ["Call Stack: depth ", Text.ofNat s.depth, "\n",
     if s.constants.entries.isEmpty then []
     else Text.concat ["  Constants:\n", shownScope s.constants],
     s.frames.zipIdx.flatMap fun (f, i) => shownFrame i f]

end CallStack

end Lightboard
