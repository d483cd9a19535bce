import Lightboard.Number.Read
import Lightboard.Text.Quoted

/-!
# Flags on a command line

Two conventions. In the first, long flags begin with two hyphens and short ones with one, and flags may
stand anywhere before a lone `--`. In the second, one or two hyphens mean the same, there are no short
flags, and the first argument that is no flag ends them.

A flag that is a switch takes no argument of its own but may be given one after an equals sign. Arguments
are read from the left, and the first that cannot be read is the one that is reported.
-/

namespace Lightboard.Cli

/-- What the value of a flag is. -/
inductive FlagKind where
  | text
  | integer
  /-- On or off, and on where no value is given. -/
  | switch
  deriving DecidableEq, Repr

/-- What a flag is called, and what it takes. -/
structure Flag where
  name : Text
  short : Option UInt8 := none
  kind : FlagKind := .text

/-- The flags given, in order, and the other arguments. -/
structure Arguments where
  flags : List (Text × Text) := []
  others : List Text := []

/-- Why arguments cannot be read. -/
inductive FlagError where
  /-- Help was asked for. -/
  | help
  | badSyntax (word : Text)
  | unknown (word : Text)
  | missingValue (word : Text)
  | badValue (flag value : Text)

def FlagError.message : FlagError → Text
  | .help => "help requested"
  | .badSyntax w => Text.concat ["bad flag syntax: ", w]
  | .unknown w => Text.concat ["unknown flag: ", w]
  | .missingValue w => Text.concat ["flag needs an argument: ", w]
  | .badValue flag value => Text.concat ["invalid value ", value.quoted, " for flag ", flag]

namespace Arguments

/-- The last value of a flag. -/
def value? (a : Arguments) (name : Text) : Option Text :=
  (a.flags.reverse.find? (·.1 == name)).map Prod.snd

def addFlag (a : Arguments) (name value : Text) : Arguments :=
  { a with flags := a.flags ++ [(name, value)] }

def addOther (a : Arguments) (word : Text) : Arguments := { a with others := a.others ++ [word] }

end Arguments

def hyphen : UInt8 := ascii '-'

def equals : UInt8 := ascii '='

/-- The value of a switch. -/
def readSwitch? (t : Text) : Option Bool :=
  if (["1", "t", "T", "TRUE", "true", "True"] : List Text).contains t then some true
  else if (["0", "f", "F", "FALSE", "false", "False"] : List Text).contains t then some false
  else none

namespace Flag

def isSwitch (f : Flag) : Bool := f.kind = .switch

/-- Whether a text is a value of the flag. -/
def accepts (f : Flag) (value : Text) : Bool :=
  match f.kind with
  | .text => true
  | .integer => (Number.readInteger? value).isSome
  | .switch => (readSwitch? value).isSome

/-- The flag with a value, if it is one. -/
def given (f : Flag) (value : Text) : Except FlagError (Text × Text) :=
  if f.accepts value then .ok (f.name, value) else .error (.badValue f.name value)

end Flag

/-- A name that cannot be that of a flag. -/
def isBadName (name : Text) : Bool :=
  name.isEmpty || name.head? == some hyphen || name.head? == some equals

/-- A flag by its long name, written after its hyphens, possibly with a value; `rest` follows it. -/
def readLong (flags : List Flag) (word name : Text) (rest : List Text) :
    Except FlagError ((Text × Text) × List Text) :=
  if isBadName name then .error (.badSyntax word)
  else
    let key := name.takeWhile (· != equals)
    match flags.find? (·.name == key) with
    | none => .error (if key = ("help" : Text) then .help else .unknown word)
    | some f =>
      if key.length < name.length then return (← f.given (name.drop (key.length + 1)), rest)
      else if f.isSwitch then return (← f.given "true", rest)
      else
        match rest with
        | v :: rest => return (← f.given v, rest)
        | [] => .error (.missingValue word)

/-- Short flags, written together after one hyphen; switches may be followed by further flags. What
begins with `test.` is meant for someone else and is passed over. -/
def readShort (flags : List Flag) (word : Text) :
    Text → List Text → Except FlagError (List (Text × Text) × List Text)
  | [], rest => .ok ([], rest)
  | c :: more, rest =>
    if ("test." : Text).isPrefixOf (c :: more) then .ok ([], rest)
    else
      match flags.find? (·.short == some c) with
      | none => .error (.unknown word)
      | some f =>
        if more.head? == some equals ∧ 1 < more.length then
          return ([← f.given (more.drop 1)], rest)
        else if f.isSwitch then do
          let (fs, rest) ← readShort flags word more rest
          return ((f.name, "true") :: fs, rest)
        else if !more.isEmpty then return ([← f.given more], rest)
        else
          match rest with
          | v :: rest => return ([← f.given v], rest)
          | [] => .error (.missingValue word)

/-- Reads arguments by the first convention, with a bound on their number. -/
def readMixed (fuel : Nat) (flags : List Flag) (a : Arguments) (words : List Text) :
    Except FlagError Arguments :=
  match fuel, words with
  | _, [] => .ok a
  | 0, _ => .ok a
  | fuel + 1, w :: rest =>
    match w with
    | h :: second :: more =>
      if h ≠ hyphen then readMixed fuel flags (a.addOther w) rest
      else if second = hyphen then
        if more.isEmpty then .ok { a with others := a.others ++ rest }
        else do
          let ((k, v), rest) ← readLong flags w more rest
          readMixed fuel flags (a.addFlag k v) rest
      else do
        let (fs, rest) ← readShort flags w (second :: more) rest
        readMixed fuel flags { a with flags := a.flags ++ fs } rest
    | _ => readMixed fuel flags (a.addOther w) rest

/-- Reads arguments by the second convention, with a bound on their number. -/
def readLeading (fuel : Nat) (flags : List Flag) (a : Arguments) (words : List Text) :
    Except FlagError Arguments :=
  match fuel, words with
  | _, [] => .ok a
  | 0, _ => .ok a
  | fuel + 1, w :: rest =>
    match w with
    | h :: second :: more =>
      if h ≠ hyphen then .ok { a with others := w :: rest }
      else if second = hyphen ∧ more.isEmpty then .ok { a with others := rest }
      else do
        let name := if second = hyphen then more else second :: more
        let key := name.takeWhile (· != equals)
        if key = ("h" : Text) then throw .help
        let ((k, v), rest) ← readLong flags w name rest
        readLeading fuel flags (a.addFlag k v) rest
    | _ => .ok { a with others := w :: rest }

/-- Whether an argument is a flag whose value is the next argument, as far as the flags are known. -/
def takesNext (flags : List Flag) (w : Text) : Bool :=
  match w with
  | h :: second :: more =>
    h == hyphen && !w.contains equals &&
      (if second == hyphen then !flags.any fun f => f.name == more && f.isSwitch
       else more.isEmpty && !flags.any fun f => f.short == some second && f.isSwitch)
  | _ => false

/-- Takes the first argument out that is neither a flag nor the value of one. -/
def splitCommand (flags : List Flag) (before : List Text) : List Text → Option (Text × List Text)
  | [] => none
  | w :: rest =>
    if w = ("--" : Text) then none
    else if takesNext flags w then
      match rest with
      | v :: rest' => if rest'.isEmpty then none else splitCommand flags (before ++ [w, v]) rest'
      | [] => none
    else if w.isEmpty ∨ w.head? = some hyphen then splitCommand flags (before ++ [w]) rest
    else some (w, before ++ rest)

end Lightboard.Cli
