import Lightboard.Toml.Scalar

/-!
# Reading documents

Arrays and tables nest, so their readers take a bound on the depth of calls; the length of the text is
always enough, as each call takes at least one byte away.
-/

namespace Lightboard.Toml

/-- The bytes of a key without quotation marks. -/
def isBareByte (b : UInt8) : Bool :=
  Text.isDigit b || (ascii 'a' ≤ b && b ≤ ascii 'z') || (ascii 'A' ≤ b && b ≤ ascii 'Z') ||
    b == ascii '_' || b == ascii '-'

/-- One part of a dotted key: bare, or a string on one line. -/
def readKeyPart : Reader Text := fun t =>
  match t with
  | [] => none
  | b :: rest =>
    if b = ascii '"' then do
      let (raw, t') ← scanBasic false rest
      let s ← unescape raw
      return (s, t')
    else if b = ascii '\'' then scanLiteral rest
    else
      let (name, t') := span isBareByte t
      if name.isEmpty then none else some (name, t')

/-- A dotted key with blanks around its parts, and the byte after it. -/
def readKey (fuel : Nat) : Reader Path := fun t =>
  match fuel with
  | 0 => none
  | fuel + 1 => do
    let (part, t) ← readKeyPart (skipSpace t)
    match skipSpace t with
    | b :: t' =>
      if b = ascii '.' then do
        let (parts, t'') ← readKey fuel t'
        return (part :: parts, t'')
      else return ([part], b :: t')
    | [] => return ([part], [])

/-- The text from the end of the line on. -/
def skipLine (t : Text) : Text := t.dropWhile fun b => !isLineEnd b

/-- Passes over white space, line ends and comments. -/
def skipBlank (fuel : Nat) (t : Text) : Text :=
  match fuel with
  | 0 => t
  | fuel + 1 =>
    let t := t.dropWhile fun b => isSpace b || isLineEnd b
    match t with
    | b :: _ => if b = ascii '#' then skipBlank fuel (skipLine t) else t
    | [] => []

/-- A key, an equals sign, and the text after it. -/
def readAssigned : Reader Path := fun t => do
  let (key, t) ← readKey t.length t
  let t ← Instant.readByte? '=' t
  return (key, t)

mutual

/-- A value, with blanks before it. -/
def readTerm (fuel : Nat) : Reader Term := fun t =>
  match fuel with
  | 0 => none
  | fuel + 1 =>
    let t := skipSpace t
    match t with
    | [] => none
    | b :: rest =>
      if b = ascii '[' then readItems fuel rest
      else if b = ascii '\x7b' then
        match skipSpace rest with
        | c :: t' =>
          if c = ascii '\x7d' then some (.table [], t') else readPairs fuel rest
        | [] => none
      else if b = ascii '"' ∨ b = ascii '\'' then (readString t).map fun (s, t') => (.text s, t')
      else if ("true" : Text).isPrefixOf t then some (.boolean true, t.drop 4)
      else if ("false" : Text).isPrefixOf t then some (.boolean false, t.drop 5)
      else
        match readSpecial false t with
        | some r => some r
        | none =>
          if Text.isDigit b ∨ b = ascii '+' ∨ b = ascii '-' then readNumber t else none

/-- The items of an array, after the opening bracket or a comma. -/
def readItems (fuel : Nat) : Reader Term := fun t =>
  match fuel with
  | 0 => none
  | fuel + 1 =>
    let t := skipBlank t.length t
    match t with
    | [] => none
    | b :: rest =>
      if b = ascii ']' then some (.array [], rest)
      else
        match readTerm fuel t with
        | none => none
        | some (item, t) =>
          match skipBlank t.length t with
          | [] => none
          | c :: t' =>
            if c = ascii ']' then some (.array [item], t')
            else if c = ascii ',' then
              match readItems fuel t' with
              | some (.array items, t'') => some (.array (item :: items), t'')
              | _ => none
            else none

/-- The pairs of a table on one line, after the opening brace or a comma. -/
def readPairs (fuel : Nat) : Reader Term := fun t =>
  match fuel with
  | 0 => none
  | fuel + 1 =>
    match readAssigned t with
    | none => none
    | some (key, t) =>
      match readTerm fuel t with
      | none => none
      | some (value, t) =>
        match skipSpace t with
        | [] => none
        | c :: t' =>
          if c = ascii '\x7d' then some (.table [(key, value)], t')
          else if c = ascii ',' then
            match readPairs fuel t' with
            | some (.table pairs, t'') => some (.table ((key, value) :: pairs), t'')
            | _ => none
          else none

end

/-- The end of a line: blanks and a comment may come before it. -/
def readLineEnd : Reader Unit := fun t =>
  let t := skipSpace t
  match t with
  | [] => some ((), [])
  | b :: _ =>
    if isLineEnd b then some ((), t)
    else if b = ascii '#' then some ((), skipLine t)
    else none

/-- A statement, up to the end of its line. -/
def readStatement : Reader Statement := fun t =>
  match t with
  | [] => none
  | b :: rest =>
    if b = ascii '[' then
      match rest with
      | [] => none
      | c :: rest' =>
        if c = ascii '[' then do
          let (key, t) ← readKey rest'.length rest'
          let t ← Instant.readByte? ']' t
          let t ← Instant.readByte? ']' t
          return (.element key, t)
        else do
          let (key, t) ← readKey rest.length rest
          let t ← Instant.readByte? ']' t
          return (.header key, t)
    else do
      let (key, t) ← readAssigned t
      let (value, t) ← readTerm t.length t
      return (.assign key value, t)

/-- The statements of a text, each on lines of its own. -/
def readStatements (fuel : Nat) (t : Text) : Option (List Statement) :=
  match fuel with
  | 0 => none
  | fuel + 1 =>
    let t := skipBlank t.length t
    if t.isEmpty then some []
    else do
      let (s, t) ← readStatement t
      let ((), t) ← readLineEnd t
      let more ← readStatements fuel t
      return s :: more

/-- A character a document may hold: no control character but tab and line ends. -/
def isAllowed (c : Char) : Bool :=
  c == '\t' || c == '\n' || c == '\r' || (0x20 ≤ c.toNat && c.toNat != 0x7F)

/-- Every carriage return stands before a line feed. -/
def returnsFit : Text → Bool
  | [] => true
  | b :: t => (b != ascii '\r' || t.head? == some (ascii '\n')) && returnsFit t

/-- A text without the mark of its encoding. -/
def dropMark (t : Text) : Text :=
  if ([0xFF, 0xFE] : Text).isPrefixOf t || ([0xFE, 0xFF] : Text).isPrefixOf t then t.drop 2
  else if ([0xEF, 0xBB, 0xBF] : Text).isPrefixOf t then t.drop 3
  else t

/-- The statements of a document; nothing if it is not well formed. -/
def parse (t : Text) : Option (List Statement) := do
  let t := dropMark t
  let cs ← t.chars?
  if cs.all isAllowed && returnsFit t then readStatements (t.length + 1) t else none

end Lightboard.Toml
