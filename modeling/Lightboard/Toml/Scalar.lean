import Lightboard.Number.Read
import Lightboard.Toml.Term

/-!
# Strings, numbers and dates

Each reader takes the text at which a scalar begins and gives its value and the text after it. A
scalar is first cut off by the bytes it may contain and then read as a whole.
-/

namespace Lightboard.Toml

/-- A reader takes something off the start of a text. -/
abbrev Reader (α : Type) := Text → Option (α × Text)

/-- A blank or a tab. -/
def isSpace (b : UInt8) : Bool := b == ascii ' ' || b == ascii '\t'

/-- A line feed, or the carriage return before one. -/
def isLineEnd (b : UInt8) : Bool := b == ascii '\n' || b == ascii '\r'

def skipSpace (t : Text) : Text := t.dropWhile isSpace

/-- The code point of hexadecimal digits, as UTF-8. -/
def codePoint? (ds : Text) : Option Text := do
  let n ← Text.readDigits? 16 ds
  let c ← Text.scalar? n
  return String.utf8EncodeChar c

/-- What the text after a backslash stands for, and how much of it. -/
def escape? : Reader Text := fun t =>
  match t with
  | [] => none
  | b :: rest =>
    if b = ascii 'b' then some ([8], rest)
    else if b = ascii 't' then some ([9], rest)
    else if b = ascii 'n' then some ([10], rest)
    else if b = ascii 'f' then some ([12], rest)
    else if b = ascii 'r' then some ([13], rest)
    else if b = ascii '"' then some ([b], rest)
    else if b = ascii '\\' then some ([b], rest)
    else if b = ascii 'u' ∧ 4 ≤ rest.length then
      (codePoint? (rest.take 4)).map (·, rest.drop 4)
    else if b = ascii 'U' ∧ 8 ≤ rest.length then
      (codePoint? (rest.take 8)).map (·, rest.drop 8)
    else none

/-- Replaces escapes, after passing over `skip` bytes that belong to one already replaced. -/
def unescapeFrom (skip : Nat) : Text → Option Text
  | [] => some []
  | b :: t =>
    match skip with
    | k + 1 => unescapeFrom k t
    | 0 =>
      if b = ascii '\\' then do
        let (out, rest) ← escape? t
        let more ← unescapeFrom (t.length - rest.length) t
        return out ++ more
      else (b :: ·) <$> unescapeFrom 0 t

/-- The text a basic string stands for. -/
def unescape (t : Text) : Option Text := unescapeFrom 0 t

/-- The inside of a string on one line, up to the quotation mark that is not escaped. -/
def scanBasic (escaped : Bool) : Reader Text
  | [] => none
  | b :: t =>
    if isLineEnd b then none
    else if !escaped && b == ascii '"' then some ([], t)
    else (scanBasic (!escaped && b == ascii '\\') t).map fun (s, rest) => (b :: s, rest)

/-- The inside of a literal string on one line. -/
def scanLiteral : Reader Text
  | [] => none
  | b :: t =>
    if isLineEnd b then none
    else if b = ascii '\'' then some ([], t)
    else (scanLiteral t).map fun (s, rest) => (b :: s, rest)

/-- Where a text begins with two quotation marks and then something else. -/
def closes (mark : UInt8) : Text → Bool
  | a :: b :: t => a == mark && b == mark && t.head? != some mark
  | _ => false

/-- Where a text begins with three quotation marks. -/
def crowded (mark : UInt8) : Text → Bool
  | a :: b :: c :: _ => a == mark && b == mark && c == mark
  | _ => false

/-- The inside of a string over several lines. It ends with three quotation marks, and up to two more
may stand before them. `run` counts the marks that stand just before, and `before` is the byte in
front of those. -/
def scanLines (mark : UInt8) (escapes escaped : Bool) (before : UInt8) (run : Nat) : Reader Text
  | [] => none
  | b :: t =>
    if !escaped && b == mark then
      if closes mark t then some ([], t.drop 2)
      else if crowded mark t && 2 ≤ run && !(escapes && run == 2 && before == ascii '\\') then none
      else (scanLines mark escapes false before (run + 1) t).map fun (s, rest) => (b :: s, rest)
    else
      (scanLines mark escapes (escapes && !escaped && b == ascii '\\') b 0 t).map
        fun (s, rest) => (b :: s, rest)

/-- A line end just after the opening marks is not part of the string. -/
def dropFirstLineEnd : Text → Text
  | b :: t =>
    if b = ascii '\n' then t
    else if b = ascii '\r' then
      match t with
      | c :: t' => if c = ascii '\n' then t' else b :: t
      | [] => [b]
    else b :: t
  | [] => []

/-- A backslash at the end of a line takes the line end and all white space after it away; `skip`
bytes still belong to one already taken. -/
def joinLines (skip : Nat) (escaped : Bool) : Text → Text
  | [] => []
  | b :: t =>
    match skip with
    | k + 1 => joinLines k false t
    | 0 =>
      let blank := t.takeWhile fun c => isSpace c || isLineEnd c
      if escaped then b :: joinLines 0 false t
      else if b = ascii '\\' then
        if blank.contains (ascii '\n') then joinLines blank.length false t
        else b :: joinLines 0 true t
      else b :: joinLines 0 false t

/-- A string in any of the four notations, from its opening mark. -/
def readString : Reader Text := fun t =>
  match t with
  | [] => none
  | q :: rest =>
    if q = ascii '"' then
      if ([q, q] : Text).isPrefixOf rest then do
        let (raw, t') ← scanLines q true false 0 0 (rest.drop 2)
        let s ← unescape (joinLines 0 false (dropFirstLineEnd raw))
        return (s, t')
      else do
        let (raw, t') ← scanBasic false rest
        let s ← unescape raw
        return (s, t')
    else if q = ascii '\'' then
      if ([q, q] : Text).isPrefixOf rest then
        (scanLines q false false 0 0 (rest.drop 2)).map fun (s, t') => (dropFirstLineEnd s, t')
      else scanLiteral rest
    else none

/-- Every underscore follows a digit, and the last byte is a digit; the digits are hexadecimal. -/
def underscoresFit (t : Text) : Bool := go false t
where
  go (afterDigit : Bool) : Text → Bool
    | [] => afterDigit
    | b :: t =>
      if b = ascii '_' && !afterDigit then false
      else go ((Text.digit? b).any (· < 16)) t

/-- A zero in front of further digits, other than a base mark. -/
def hasLeadingZero : Text → Bool
  | a :: b :: t =>
    if a = ascii '0' then b != ascii 'b' && b != ascii 'o' && b != ascii 'x'
    else (a == ascii '-' || a == ascii '+') && b == ascii '0' && !t.isEmpty
  | _ => false

/-- A digit follows every point. -/
def pointsFit : Text → Bool
  | [] => true
  | b :: t => (b != ascii '.' || t.head?.any Text.isDigit) && pointsFit t

/-- An integer of 64 bits. -/
def integer? (t : Text) : Option Int :=
  if underscoresFit t && !hasLeadingZero t then Number.readInteger? t else none

/-- The pieces of a decimal between its points and exponent marks. -/
def pieces (t : Text) : List Text :=
  (t.splitOnP fun b => b == ascii '.' || b == ascii 'e' || b == ascii 'E').filter (!·.isEmpty)

/-- A finite float. -/
def float? (t : Text) : Option Float :=
  let ps := pieces t
  if ps.all underscoresFit && !(ps.head?.any hasLeadingZero) && pointsFit t then
    Number.readFloat? (t.filter (· != ascii '_'))
  else none

/-- A date and time with or without offset, a date, or a time. A small letter or a blank may stand for
the marks between them. -/
def moment? (raw : Text) : Option Moment :=
  let t := raw.map fun b =>
    if b = ascii 't' ∨ b = ascii ' ' then ascii 'T' else if b = ascii 'z' then ascii 'Z' else b
  match Instant.readDate? t with
  | some (d, []) => some ⟨Instant.ofCivil d 0 0, .localDate⟩
  | some (d, rest) => do
    let rest ← Instant.readByte? 'T' rest
    let (ns, rest) ← Instant.readTime? rest
    if rest.isEmpty then return ⟨Instant.ofCivil d ns 0, .localDateTime⟩
    let (offset, rest) ← Instant.readOffset? rest
    if rest.isEmpty then
      return ⟨Instant.ofCivil d ns offset, if offset = 0 then .universal else .fixed⟩
    else none
  | none => do
    let (ns, rest) ← Instant.readTime? t
    if rest.isEmpty then return ⟨Instant.ofCivil ⟨0, 1, 1⟩ ns 0, .localTime⟩ else none

/-- The longest start of a text whose bytes satisfy a test. -/
def span (p : UInt8 → Bool) : Text → Text × Text := fun t => (t.takeWhile p, t.dropWhile p)

def isDecimalByte (b : UInt8) : Bool := Text.isDigit b || b == ascii '_'

def isFloatByte (b : UInt8) : Bool :=
  isDecimalByte b || b == ascii '.' || b == ascii '-' || b == ascii '+' || b == ascii 'e' ||
    b == ascii 'E'

def isMomentByte (b : UInt8) : Bool :=
  Text.isDigit b || (("-:Tt .Zz+" : Text).contains b)

/-- Whether a decimal goes on as a float. -/
def startsFraction (t : Text) : Bool :=
  t.head?.any fun b => b == ascii '.' || b == ascii 'e' || b == ascii 'E'

/-- A decimal integer or float, from its sign or first digit. -/
def readDecimal (sign : Text) : Reader Term := fun t =>
  let (ds, rest) := span isDecimalByte t
  if startsFraction rest then
    let (more, rest) := span isFloatByte rest
    (float? (sign ++ ds ++ more)).map (.float ·, rest)
  else (integer? (sign ++ ds)).map (.integer ·, rest)

/-- An infinity or a number that is none, by name. -/
def readSpecial (neg : Bool) : Reader Term := fun t =>
  if ("inf" : Text).isPrefixOf t then
    some (.float (if neg then Number.negativeInfinity else Number.positiveInfinity), t.drop 3)
  else if ("nan" : Text).isPrefixOf t then some (.float Number.notANumber, t.drop 3)
  else none

/-- The digits of an integer after its base mark. -/
def readBased (base : Nat) (mark : UInt8) : Reader Term := fun t =>
  let isDigit (b : UInt8) : Bool := (Text.digit? b).any (· < base)
  if t.head?.any isDigit then
    let (ds, rest) := span (fun b => isDigit b || b == ascii '_') t
    (integer? (ascii '0' :: mark :: ds)).map (.integer ·, rest)
  else none

/-- A number or a date, from its sign or first digit. -/
def readNumber : Reader Term := fun t =>
  match t with
  | [] => none
  | b :: rest =>
    if b = ascii '+' ∨ b = ascii '-' then
      match readSpecial (b == ascii '-') rest with
      | some r => some r
      | none => if rest.head?.any Text.isDigit then readDecimal [b] rest else none
    else if b = ascii '0' ∧ rest.head? = some (ascii 'x') then readBased 16 (ascii 'x') (rest.drop 1)
    else if b = ascii '0' ∧ rest.head? = some (ascii 'o') then readBased 8 (ascii 'o') (rest.drop 1)
    else if b = ascii '0' ∧ rest.head? = some (ascii 'b') then readBased 2 (ascii 'b') (rest.drop 1)
    else
      let (_, after) := span Text.isDigit t
      if after.head?.any fun c => c == ascii '-' || c == ascii ':' then
        let (lexeme, rest) := span isMomentByte t
        (moment? ((lexeme.reverse.dropWhile (· == ascii ' ')).reverse)).map (.moment ·, rest)
      else readDecimal [] t

end Lightboard.Toml
