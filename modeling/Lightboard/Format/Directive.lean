import Lightboard.Number.Decimal
import Lightboard.Text.Quoted

/-!
# Directives

A directive is a percent sign, flags, an optional width, an optional precision and a verb; it renders
an argument. All other text stands for itself. What cannot be rendered leaves a note in the output
that begins with `%!`: a verb that does not fit its argument, a verb without an argument, an argument
without a verb.
-/

namespace Lightboard.Format

/-- What a directive can render. -/
inductive Argument where
  | int (n : Int)
  | float (x : Float)
  | text (t : Text)

/-- The name of an argument's kind, as it stands in notes. -/
def Argument.kind : Argument → Text
  | .int _ => "int64"
  | .float _ => "float64"
  | .text _ => "string"

/-- How a directive asks for its argument to be rendered. -/
structure Style where
  /-- `#`: the alternative form. -/
  sharp : Bool := false
  /-- `0`: pad with zeros. -/
  zero : Bool := false
  /-- `+`: always a sign. -/
  plus : Bool := false
  /-- `-`: pad on the right. -/
  minus : Bool := false
  /-- A blank: a blank where a plus sign is left out. -/
  space : Bool := false
  /-- The alternative form of the natural verb: text between quotation marks. -/
  exact : Bool := false
  width : Option Nat := none
  precision : Option Nat := none

namespace Style

/-- Padding of `n` bytes. Zeros are only put in front. -/
def padding (s : Style) (n : Nat) : Text :=
  List.replicate n (if s.zero && !s.minus then ascii '0' else ascii ' ')

/-- A text brought to the width, which counts characters. -/
def pad (s : Style) (t : Text) : Text :=
  let gap := s.width.getD 0 - t.width
  if s.minus then t ++ s.padding gap else s.padding gap ++ t

/-- A text brought to the width with blanks. -/
def padBlank (s : Style) (t : Text) : Text := { s with zero := false }.pad t

end Style

/-- A sign for a number that is not negative, where one is wanted. -/
def positiveSign (s : Style) : Text :=
  if s.plus then [ascii '+'] else if s.space then [ascii ' '] else []

/-- The mark of a base in front of its digits. -/
def baseMark (s : Style) (base : Nat) (capital : Bool) (digits : Text) : Text :=
  if !s.sharp then []
  else
    match base with
    | 2 => "0b"
    | 8 => if digits.head? == some (ascii '0') then [] else "0"
    | 16 => if capital then "0X" else "0x"
    | _ => []

/-- An integer in a base. Leading zeros come from the precision, or else from the width if it is to be
filled with zeros. `octalMark` is for the verb that marks base eight with a letter. -/
def renderInt (s : Style) (n : Int) (base : Nat) (capital octalMark : Bool) : Text :=
  let signed := n < 0 || s.plus || s.space
  if s.precision = some 0 ∧ n = 0 then s.padBlank []
  else
    let least :=
      match s.precision with
      | some p => p
      | none => if s.zero && !s.minus then s.width.getD 0 - (if signed then 1 else 0) else 0
    let raw := Text.numeral base n.natAbs
    let digits := Text.padLeft (ascii '0') least (if capital then raw.raise else raw)
    let marked := baseMark s base capital digits ++ digits
    let marked := if octalMark then Text.concat ["0o", marked] else marked
    s.padBlank ((if n < 0 then [ascii '-'] else positiveSign s) ++ marked)

/-- The character of an integer; anything that is no code point gives the replacement character. -/
def charOf (n : Int) : Char := if n < 0 then Char.ofNat 0xFFFD else ((Text.scalar? n.toNat).getD (Char.ofNat 0xFFFD))

/-- `U+` and the digits of a code point, with the character itself in the alternative form. -/
def renderPoint (s : Style) (n : Int) : Text :=
  let u : Nat := (n % Number.wordCount).toNat
  let digits := Text.padLeft (ascii '0') (max 4 (s.precision.getD 0)) (Text.numeral 16 u).raise
  let shown :=
    match Text.scalar? u with
    | some c =>
      if s.sharp && Text.isPrintable u then Text.concat [" '", String.utf8EncodeChar c, "'"] else []
    | none => []
  s.padBlank (Text.concat ["U+", digits, shown])

/-- The verbs of floats. -/
inductive FloatVerb where
  | layout (l : Number.Layout)
  /-- Mantissa and power of two in decimal. -/
  | binary
  /-- Mantissa in base sixteen. -/
  | hex (capital : Bool)

/-- At least two digits of an exponent, after its sign. -/
def exponentText (e : Int) : Text :=
  (if e < 0 then ascii '-' else ascii '+') :: Text.padLeft (ascii '0') 2 (Text.ofNat e.natAbs)

/-- `m · 2 ^ e` in base sixteen, with a leading one. -/
def hexMagnitude (capital : Bool) (precision : Option Nat) (m : Nat) (e : Int) : Text :=
  let mark : Char := if capital then 'X' else 'x'
  let power : Char := if capital then 'P' else 'p'
  let case (t : Text) : Text := if capital then t.raise else t
  -- the leading bit stands at place 60
  let unit : Nat := 0x1000000000000000
  let whole := if m = 0 then 0 else m * Nat.pow 2 (60 - m.log2)
  let exponent : Int := if m = 0 then 0 else e + m.log2
  let (whole, exponent) :=
    match precision with
    | some p =>
      if p < 15 then
        let step := Nat.pow 2 (60 - 4 * p)
        let rounded := Number.divEven whole step * step
        if 2 * unit ≤ rounded then (rounded / 2, exponent + 1) else (rounded, exponent)
      else (whole, exponent)
    | none => (whole, exponent)
  let lead := whole / unit
  let fraction := Text.hex 15 (whole % unit)
  let digits :=
    match precision with
    | some p => Text.padRight (ascii '0') p (fraction.take p)
    | none => (fraction.reverse.dropWhile (· == ascii '0')).reverse
  Text.concat
    ["0", [ascii mark], Text.ofNat lead, if digits.isEmpty then [] else ascii '.' :: case digits,
     [ascii power], exponentText exponent]

/-- The numeral of a float without its sign. -/
def floatMagnitude (v : FloatVerb) (precision : Option Nat) (m : Nat) (e : Int) : Text :=
  match v with
  | .layout l => Number.magnitude l precision m e
  | .binary => Text.concat [Text.ofNat m, "p", if e < 0 then [] else "+", Text.ofInt e]
  | .hex capital => hexMagnitude capital precision m e

/-- The alternative form of a numeral: it has a point, and in the general layout the digits that the
precision asks for, six if it asks for none. -/
def keepPoint (v : FloatVerb) (precision : Option Nat) (t : Text) : Text :=
  let isPower (b : UInt8) : Bool :=
    match v with
    | .hex _ => b == ascii 'p' || b == ascii 'P'
    | _ => b == ascii 'e' || b == ascii 'E'
  let body := t.takeWhile (!isPower ·)
  let tail := t.drop body.length
  let wanted :=
    match v with
    | .layout (.general _) => precision.getD 6
    | .hex false => precision.getD 6
    | _ => 0
  let digits := body.filter (· != ascii '.')
  let used := (digits.dropWhile (· == ascii '0')).length
  let used := if body == [ascii '0'] then used + 1 else used
  let point := if body.contains (ascii '.') then [] else [ascii '.']
  body ++ point ++ List.replicate (wanted - used) (ascii '0') ++ tail

/-- A float by a verb. The precision of the directive wins over the one of the verb. -/
def renderFloat (s : Style) (x : Float) (v : FloatVerb) (precision : Option Nat) : Text :=
  let precision := s.precision <|> precision
  match Number.exact x with
  | .nan => s.padBlank (positiveSign s ++ "NaN")
  | .inf true => s.padBlank "-Inf"
  | .inf false =>
    s.padBlank (if s.space && !s.plus then " Inf" else "+Inf")
  | .finite neg m e =>
    let body := floatMagnitude v precision m e
    let body := if s.sharp && !(v matches .binary) then keepPoint v precision body else body
    let sign := if neg then [ascii '-'] else positiveSign s
    if s.zero && !s.minus then sign ++ Text.padLeft (ascii '0') (s.width.getD 0 - sign.length) body
    else s.pad (sign ++ body)

/-- No more characters than the precision allows. -/
def shorten (s : Style) (t : Text) : Text :=
  match s.precision with
  | some p => Text.encode (t.runes.take p)
  | none => t

def renderText (s : Style) (t : Text) : Text := s.pad (shorten s t)

/-- Between quotation marks; in the alternative form between back quotes if that is possible. -/
def renderQuoted (s : Style) (t : Text) : Text :=
  let t := shorten s t
  if s.sharp && t.fitsBackquotes then s.pad (Text.concat ["\x60", t, "\x60"])
  else s.pad (if s.plus then t.quotedPlain else t.quoted)

/-- Two hexadecimal digits for each byte. -/
def renderBytes (s : Style) (t : Text) (capital : Bool) : Text :=
  let t := match s.precision with
    | some p => t.take p
    | none => t
  let mark : Text := if !s.sharp then [] else if capital then "0X" else "0x"
  let pairs := t.map fun b =>
    let ds := Text.hex 2 b.toNat
    if capital then ds.raise else ds
  let body :=
    if pairs.isEmpty then []
    else if s.space then Text.join [ascii ' '] (pairs.map (mark ++ ·))
    else mark ++ Text.concat pairs
  s.pad body

/-- The float verb of a character, with its own precision. -/
def floatVerb? (verb : Char) : Option (FloatVerb × Option Nat) :=
  match verb with
  | 'v' => some (.layout (.general 'e'), none)
  | 'g' => some (.layout (.general 'e'), none)
  | 'G' => some (.layout (.general 'E'), none)
  | 'e' => some (.layout (.scientific 'e'), some 6)
  | 'E' => some (.layout (.scientific 'E'), some 6)
  | 'f' => some (.layout .positional, some 6)
  | 'F' => some (.layout .positional, some 6)
  | 'b' => some (.binary, none)
  | 'x' => some (.hex false, none)
  | 'X' => some (.hex true, none)
  | _ => none

/-- An argument by a verb that fits it. -/
def renderFit? (s : Style) (verb : Char) : Argument → Option Text
  | .int n =>
    match verb with
    | 'v' => some (renderInt s n 10 false false)
    | 'd' => some (renderInt s n 10 false false)
    | 'b' => some (renderInt s n 2 false false)
    | 'o' => some (renderInt s n 8 false false)
    | 'O' => some (renderInt s n 8 false true)
    | 'x' => some (renderInt s n 16 false false)
    | 'X' => some (renderInt s n 16 true false)
    | 'c' => some (s.pad (String.utf8EncodeChar (charOf n)))
    | 'q' => some (s.pad (Text.quotedChar s.plus (charOf n)))
    | 'U' => some (renderPoint s n)
    | _ => none
  | .float x => (floatVerb? verb).map fun (v, p) => renderFloat s x v p
  | .text t =>
    match verb with
    | 'v' => some (if s.exact then renderQuoted s t else renderText s t)
    | 's' => some (renderText s t)
    | 'x' => some (renderBytes s t false)
    | 'X' => some (renderBytes s t true)
    | 'q' => some (renderQuoted s t)
    | _ => none

/-- An argument after the name of its kind, as it stands in notes. -/
def named (s : Style) (a : Argument) : Text :=
  Text.concat [a.kind, "=", (renderFit? s 'v' a).getD []]

/-- An argument by any verb. -/
def render (s : Style) (verb : Char) (a : Argument) : Text :=
  if verb = 'T' then renderText s a.kind
  else
    match renderFit? s verb a with
    | some t => t
    | none => Text.concat ["%!", String.utf8EncodeChar verb, "(", named s a, ")"]

/-- A decimal numeral at the start. One that is far too large takes all of the text away. -/
def scanNumber (t : Text) : Option Nat × Text := go none t
where
  go (n : Option Nat) : Text → Option Nat × Text
    | [] => (n, [])
    | b :: t =>
      if Text.isDigit b then
        if 1000000 < n.getD 0 then (none, []) else go (some (n.getD 0 * 10 + Text.digitValue b)) t
      else (n, b :: t)

/-- The place in a list of arguments from which directives take theirs. -/
structure Place where
  /-- The next argument. -/
  next : Nat := 0
  /-- An index was given somewhere. -/
  reordered : Bool := false
  /-- The indexes of this directive are fine so far. -/
  good : Bool := true
  /-- An index was given just before. -/
  indexed : Bool := false

/-- An index in brackets, if there is one: the arguments are counted from one. -/
def scanIndex (count : Nat) (p : Place) (t : Text) : Place × Text :=
  match t with
  | b :: rest =>
    if b = ascii '[' then
      let p := { p with reordered := true }
      if rest.length < 2 ∨ !rest.contains (ascii ']') then
        ({ p with good := false, indexed := false }, rest)
      else
        let inner := rest.takeWhile (· != ascii ']')
        let after := rest.drop (inner.length + 1)
        match scanNumber inner with
        | (some n, []) =>
          if 1 ≤ n ∧ n ≤ count then ({ p with next := n - 1, indexed := true }, after)
          else ({ p with good := false, indexed := true }, after)
        | _ => ({ p with good := false, indexed := false }, after)
    else ({ p with indexed := false }, t)
  | [] => ({ p with indexed := false }, [])

/-- The flags at the start. -/
def scanFlags (s : Style) : Text → Style × Text
  | [] => (s, [])
  | b :: t =>
    if b = ascii '#' then scanFlags { s with sharp := true } t
    else if b = ascii '0' then scanFlags { s with zero := true } t
    else if b = ascii '+' then scanFlags { s with plus := true } t
    else if b = ascii '-' then scanFlags { s with minus := true } t
    else if b = ascii ' ' then scanFlags { s with space := true } t
    else (s, b :: t)

/-- An argument that serves as a width or precision. -/
def measure? (args : List Argument) (p : Place) : Option Int :=
  match args[p.next]? with
  | some (.int n) => if n.natAbs ≤ 1000000 then some n else none
  | _ => none

/-- A width: a numeral, or a star for the next argument; with it, what a bad one leaves in the output. -/
def scanWidth (args : List Argument) (s : Style) (p : Place) (t : Text) : Text × Style × Place × Text :=
  match t with
  | b :: rest =>
    if b = ascii '*' then
      let p' := { p with next := if p.next < args.length then p.next + 1 else p.next, indexed := false }
      match measure? args p with
      | some n =>
        if n < 0 then ([], { s with width := some n.natAbs, minus := true, zero := false }, p', rest)
        else ([], { s with width := some n.toNat }, p', rest)
      | none => ("%!(BADWIDTH)", s, p', rest)
    else
      let (n, rest) := scanNumber t
      ([], { s with width := n }, { p with good := p.good && !(p.indexed && n.isSome) }, rest)
  | [] => ([], s, p, [])

/-- A precision after its point, as a width is read. -/
def scanPrecision (args : List Argument) (s : Style) (p : Place) (t : Text) :
    Text × Style × Place × Text :=
  match t with
  | b :: rest =>
    if b = ascii '.' then
      let p := { p with good := p.good && !p.indexed }
      let (p, rest) := scanIndex args.length p rest
      match rest with
      | c :: rest' =>
        if c = ascii '*' then
          let p' := { p with next := if p.next < args.length then p.next + 1 else p.next, indexed := false }
          match (measure? args p).filter (0 ≤ ·) with
          | some n => ([], { s with precision := some n.toNat }, p', rest')
          | none => ("%!(BADPREC)", s, p', rest')
        else
          let (n, rest) := scanNumber rest
          ([], { s with precision := some (n.getD 0) }, p, rest)
      | [] => ([], { s with precision := some 0 }, p, [])
    else ([], s, p, t)
  | [] => ([], s, p, [])

/-- The natural verb has an alternative form of its own and never a sign. -/
def settle (s : Style) (verb : Char) : Style :=
  if verb = 'v' ∨ verb = 'w' then { s with exact := s.sharp, sharp := false, plus := false } else s

/-- One directive, after its percent sign: what it renders, the place after it, and the rest. -/
def directive (args : List Argument) (p : Place) (t : Text) : Text × Place × Text :=
  let (s, t) := scanFlags {} t
  let (p, t) := scanIndex args.length { p with good := true } t
  let (badWidth, s, p, t) := scanWidth args s p t
  let (badPrecision, s, p, t) := scanPrecision args s p t
  let (p, t) := if p.indexed then (p, t) else scanIndex args.length p t
  let bad := badWidth ++ badPrecision
  match t.runes with
  | [] => (bad ++ "%!(NOVERB)", p, [])
  | r :: _ =>
    let verb := r.shown
    let rest := t.drop r.bytes.length
    let note (what : Text) : Text := Text.concat [bad, "%!", String.utf8EncodeChar verb, what]
    if verb = '%' then (bad ++ [ascii '%'], p, rest)
    else if !p.good then (note "(BADINDEX)", p, rest)
    else
      match args[p.next]? with
      | none => (note "(MISSING)", p, rest)
      | some a => (bad ++ render (settle s verb) verb a, { p with next := p.next + 1 }, rest)

/-- All of a text, with a bound on the number of directives. -/
def expandFrom (fuel : Nat) (args : List Argument) (p : Place) (t : Text) : Text × Place :=
  match fuel with
  | 0 => ([], p)
  | fuel + 1 =>
    let plain := t.takeWhile (· != ascii '%')
    match t.drop plain.length with
    | [] => (plain, p)
    | _ :: t' =>
      let (out, p, rest) := directive args p t'
      let (more, p) := expandFrom fuel args p rest
      (Text.concat [plain, out, more], p)

/-- A text with its directives rendered. Arguments that are left over are noted at the end. -/
def expand (t : Text) (args : List Argument) : Text :=
  let (out, p) := expandFrom (t.length + 1) args {} t
  let extra := args.drop p.next
  if p.reordered ∨ extra.isEmpty then out
  else Text.concat [out, "%!(EXTRA ", Text.join ", " (extra.map (named {})), ")"]

end Lightboard.Format
