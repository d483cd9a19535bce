import Lightboard.Calendar
import Lightboard.Text.Quoted

/-!
# Time patterns

A time pattern matches minutes of the day. It is a list of alternatives `HH:MM` in which any digit
may be a star, and it matches a minute if some alternative does. The type holds just the
alternatives that can be written, each once.
-/

namespace Lightboard

/-- One alternative: four digits, each fixed or open. An hour with both digits fixed exists. -/
structure Alternative where
  hourTens : Option (Fin 3)
  hourUnits : Option (Fin 10)
  minuteTens : Option (Fin 6)
  minuteUnits : Option (Fin 10)
  hour_lt : ∀ t ∈ hourTens, ∀ u ∈ hourUnits, t.val * 10 + u.val < 24
  deriving DecidableEq

/-- Why a text is no time pattern; each reason names the alternative at fault. -/
inductive PatternError where
  /-- Not five bytes with a colon in the middle. -/
  | shape (piece : Text)
  /-- Bytes that are neither stars nor digits allowed at their places, from the left. -/
  | digits (piece : Text) (wrong : List UInt8)
  /-- An hour past 23. -/
  | hour (piece : Text)
  deriving DecidableEq, Repr

/-- An error in words. Which of several wrong bytes is named is left open: `named` picks it. -/
def PatternError.wording (named : List UInt8 → UInt8) : PatternError → Text
  | .shape p => "Invalid time pattern " ++ p.quoted ++ ": expected HH:MM"
  | .digits p wrong =>
    "Invalid time pattern " ++ p.quoted ++ ": bad digit " ++
      Text.quotedChar false (Char.ofNat (named wrong).toNat)
  | .hour p => "Invalid time pattern " ++ p.quoted ++ ": hour out of range"

/-- The first of the wrong bytes. -/
def PatternError.leftmost (wrong : List UInt8) : UInt8 := wrong.headD 0

/-- An error in words that name the leftmost of several wrong bytes. -/
def PatternError.message (e : PatternError) : Text := e.wording leftmost

namespace Alternative

/-- How a digit prints. -/
def digitByte {n : Nat} : Option (Fin n) → UInt8
  | none => ascii '*'
  | some d => UInt8.ofNat (48 + d.val)

/-- The five bytes of an alternative. -/
def text (a : Alternative) : Text :=
  [digitByte a.hourTens, digitByte a.hourUnits, ascii ':', digitByte a.minuteTens,
    digitByte a.minuteUnits]

/-- A star, or a digit below `n`. -/
def readDigit? (n : Nat) (b : UInt8) : Option (Option (Fin n)) :=
  if b = ascii '*' then some none
  else if h : ascii '0' ≤ b ∧ b.toNat - 48 < n then some (some ⟨b.toNat - 48, h.2⟩)
  else none

/-- The bytes that are no digits for their places, from the left. -/
def wrongDigits (a b d e : UInt8) : List UInt8 :=
  [(3, a), (10, b), (6, d), (10, e)].filterMap fun (n, c) =>
    if (readDigit? n c).isSome then none else some c

/-- A single hour digit stands for an hour below ten. -/
def pad (p : Text) : Text :=
  match p with
  | [h, c, m, n] => if c = ascii ':' then [ascii '0', h, c, m, n] else p
  | _ => p

/-- Reads one alternative, given without white space around it. -/
def read (piece : Text) : Except PatternError Alternative :=
  let p := pad piece
  match p with
  | [a, b, c, d, e] =>
    if c ≠ ascii ':' then .error (.shape p)
    else
      match readDigit? 3 a, readDigit? 10 b, readDigit? 6 d, readDigit? 10 e with
      | some a', some b', some d', some e' =>
        if h : ∀ t ∈ a', ∀ u ∈ b', t.val * 10 + u.val < 24 then .ok ⟨a', b', d', e', h⟩
        else .error (.hour p)
      | _, _, _, _ => .error (.digits p (wrongDigits a b d e))
  | _ => .error (.shape p)

/-- How an hour and a minute show on a clock. -/
def clockFace (hour minute : Int) : Text :=
  two hour ++ ascii ':' :: two minute
where
  two (n : Int) : Text :=
    if n < 0 then Text.ofInt n else Text.padLeft (ascii '0') 2 (Text.ofNat n.toNat)

/-- Whether the clock shows what the alternative asks for, an open digit asking for nothing. -/
def fits (a : Alternative) (hour minute : Int) : Bool :=
  (a.text.zip (clockFace hour minute)).all fun (p, c) => p == ascii '*' || p == c

end Alternative

/-- Alternatives in order, each once. -/
structure TimePattern where
  alternatives : List Alternative
  nodup : alternatives.Nodup
  deriving DecidableEq

namespace TimePattern

/-- The pattern without alternatives, which matches nothing. -/
def empty : TimePattern := ⟨[], .nil⟩

/-- The pattern with one more alternative at the end, unless it is there already. -/
def add (p : TimePattern) (a : Alternative) : TimePattern :=
  if h : a ∈ p.alternatives then p
  else ⟨p.alternatives ++ [a], by
    rw [List.nodup_append]
    refine ⟨p.nodup, by simp, ?_⟩
    intro b hb c hc hbc
    exact h (List.mem_singleton.1 hc ▸ hbc ▸ hb)⟩

/-- What either pattern matches: the alternatives of the first, then the new ones of the second. -/
def union (p q : TimePattern) : TimePattern := q.alternatives.foldl add p

/-- The alternatives with bars between them. -/
def text (p : TimePattern) : Text := Text.join [ascii '|'] (p.alternatives.map Alternative.text)

/-- Reads alternatives with bars between them and white space around them. -/
def read (t : Text) : Except PatternError TimePattern :=
  (Text.splitOn (ascii '|') t).foldlM (fun p piece => do
    let a ← Alternative.read piece.trim
    return p.add a) empty

/-- Whether some alternative matches. -/
def fits (p : TimePattern) (hour minute : Int) : Bool := p.alternatives.any (·.fits hour minute)

/-- The minute starts that come after an instant within a day, in order. -/
def upcoming (start : Instant) : List Instant :=
  (List.range 1440).map fun (i : Nat) => start.startOfMinute.addMinutes ((i : Int) + 1)

/-- The start of the first matching minute strictly after an instant, within a day. -/
def next? (p : TimePattern) (start : Instant) : Option Instant :=
  (upcoming start).find? fun t => p.fits t.hourHere t.minuteHere

end TimePattern

end Lightboard
