import Lightboard.Text.Basic

/-!
# Instants

An instant is a count of nanoseconds from the first midnight of year 1, universal time, seen from a
place with a fixed offset in minutes. Dates follow the Gregorian rules in both directions.
-/

namespace Lightboard

/-- A day of the calendar. -/
structure Date where
  year : Int
  month : Nat
  day : Nat
  deriving DecidableEq, Repr

namespace Date

def isLeap (year : Int) : Bool := year % 4 == 0 && (year % 100 != 0 || year % 400 == 0)

def daysInMonth (year : Int) (month : Nat) : Nat :=
  if month = 2 then (if isLeap year then 29 else 28)
  else if month = 4 ∨ month = 6 ∨ month = 9 ∨ month = 11 then 30
  else 31

/-- The months and days of the date exist. -/
def isValid (d : Date) : Bool :=
  1 ≤ d.month && d.month ≤ 12 && 1 ≤ d.day && d.day ≤ daysInMonth d.year d.month

/-- Days before the first of March of `year`, counted from 1 March of year 0. -/
def daysBeforeMarch (year : Int) : Int := 365 * year + year / 4 - year / 100 + year / 400

/-- The number of days from 1 January of year 1. Years are taken to begin in March, so that a leap
day comes last; 306 days lie between 1 March of year 0 and 1 January of year 1. -/
def number (d : Date) : Int :=
  let shifted : Nat := (d.month + 9) % 12
  let year : Int := if d.month ≤ 2 then d.year - 1 else d.year
  daysBeforeMarch year + (153 * (shifted : Int) + 2) / 5 + (d.day : Int) - 1 - 306

/-- The date of a day number. -/
def ofNumber (n : Int) : Date :=
  let days := n + 306
  let era := days / 146097
  let inEra := days % 146097
  let yearInEra := (inEra - inEra / 1460 + inEra / 36524 - inEra / 146096) / 365
  let inYear := inEra - (365 * yearInEra + yearInEra / 4 - yearInEra / 100)
  let shifted := (5 * inYear + 2) / 153
  let day := inYear - (153 * shifted + 2) / 5 + 1
  let month := if shifted < 10 then shifted + 3 else shifted - 9
  let year := era * 400 + yearInEra + (if month ≤ 2 then 1 else 0)
  ⟨year, month.toNat, day.toNat⟩

end Date

/-- A point in time, and the offset of the place it is seen from, in minutes east. -/
structure Instant where
  nanoseconds : Int
  offset : Int
  deriving DecidableEq, Repr

namespace Instant

def second : Int := 1000000000

def minute : Int := 60 * second

/-- The nanoseconds on the clock of the place. -/
def here (t : Instant) : Int := t.nanoseconds + t.offset * minute

/-- The minute of the day on the clock of the place. -/
def minuteOfDay (t : Instant) : Int := t.here / minute % 1440

def hourHere (t : Instant) : Int := t.minuteOfDay / 60

def minuteHere (t : Instant) : Int := t.minuteOfDay % 60

/-- The start of the minute the instant lies in. -/
def startOfMinute (t : Instant) : Instant := { t with nanoseconds := t.nanoseconds / minute * minute }

/-- The instant so many minutes later. -/
def addMinutes (t : Instant) (n : Int) : Instant := { t with nanoseconds := t.nanoseconds + n * minute }

/-- The instant at which the clock of a place with this offset shows a date and a time of day. -/
def ofCivil (d : Date) (nanosecondsOfDay : Int) (offset : Int) : Instant :=
  ⟨d.number * 1440 * minute + nanosecondsOfDay - offset * minute, offset⟩

def date (t : Instant) : Date := Date.ofNumber (t.here / (1440 * minute))

/-- A year with at least four digits. -/
def yearText (y : Int) : Text :=
  if y < 0 then ascii '-' :: Text.padLeft (ascii '0') 4 (Text.ofNat y.natAbs)
  else Text.padLeft (ascii '0') 4 (Text.ofNat y.toNat)

def twoDigits (n : Int) : Text := Text.padLeft (ascii '0') 2 (Text.ofNat n.toNat)

/-- `YYYY-MM-DD` on the clock of the place. -/
def dateText (t : Instant) : Text :=
  yearText t.date.year ++ ascii '-' :: twoDigits t.date.month ++ ascii '-' :: twoDigits t.date.day

/-- `HH:MM:SS` on the clock of the place. -/
def timeText (t : Instant) : Text :=
  twoDigits t.hourHere ++ ascii ':' :: twoDigits t.minuteHere ++
    ascii ':' :: twoDigits (t.here / second % 60)

/-- A sign and the hours and minutes of an offset, with `sep` between them. -/
def offsetText (offset : Int) (sep : Text) : Text :=
  (if offset < 0 then ascii '-' else ascii '+') :: twoDigits (offset.natAbs / 60 : Nat) ++ sep ++
    twoDigits (offset.natAbs % 60 : Nat)

/-- The timestamp of a whole second: date, `T`, time, and `Z` or the offset. -/
def timestamp (t : Instant) : Text :=
  t.dateText ++ ascii 'T' :: t.timeText ++
    (if t.offset = 0 then [ascii 'Z'] else offsetText t.offset [ascii ':'])

/-- Exactly `n` decimal digits at the start, and the rest. -/
def readDigits? (n : Nat) (t : Text) : Option (Nat × Text) :=
  let ds := t.take n
  if ds.length = n ∧ ds.all Text.isDigit then (Text.readDigits? 10 ds).map (·, t.drop n) else none

/-- A given byte at the start, and the rest. -/
def readByte? (c : Char) : Text → Option Text
  | b :: t => if b = ascii c then some t else none
  | [] => none

/-- `YYYY-MM-DD` at the start of a text. -/
def readDate? (t : Text) : Option (Date × Text) := do
  let (y, t) ← readDigits? 4 t
  let t ← readByte? '-' t
  let (m, t) ← readDigits? 2 t
  let t ← readByte? '-' t
  let (d, t) ← readDigits? 2 t
  let date : Date := ⟨y, m, d⟩
  if date.isValid then some (date, t) else none

/-- The nanoseconds of a fraction's digits, of which the first nine count. -/
def fractionNanoseconds (ds : Text) : Nat :=
  ((Text.padRight (ascii '0') 9 (ds.take 9)).foldl (fun n b => n * 10 + Text.digitValue b) 0)

/-- `HH:MM:SS` with an optional fraction, as nanoseconds of the day. -/
def readTime? (t : Text) : Option (Int × Text) := do
  let (h, t) ← readDigits? 2 t
  let t ← readByte? ':' t
  let (m, t) ← readDigits? 2 t
  let t ← readByte? ':' t
  let (s, t) ← readDigits? 2 t
  if h < 24 ∧ m < 60 ∧ s < 60 then
    let whole : Int := ((h * 60 + m) * 60 + s : Nat) * second
    match t with
    | p :: rest =>
      let ds := rest.takeWhile Text.isDigit
      if (p = ascii '.' ∨ p = ascii ',') ∧ ¬ds.isEmpty then
        some (whole + fractionNanoseconds ds, rest.drop ds.length)
      else some (whole, t)
    | [] => some (whole, [])
  else none

/-- `Z`, or a sign and hours and minutes, as an offset in minutes. A full 24 hours and 60 minutes are
still taken. -/
def readOffset? : Text → Option (Int × Text)
  | b :: t =>
    if b = ascii 'Z' then some (0, t)
    else if b = ascii '+' ∨ b = ascii '-' then do
      let (h, t) ← readDigits? 2 t
      let t ← readByte? ':' t
      let (m, t) ← readDigits? 2 t
      if h ≤ 24 ∧ m ≤ 60 then
        let n : Int := h * 60 + m
        some (if b = ascii '-' then -n else n, t)
      else none
    else none
  | [] => none

/-- The instant of a timestamp with an offset. -/
def ofTimestamp? (t : Text) : Option Instant := do
  let (d, t) ← readDate? t
  let t ← readByte? 'T' t
  let (ns, t) ← readTime? t
  let (offset, t) ← readOffset? t
  if t.isEmpty then some (ofCivil d ns offset) else none

end Instant

end Lightboard
