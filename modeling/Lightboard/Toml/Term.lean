import Lightboard.Calendar
import Lightboard.Number.Decimal
import Lightboard.Text.Utf8

/-!
# The syntax of configuration and assembly text

A document is a list of statements: a key given a value, the header of a table, or the header of one
more element of an array of tables. Terms are the values as they are written; what the statements
mean together is the matter of `Toml.Document`.
-/

namespace Lightboard.Toml

/-- The parts of a dotted key. -/
abbrev Path := List Text

/-- What is known of the place a date or time refers to. -/
inductive Zone where
  /-- The offset is zero. -/
  | universal
  /-- Another offset is given. -/
  | fixed
  /-- A date and a time without an offset. -/
  | localDateTime
  /-- A date only. -/
  | localDate
  /-- A time only. -/
  | localTime
  deriving DecidableEq, Repr

/-- A date, a time, or both. What is not given counts from the first day of year zero, at midnight. -/
structure Moment where
  instant : Instant
  zone : Zone
  deriving DecidableEq, Repr

/-- A fraction of a second without trailing zeros, after a point; nothing for a whole second. -/
def Moment.fractionText (t : Instant) : Text :=
  let ns := (t.here % Instant.second).toNat
  if ns = 0 then []
  else
    let ds := Text.padLeft (ascii '0') 9 (Text.ofNat ns)
    ascii '.' :: (ds.reverse.dropWhile (· == ascii '0')).reverse

/-- Date, time, offset and zone, with blanks between them. -/
def Moment.text (m : Moment) : Text :=
  let offset := Instant.offsetText m.instant.offset []
  let zone : Text :=
    match m.zone with
    | .universal => "UTC"
    | .fixed => offset
    | .localDateTime => "datetime-local"
    | .localDate => "date-local"
    | .localTime => "time-local"
  Text.concat
    [m.instant.dateText, " ", m.instant.timeText, Moment.fractionText m.instant, " ", offset, " ", zone]

/-- A value as it is written. -/
inductive Term where
  | text (t : Text)
  | integer (n : Int)
  | float (x : Float)
  | boolean (b : Bool)
  | moment (m : Moment)
  | array (items : List Term)
  /-- A table on one line. -/
  | table (pairs : List (Path × Term))

/-- A statement of a document. -/
inductive Statement where
  | assign (key : Path) (value : Term)
  /-- `[key]` -/
  | header (key : Path)
  /-- `[[key]]` -/
  | element (key : Path)

end Lightboard.Toml
