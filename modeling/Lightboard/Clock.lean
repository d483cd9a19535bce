import Lightboard.Machine.Error

/-!
# Waiting on the wall clock

A wait ends when its time is over or when its context is cancelled, whichever comes first. Waits that
are over at once succeed even then.
-/

namespace Lightboard.Clock

/-- Why a wait did not end by itself. -/
inductive WaitError where
  | cancelled
  /-- No minute matches. -/
  | neverMatches (p : TimePattern)

def WaitError.message : WaitError → Text
  | .cancelled => RunError.cancelled.message
  | .neverMatches p => Text.concat ["Time pattern ", p.text, " never matches"]

/-- Waits for a number of nanoseconds. -/
def pauseFor (cancelled : Bool) (ns : Int) : Except WaitError Unit :=
  if 0 < ns ∧ cancelled then .error .cancelled else .ok ()

/-- Waits for the next minute that matches. -/
def waitUntil (cancelled : Bool) (now : Instant) (p : TimePattern) : Except WaitError Unit :=
  match p.next? now with
  | none => .error (.neverMatches p)
  | some t => pauseFor cancelled (t.nanoseconds - now.nanoseconds)

end Lightboard.Clock
