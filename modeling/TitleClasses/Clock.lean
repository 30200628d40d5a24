import TitleClasses.Action
import TitleClasses.Instant

/-!
# The clock

The time at which documents are classified is read from a clock, which moves on with every reading.
-/

namespace TitleClasses

/-- A clock: the microseconds since the beginning of 1970 that it shows, and those by which a reading
moves it on. -/
structure Clock where
  micros : Nat
  stride : Nat
deriving DecidableEq, Repr

namespace Clock

/-- The instant that the clock shows. -/
def instant (c : Clock) : Instant := .ofEpoch c.micros

/-- Reads the clock. -/
def read : Action Clock Instant := do
  let c ← Action.state
  Action.replace { c with micros := c.micros + c.stride }
  pure c.instant

end Clock

end TitleClasses
