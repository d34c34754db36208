import Retype.Frame.Stream
import Retype.Number.Double
/-! # Waiting for streams

How long to wait until one of some streams has something to read. The time is
counted in nanoseconds, in a word of sixty-four bits with a sign; nobody can
wait longer than that. A time below zero counts as none.
-/

namespace Retype

/-- How long to wait. -/
inductive Timeout where
  | forever
  /-- A whole number of seconds. -/
  | whole (seconds : Int)
  | seconds (x : Double)

namespace Timeout

/-- The nanoseconds of a second. -/
def perSecond : Nat := 1000000000

/-- No time has this many nanoseconds or more. -/
def clockBound : Nat := 1 <<< 63

/-- Whether the time can be counted. -/
def isCountable : Timeout → Bool
  | forever => true
  | whole s => s * perSecond < clockBound
  | seconds x => !x.isPositive || (x.scale perSecond).lt (Double.ofInt clockBound)

/-- The time of a deadline that there may be. -/
def ofSeconds? : Option Double → Timeout
  | none => forever
  | some x => seconds x

end Timeout

/-- The places of the streams that have something to read before the time is
over; none if the time cannot be counted. -/
def ByteStream.wait (timeout : Timeout) (streams : List ByteStream) : Option (List Nat) :=
  if timeout.isCountable then some (readable streams) else none

end Retype
