import StateFlow.Json.Printer
import StateFlow.Machine.Definition
import StateFlow.Path.Resolve
import StateFlow.Timestamp

/-!
# The delay of a Wait state

A delay is a number of nanoseconds.  Fractions of a second are rounded to the nearest one, a half to
the even neighbour; a timestamp that has passed gives no delay.
-/

namespace StateFlow

/-- Nanoseconds in a second. -/
def nanosecondsPerSecond : Nat := 1000000000

/-- Seconds beyond this bound are no delay. -/
def secondsBound : Nat := 0x10000000000000000

namespace Delay

/-- The delay of a number of seconds that stands in a payload. -/
def ofNumber (expression : String) (value : Json) : Except DelayFlaw Nat :=
  match value.number?.map Number.toBinary64 with
  | none => .error (.notSeconds expression value.compact)
  | some amount =>
    if amount.negative ∧ ¬ amount.isZero then .error (.notSeconds expression value.compact)
    else
      let nanoseconds := amount.roundedUnits nanosecondsPerSecond
      if nanoseconds < secondsBound * nanosecondsPerSecond then .ok nanoseconds
      else .error (.tooLong expression value.compact)

/-- The delay until a timestamp. -/
def untilText (now : Timestamp) (text : String) : Except DelayFlaw Nat :=
  match Timestamp.read text with
  | .ok target => .ok (now.nanosecondsUntil target)
  | .error flaw => .error (.notTimestamp text flaw)

/-- The nanoseconds of a delay. -/
def nanoseconds (state : String) (effective : Json) (now : Timestamp) :
    Delay → Except Fault Nat
  | seconds count => .ok (count * nanosecondsPerSecond)
  | secondsPath expression => do
    let value ← resolvePayload effective expression
    (ofNumber expression value).mapError (.invalidDelay state)
  | timestamp text => (untilText now text).mapError (.invalidDelay state)
  | timestampPath expression => do
    match ← resolvePayload effective expression with
    | .string text => (untilText now text).mapError (.invalidDelay state)
    | value => .error (.invalidDelay state (.notText expression value.typeName))

end Delay

/-- The nanoseconds that a Wait state waits; exactly one delay must be given. -/
def WaitState.nanoseconds (s : WaitState) (state : String) (effective : Json) (now : Timestamp) :
    Except Fault Nat :=
  match s.delays with
  | [delay] => delay.nanoseconds state effective now
  | delays => .error (.invalidDelay state (.count delays.length))

/-- What delays are slept with: the milliseconds that pass while some nanoseconds are slept. -/
abbrev Sleeper := Nat → Nat

/-- Sleeps on the timer, which counts whole milliseconds; even the shortest sleep suspends. -/
def Sleeper.timer : Sleeper := fun nanoseconds => max 1 ((nanoseconds + 999999) / 1000000)

/-- A delay in seconds with nine places. -/
def delayText (nanoseconds : Nat) : String :=
  s!"{nanoseconds / nanosecondsPerSecond}." ++
    Timestamp.padded 9 (nanoseconds % nanosecondsPerSecond)

end StateFlow
