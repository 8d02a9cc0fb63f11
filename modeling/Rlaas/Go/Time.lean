import Rlaas.Go.Arith
import Rlaas.Lib.Calendar

/-! The part of Go's package `time` the code uses: instants with a location,
calendar fields, `Truncate`, `Date`, `AddDate` and `ParseDuration`. -/

set_option autoImplicit false

namespace Rlaas.Go

/-- A `time.Duration`, in nanoseconds. -/
abbrev Duration := Int

def millisecond : Duration := 1000000
def second : Duration := 1000000000
def minute : Duration := 60 * second
def hour : Duration := 60 * minute

def dayNanos : Duration := 24 * hour

/-- `t.Sub(u)` on two instants in nanoseconds, held within the range of a `Duration`. -/
def subNanos (t u : Int) : Duration := max (-2 ^ 63) (min (2 ^ 63 - 1) (t - u))

/-- A `*time.Location`: seconds east of UTC in effect at a Unix second. -/
structure Location where
  offset : Int → Int

def utc : Location := ⟨fun _ => 0⟩

/-- A `time.Time`: nanoseconds since the Unix epoch and the location in which
its calendar fields are read. -/
structure Time where
  nanos : Int
  loc : Location

/-- The zero `time.Time`, 1 January of year 1 UTC. -/
def zeroNanos : Int := -62135596800 * second

def epochDay : Int := Calendar.yearStart 1970

namespace Time

def unixNano (A : Arith) (t : Time) : Int := A.wrap t.nanos

def unix (t : Time) : Int := t.nanos / second

/-- `t.Truncate(d)`: down to a multiple of `d` since the zero time. -/
def truncate (t : Time) (d : Duration) : Time :=
  if d ≤ 0 then t else { t with nanos := t.nanos - (t.nanos - zeroNanos) % d }

def add (t : Time) (d : Duration) : Time := { t with nanos := t.nanos + d }

def wall (t : Time) : Int := t.nanos + t.loc.offset (t.nanos / second) * second

def civilDay (t : Time) : Int := t.wall / dayNanos + epochDay

/-- `t.Year()` and `t.Month()` as one number. -/
def month (t : Time) : Int := Calendar.monthOf t.civilDay

def day (t : Time) : Int := t.civilDay - Calendar.monthStart t.month + 1

/-- `t.Weekday()`, Sunday = 0. The epoch was a Thursday. -/
def weekday (t : Time) : Int := (t.civilDay - epochDay + 4) % 7

def clock (t : Time) : Duration := t.wall % dayNanos

/-- `time.Date`, with year and month in one number and the time of day in
nanoseconds. Days outside the month carry over. The offset is looked up as if
the wall clock were UTC and, when that is not zero, once more at the result. -/
def date (month day : Int) (ofDay : Duration) (loc : Location) : Time :=
  let wall := (Calendar.monthStart month + (day - 1) - epochDay) * dayNanos + ofDay
  let offset := loc.offset (wall / second)
  if offset = 0 then ⟨wall, loc⟩
  else ⟨wall - loc.offset (wall / second - offset) * second, loc⟩

def addMonths (t : Time) (months : Int) : Time :=
  date (t.month + months) t.day t.clock t.loc

end Time

def Duration.seconds (A : Arith) (d : Duration) : GoFloat :=
  GoFloat.add A (GoFloat.ofInt A (d.tdiv second))
    (GoFloat.div A (GoFloat.ofInt A (d.tmod second)) (GoFloat.ofInt A second))

section ParseDuration

def isDigit (c : Char) : Bool := decide ('0' ≤ c) && decide (c ≤ '9')

def digitValue (c : Char) : Nat := c.toNat - '0'.toNat

def leadingInt : List Char → Nat → Option (Nat × List Char)
  | [], x => some (x, [])
  | c :: rest, x =>
      if isDigit c then
        if x > 2 ^ 63 / 10 then none
        else if x * 10 + digitValue c > 2 ^ 63 then none
        else leadingInt rest (x * 10 + digitValue c)
      else some (x, c :: rest)

/-- `leadingFraction`: digits beyond the precision of `uint64` are dropped. -/
def leadingFraction : List Char → Nat → Nat → Bool → Nat × Nat × List Char
  | [], x, scale, _ => (x, scale, [])
  | c :: rest, x, scale, overflow =>
      if isDigit c then
        if overflow then leadingFraction rest x scale true
        else if x > (2 ^ 63 - 1) / 10 then leadingFraction rest x scale true
        else if x * 10 + digitValue c > 2 ^ 63 then leadingFraction rest x scale true
        else leadingFraction rest (x * 10 + digitValue c) (scale * 10) false
      else (x, scale, c :: rest)

def unitMap (name : List Char) : Option Nat :=
  if name = "ns".toList then some 1
  else if name = "us".toList ∨ name = "µs".toList ∨ name = "μs".toList then some 1000
  else if name = "ms".toList then some 1000000
  else if name = "s".toList then some 1000000000
  else if name = "m".toList then some 60000000000
  else if name = "h".toList then some 3600000000000
  else none

def fractionNanos (f unit scale : Nat) : Nat :=
  (Arith.machine.toInt (GoFloat.mul Arith.machine (GoFloat.ofInt Arith.machine f)
    (GoFloat.div Arith.machine (GoFloat.ofInt Arith.machine unit)
      (GoFloat.ofInt Arith.machine scale)))).toNat

/-- The loop over number and unit pairs; each round consumes a character, so
the length of the text bounds the rounds. -/
def parsePairs : Nat → List Char → Nat → Option Nat
  | _, [], total => some total
  | 0, _ :: _, _ => none
  | rounds + 1, c :: rest, total =>
      let text := c :: rest
      if !(c == '.' || isDigit c) then none
      else
        match leadingInt text 0 with
        | none => none
        | some (whole, afterWhole) =>
            let hasWhole := afterWhole.length != text.length
            let (fraction, scale, afterNumber, hasFraction) :=
              match afterWhole with
              | '.' :: digits =>
                  let (x, scale, remaining) := leadingFraction digits 0 1 false
                  (x, scale, remaining, remaining.length != digits.length)
              | _ => (0, 1, afterWhole, false)
            if !hasWhole && !hasFraction then none
            else
              let name := afterNumber.takeWhile fun c => !(c == '.' || isDigit c)
              let remaining := afterNumber.dropWhile fun c => !(c == '.' || isDigit c)
              if name.isEmpty then none
              else
                match unitMap name with
                | none => none
                | some unit =>
                    if whole > 2 ^ 63 / unit then none
                    else
                      let value := whole * unit +
                        (if fraction > 0 then fractionNanos fraction unit scale else 0)
                      if value > 2 ^ 63 then none
                      else if total + value > 2 ^ 63 then none
                      else parsePairs rounds remaining (total + value)

/-- `time.ParseDuration`; `none` is any of its errors. -/
def parseDuration (text : String) : Option Duration :=
  let chars := text.toList
  let negative := chars.head? == some '-'
  let body := if chars.head? == some '-' || chars.head? == some '+' then chars.tail else chars
  if body = "0".toList then some 0
  else if body.isEmpty then none
  else
    match parsePairs body.length body 0 with
    | none => none
    | some total =>
        if negative then some (-(total : Int))
        else if total > 2 ^ 63 - 1 then none
        else some total

example : parseDuration "1h30m" = some (90 * minute) := by decide

example : parseDuration "month" = none := by decide

theorem parseDuration_lt {text : String} {d : Int} (parsed : parseDuration text = some d) :
    d < 2 ^ 63 := by
  obtain ⟨negative, body, parsed⟩ : ∃ (negative : Bool) (body : List Char),
      (if body = "0".toList then some 0
      else if body.isEmpty then none
      else
        match parsePairs body.length body 0 with
        | none => none
        | some total =>
            if negative then some (-(total : Int))
            else if total > 2 ^ 63 - 1 then none
            else some (total : Int)) = some d := ⟨_, _, parsed⟩
  cases pairs : parsePairs body.length body 0 with
  | none =>
      simp only [pairs] at parsed
      split_ifs at parsed
      cases parsed
      norm_num
  | some total =>
      simp only [pairs] at parsed
      split_ifs at parsed <;> simp only [Option.some.injEq] at parsed <;> omega

end ParseDuration

namespace Time

theorem truncate_nanos (t : Time) {d : Duration} (positive : 0 < d) :
    (t.truncate d).nanos = t.nanos - (t.nanos - zeroNanos) % d := by
  simp [truncate, not_le.mpr positive]

theorem wall_utc (nanos : Int) : wall ⟨nanos, utc⟩ = nanos := by
  simp [wall, utc]

theorem date_utc (month day : Int) (ofDay : Duration) :
    date month day ofDay utc =
      ⟨(Calendar.monthStart month + (day - 1) - epochDay) * dayNanos + ofDay, utc⟩ := by
  simp [date, utc]

end Time

end Rlaas.Go
