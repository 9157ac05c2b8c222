import SoundArchive.Text.Blank

/-!
# Durations

A duration is written as numbers with units, as in `1h 30min`. A number may have a fraction.
-/

namespace SoundArchive

inductive DurationError where
  | empty
  | numberExpected (offset : Nat)
  | invalidCharacter (offset : Nat)
  | unknownUnit (unit : String) (number : Nat)
  /-- A number or the duration does not fit, or is no whole count of what it is kept in. -/
  | unrepresentable
deriving DecidableEq

def DurationError.message : DurationError → String
  | empty => "value was empty"
  | numberExpected offset => "expected number at " ++ toString offset
  | invalidCharacter offset => "invalid character at " ++ toString offset
  | unknownUnit unit number =>
    if unit.isEmpty then
      "time unit needed, for example " ++ toString number ++ "sec or " ++ toString number ++ "ms"
    else
      "unknown time unit \"" ++ unit ++ "\", supported units: ns, us/µs, ms, sec, min, hours, "
        ++ "days, weeks, months, years (and few variations)"
  | unrepresentable =>
    "number is too large or cannot be represented without a lack of precision "
      ++ "(values below 1ns are not supported)"

namespace Duration

/-! ## Units -/

/-- What amounts are counted in. -/
inductive Grain where
  | nanosecond
  | second
deriving DecidableEq

def perSecond : Nat := 1000000000

def Grain.size : Grain → Nat
  | nanosecond => 1
  | second => perSecond

structure Count where
  number : Nat
  grain : Grain

/-- What a unit has of its grain. Parts of it may be counted in a finer one, or not be had. -/
structure TimeUnit where
  names : List String
  whole : Count
  divided : Option Count

def units : List TimeUnit := [
  ⟨["nanos", "nsec", "ns"], ⟨1, .nanosecond⟩, none⟩,
  ⟨["usec", "us", "µs"], ⟨1000, .nanosecond⟩, some ⟨1000, .nanosecond⟩⟩,
  ⟨["millis", "msec", "ms"], ⟨1000000, .nanosecond⟩, some ⟨1000000, .nanosecond⟩⟩,
  ⟨["seconds", "second", "secs", "sec", "s"], ⟨1, .second⟩, some ⟨1000000000, .nanosecond⟩⟩,
  ⟨["minutes", "minute", "min", "mins", "m"], ⟨60, .second⟩, some ⟨60000000000, .nanosecond⟩⟩,
  ⟨["hours", "hour", "hr", "hrs", "h"], ⟨3600, .second⟩, some ⟨3600, .second⟩⟩,
  ⟨["days", "day", "d"], ⟨86400, .second⟩, some ⟨86400, .second⟩⟩,
  ⟨["weeks", "week", "wk", "wks", "w"], ⟨604800, .second⟩, some ⟨604800, .second⟩⟩,
  ⟨["months", "month", "M"], ⟨2630016, .second⟩, some ⟨2630016, .second⟩⟩,
  ⟨["years", "year", "yr", "yrs", "y"], ⟨31557600, .second⟩, some ⟨31557600, .second⟩⟩]

/-- Numbers have 64 bits. -/
def maxNumber : Nat := 0xFFFFFFFFFFFFFFFF

/-- A number as it is written: the digits in front of the point, and those behind it with the
power of ten that they are parts of. -/
structure Amount where
  whole : Nat
  part : Nat := 0
  parts : Nat := 1

/-- Adds a count to a duration in nanoseconds. Nanoseconds go on from those of the second that the
duration has begun, and are a number together with them. -/
def addCount (total : Nat) (c : Count) : Except DurationError Nat :=
  let begun := if c.grain = .nanosecond then total % perSecond else 0
  let sum := total + c.number * c.grain.size
  if begun + c.number > maxNumber ∨ sum / perSecond > maxNumber then .error .unrepresentable
  else .ok sum

/-- The parts of a unit that an amount has behind its point. They must come out even. -/
def partCount (amount : Amount) (c : Count) : Except DurationError Count :=
  let product := amount.part * c.number
  if product > maxNumber ∨ product % amount.parts ≠ 0 then .error .unrepresentable
  else .ok { c with number := product / amount.parts }

/-- Adds an amount of a unit to a duration in nanoseconds. -/
def addUnit (total : Nat) (amount : Amount) (unit : String) : Except DurationError Nat := do
  match units.find? fun u => u.names.contains unit with
  | none => throw (.unknownUnit unit amount.whole)
  | some u =>
    let total ← addCount total { u.whole with number := amount.whole * u.whole.number }
    if amount.parts = 1 then return total
    match u.divided with
    | none => throw .unrepresentable
    | some c => addCount total (← partCount amount c)

/-! ## Reading -/

def isDigit (c : Char) : Bool := '0' ≤ c && c ≤ '9'

def digit (c : Char) : Nat := c.toNat - '0'.toNat

def isUnitLetter (c : Char) : Bool := c.isAlpha || c == 'µ'

/-- The part of a duration that is being read. -/
inductive Stage where
  /-- A number must begin, or nothing is left. The offset is where its place began. -/
  | start (offset : Nat)
  | number (whole : Nat)
  /-- Behind the point at `offset`. -/
  | fraction (offset : Nat) (amount : Amount)
  /-- The letters of a unit so far, the last first. -/
  | unit (amount : Amount) (letters : List Char)

def appendDigit (n : Nat) (c : Char) : Except DurationError Nat :=
  if n * 10 + digit c > maxNumber then .error .unrepresentable else .ok (n * 10 + digit c)

def Amount.appendPart (a : Amount) (c : Char) : Except DurationError Amount := do
  let part ← appendDigit a.part c
  if a.parts * 10 > maxNumber then throw .unrepresentable
  return { a with part, parts := a.parts * 10 }

def endUnit (total : Nat) (amount : Amount) (letters : List Char) : Except DurationError Nat :=
  addUnit total amount (String.ofList letters.reverse)

def step (offset total : Nat) (c : Char) : Stage → Except DurationError (Nat × Stage)
  | .start first =>
    if isDigit c then .ok (total, .number (digit c))
    else if Text.isBlank c then .ok (total, .start first)
    else .error (.numberExpected first)
  | .number whole =>
    if isDigit c then do return (total, .number (← appendDigit whole c))
    else if Text.isBlank c then .ok (total, .number whole)
    else if isUnitLetter c then .ok (total, .unit { whole } [c])
    else if c = '.' then .ok (total, .fraction offset { whole })
    else .error (.invalidCharacter offset)
  | .fraction last amount =>
    if isDigit c then do
      return (total, .fraction (offset + 1) (← amount.appendPart c))
    else if Text.isBlank c then .ok (total, .fraction (offset + c.utf8Size) amount)
    else if isUnitLetter c ∧ amount.parts > 1 then .ok (total, .unit amount [c])
    else .error (.invalidCharacter last)
  | .unit amount letters =>
    if isDigit c then do return (← endUnit total amount letters, .number (digit c))
    else if Text.isBlank c then do
      return (← endUnit total amount letters, .start (offset + c.utf8Size))
    else if isUnitLetter c then .ok (total, .unit amount (c :: letters))
    else .error (.invalidCharacter offset)

def finish (total : Nat) : Stage → Except DurationError Nat
  | .start _ => .ok total
  | .number whole => endUnit total { whole } []
  | .fraction last amount =>
    if amount.parts > 1 then endUnit total amount [] else .error (.invalidCharacter last)
  | .unit amount letters => endUnit total amount letters

def readFrom (offset total : Nat) (stage : Stage) : List Char → Except DurationError Nat
  | [] => finish total stage
  | c :: rest => do
    let (total, stage) ← step offset total c stage
    readFrom (offset + c.utf8Size) total stage rest

/-- A duration in nanoseconds. Only 0 may stand without a unit. -/
def parse (text : String) : Except DurationError Nat :=
  if text = "0" then .ok 0
  else if text.toList.all Text.isBlank then .error .empty
  else readFrom 0 0 (.start 0) text.toList

end Duration

end SoundArchive
