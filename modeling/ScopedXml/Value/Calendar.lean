import ScopedXml.Value.Numbers

/-!
# Dates and times

The forms of the date and time types. A value is read from left to right: each reader takes its part
off the front and gives back the rest, and `isZone` asks that what remains is a time zone or
nothing.

* `daysIn`: the length of a month; February is long when the year is not known.
* `year?`: a year of four digits, or of more without a leading zero. Its number is known when a
  word of 64 bits holds it.
-/

namespace ScopedXml.Value

/-! ## Parts -/

/-- The rest behind one given character. -/
def behind? (c : Char) : List Char → Option (List Char)
  | d :: cs => if d = c then some cs else none
  | [] => none

/-- Two digits and the rest. -/
def twoDigits? : List Char → Option (Nat × List Char)
  | a :: b :: cs => if isDigit a && isDigit b then some (digitsValue [a, b], cs) else none
  | _ => none

/-- A year and the rest. -/
def year? (cs : List Char) : Option (Option Int × List Char) :=
  let (negative, body) : Bool × List Char :=
    match cs with
    | '-' :: body => (true, body)
    | _ => (false, cs)
  let digits := body.takeWhile isDigit
  let rest := body.dropWhile isDigit
  if digits.length = 4 ∨ (4 < digits.length ∧ digits.head? ≠ some '0') then
    let n : Int := if negative then -(digitsValue digits : Int) else digitsValue digits
    some (if fitsWord 64 n then some n else none, rest)
  else none

/-- A time zone: nothing, `Z`, or an offset of up to fourteen hours. -/
def isZone : List Char → Bool
  | [] => true
  | ['Z'] => true
  | [sign, a, b, ':', c, d] =>
    (sign == '+' || sign == '-') && isDigit a && isDigit b && isDigit c && isDigit d &&
      (let hours := digitsValue [a, b]
       let minutes := digitsValue [c, d]
       (hours ≤ 13 && minutes ≤ 59) || (hours == 14 && minutes == 0))
  | _ => false

/-! ## Dates -/

def isLeap (year : Int) : Bool := year % 4 == 0 && (year % 100 != 0 || year % 400 == 0)

def isMonth (month : Nat) : Bool := 1 ≤ month && month ≤ 12

/-- The days of a month. -/
def daysIn (year : Option Int) (month : Nat) : Nat :=
  if month = 4 ∨ month = 6 ∨ month = 9 ∨ month = 11 then 30
  else if month = 2 then
    if year.all isLeap then 29 else 28
  else 31

def isDay (year : Option Int) (month day : Nat) : Bool :=
  isMonth month && 1 ≤ day && day ≤ daysIn year month

/-- Month and day, with a hyphen between, and the rest. -/
def monthDay? (cs : List Char) : Option (Nat × Nat × List Char) := do
  let (month, cs) ← twoDigits? cs
  let cs ← behind? '-' cs
  let (day, cs) ← twoDigits? cs
  return (month, day, cs)

/-- The rest behind a date that exists. There is no year zero. -/
def date? (cs : List Char) : Option (List Char) := do
  let (year, cs) ← year? cs
  let cs ← behind? '-' cs
  let (month, day, cs) ← monthDay? cs
  if year ≠ some 0 ∧ isDay year month day then some cs else none

/-! ## Times of day -/

/-- The rest behind an optional fraction of a second. -/
def fraction? : List Char → Option (List Char)
  | '.' :: cs => if (cs.takeWhile isDigit).isEmpty then none else some (cs.dropWhile isDigit)
  | cs => some cs

def isClock (hour minute second : Nat) : Bool :=
  if hour = 24 ∧ minute = 0 then second == 0
  else hour < 24 && minute < 60 && second < 60

/-- The rest behind a time of day; `24:00:00` ends the day. -/
def clock? (cs : List Char) : Option (List Char) := do
  let (hour, cs) ← twoDigits? cs
  let cs ← behind? ':' cs
  let (minute, cs) ← twoDigits? cs
  let cs ← behind? ':' cs
  let (second, cs) ← twoDigits? cs
  let cs ← fraction? cs
  if isClock hour minute second then some cs else none

/-! ## The types -/

def isDate (cs : List Char) : Bool := (date? cs).any isZone

def isTime (cs : List Char) : Bool := (clock? cs).any isZone

def isDateTime (cs : List Char) : Bool :=
  (((date? cs).bind (behind? 'T')).bind clock?).any isZone

def isYear (cs : List Char) : Bool := (year? cs).any fun p => isZone p.2

def isYearMonth (cs : List Char) : Bool :=
  (((year? cs).bind fun p => behind? '-' p.2).bind twoDigits?).any fun p =>
    isMonth p.1 && isZone p.2

/-- The rest behind as many hyphens. -/
def behindHyphens? : Nat → List Char → Option (List Char)
  | 0, cs => some cs
  | n + 1, cs => (behind? '-' cs).bind (behindHyphens? n)

def isMonthAlone (cs : List Char) : Bool :=
  ((behindHyphens? 2 cs).bind twoDigits?).any fun p => isMonth p.1 && isZone p.2

def isDayAlone (cs : List Char) : Bool :=
  ((behindHyphens? 3 cs).bind twoDigits?).any fun p => 1 ≤ p.1 && p.1 ≤ 31 && isZone p.2

def isMonthDay (cs : List Char) : Bool :=
  ((behindHyphens? 2 cs).bind monthDay?).any fun p => isDay none p.1 p.2.1 && isZone p.2.2

/-! ## Durations -/

/-- The rest behind digits and a unit, or all of it where they do not stand. -/
def dropField (unit : Char) (cs : List Char) : List Char :=
  if (cs.takeWhile isDigit).isEmpty then cs
  else (behind? unit (cs.dropWhile isDigit)).getD cs

/-- The rest behind seconds, which may have a fraction. -/
def dropSeconds (cs : List Char) : List Char :=
  if (cs.takeWhile isDigit).isEmpty then cs
  else (((fraction? (cs.dropWhile isDigit)).bind (behind? 'S'))).getD cs

/-- Fields of a duration in their order; there must be one behind `P`, and one behind `T`. -/
def isDuration (cs : List Char) : Bool :=
  let body : List Char :=
    match cs with
    | '-' :: body => body
    | _ => cs
  match behind? 'P' body with
  | none => false
  | some fields =>
    let rest := dropField 'D' (dropField 'M' (dropField 'Y' fields))
    match rest with
    | [] => !fields.isEmpty
    | c :: time =>
      c == 'T' && !time.isEmpty && (dropSeconds (dropField 'M' (dropField 'H' time))).isEmpty

end ScopedXml.Value
