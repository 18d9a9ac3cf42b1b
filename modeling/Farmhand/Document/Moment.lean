/-!
# Days and Times

A moment of a document is a day, a time of day, or both, and a day with a time may say how far its
clock is ahead of universal time. Only moments that exist are read: months have their number of
days, leap years included, and an hour has sixty minutes. The sixtieth second is allowed.

## Main definitions

* `Date`, `Time`, `Offset`, `Moment`: The parts and the whole.
* `Moment.read?`: A text as a moment.
* `Moment.render`: The text of a moment.
-/

namespace Farmhand

namespace Document

/-- A day. -/
structure Date where
  year : Nat
  month : Nat
  day : Nat
deriving DecidableEq, Inhabited

/-- A time of day. -/
structure Time where
  hour : Nat
  minute : Nat
  second : Nat
  nanosecond : Nat
deriving DecidableEq, Inhabited

/-- How far a clock is ahead of universal time. -/
inductive Offset where
  | universal
  | minutes (ahead : Int)
deriving DecidableEq, Inhabited

/-- A day, a time of day, or a day with a time. -/
inductive Moment where
  | day (date : Date)
  | clock (time : Time)
  | both (date : Date) (time : Time) (offset : Option Offset)
deriving DecidableEq, Inhabited

/-- A number of exactly `count` digits at the start of a text, and what follows. -/
def digits? (count : Nat) (cs : List Char) : Option (Nat × List Char) :=
  let digits := cs.take count
  if digits.length = count && digits.all Char.isDigit then
    some (digits.foldl (fun n c => 10 * n + (c.toNat - '0'.toNat)) 0, cs.drop count)
  else none

/-- A character at the start of a text, and what follows it. -/
def char? (c : Char) : List Char → Option (List Char)
  | [] => none
  | d :: rest => if d = c then some rest else none

namespace Date

/-- Whether a year has a twenty-ninth of February. -/
def isLeap (year : Nat) : Bool :=
  year % 4 = 0 && (year % 100 ≠ 0 || year % 400 = 0)

/-- The number of days of a month. -/
def daysOfMonth (year month : Nat) : Nat :=
  if month = 2 then (if isLeap year then 29 else 28)
  else if month = 4 || month = 6 || month = 9 || month = 11 then 30
  else 31

/-- A day at the start of a text, and what follows. -/
def read? (cs : List Char) : Option (Date × List Char) := do
  let (year, cs) ← digits? 4 cs
  let cs ← char? '-' cs
  let (month, cs) ← digits? 2 cs
  let cs ← char? '-' cs
  let (day, cs) ← digits? 2 cs
  if 1 ≤ month && month ≤ 12 && 1 ≤ day && day ≤ daysOfMonth year month then
    some (⟨year, month, day⟩, cs)
  else none

end Date

namespace Time

/-- The billionths of a fraction given by its digits; those beyond the ninth are dropped. -/
def billionths (digits : List Char) : Nat :=
  (digits.take 9 ++ List.replicate (9 - digits.length) '0').foldl
    (fun n c => 10 * n + (c.toNat - '0'.toNat)) 0

/-- The fraction of a second at the start of a text, zero if there is none, and what follows. -/
def fraction? (cs : List Char) : Option (Nat × List Char) :=
  match cs with
  | '.' :: rest =>
    let digits := rest.takeWhile Char.isDigit
    if digits.isEmpty then none else some (billionths digits, rest.dropWhile Char.isDigit)
  | cs => some (0, cs)

/-- An hour and a minute at the start of a text, and what follows. -/
def hourMinute? (cs : List Char) : Option (Nat × Nat × List Char) := do
  let (hour, cs) ← digits? 2 cs
  let cs ← char? ':' cs
  let (minute, cs) ← digits? 2 cs
  if hour ≤ 23 && minute ≤ 59 then some (hour, minute, cs) else none

/-- A time of day at the start of a text, and what follows. -/
def read? (cs : List Char) : Option (Time × List Char) := do
  let (hour, minute, cs) ← hourMinute? cs
  let cs ← char? ':' cs
  let (second, cs) ← digits? 2 cs
  if second ≤ 60 then
    let (nanosecond, cs) ← fraction? cs
    some (⟨hour, minute, second, nanosecond⟩, cs)
  else none

end Time

/-- The offset that a text is, if it is not empty. -/
def Offset.read? (cs : List Char) : Option (Option Offset) :=
  match cs with
  | [] => some none
  | sign :: rest =>
    if sign = 'Z' || sign = 'z' then
      if rest.isEmpty then some (some .universal) else none
    else if sign = '+' || sign = '-' then
      match Time.hourMinute? rest with
      | some (hour, minute, []) =>
        let ahead : Int := 60 * hour + minute
        some (some (.minutes (if sign = '-' then -ahead else ahead)))
      | _ => none
    else none

namespace Moment

/-- The characters between a day and a time. -/
def isDelimiter (c : Char) : Bool :=
  c == 'T' || c == 't' || c == ' '

/-- A whole text as a moment. -/
def read? (cs : List Char) : Option Moment :=
  match Date.read? cs with
  | some (date, []) => some (.day date)
  | some (date, c :: rest) =>
    if isDelimiter c then do
      let (time, rest) ← Time.read? rest
      let offset ← Offset.read? rest
      some (.both date time offset)
    else none
  | none =>
    match Time.read? cs with
    | some (time, []) => some (.clock time)
    | _ => none

end Moment

/-- A number with at least `width` digits. -/
def padded (width n : Nat) : String :=
  let digits := Nat.toDigits 10 n
  String.ofList (List.replicate (width - digits.length) '0' ++ digits)

/-- The text of a day. -/
def Date.render (d : Date) : String :=
  s!"{padded 4 d.year}-{padded 2 d.month}-{padded 2 d.day}"

/-- The text of a time of day, with no more digits of its fraction than it needs. -/
def Time.render (t : Time) : String :=
  let whole := s!"{padded 2 t.hour}:{padded 2 t.minute}:{padded 2 t.second}"
  if t.nanosecond = 0 then whole
  else
    let digits := (padded 9 t.nanosecond).toList.reverse.dropWhile (· == '0')
    whole ++ "." ++ String.ofList digits.reverse

/-- The text of an offset. -/
def Offset.render : Offset → String
  | universal => "Z"
  | minutes ahead =>
    let sign := if ahead < 0 then "-" else "+"
    let size := ahead.natAbs
    s!"{sign}{padded 2 (size / 60)}:{padded 2 (size % 60)}"

/-- The text of a moment. -/
def Moment.render : Moment → String
  | day date => date.render
  | clock time => time.render
  | both date time offset =>
    let suffix :=
      match offset with
      | some o => o.render
      | none => ""
    s!"{date.render}T{time.render}{suffix}"

end Document

end Farmhand
