/-! Dates and times of day. -/

namespace OffsideRule.Toml

def isLeap (year : Nat) : Bool :=
  year % 4 = 0 && (year % 100 ≠ 0 || year % 400 = 0)

def daysIn (year month : Nat) : Nat :=
  if month = 2 then if isLeap year then 29 else 28
  else if month ∈ [4, 6, 9, 11] then 30
  else 31

/-- A day of the calendar. -/
structure Date where
  year : Nat
  month : Nat
  day : Nat
  exists_day : 1 ≤ year ∧ 1 ≤ month ∧ month ≤ 12 ∧ 1 ≤ day ∧ day ≤ daysIn year month
  deriving DecidableEq, Repr

def Date.of? (year month day : Nat) : Option Date :=
  if h : 1 ≤ year ∧ 1 ≤ month ∧ month ≤ 12 ∧ 1 ≤ day ∧ day ≤ daysIn year month then
    some ⟨year, month, day, h⟩
  else none

/-- A time of day. -/
structure Clock where
  hour : Fin 24
  minute : Fin 60
  second : Fin 60
  micro : Fin 1000000
  deriving DecidableEq, Repr

/-- A name with its arguments. -/
def call (name : String) (arguments : List String) : String :=
  name ++ "(" ++ ", ".intercalate arguments ++ ")"

def Date.numbers (d : Date) : List Nat :=
  [d.year, d.month, d.day]

/-- The numbers of a time, without seconds and their fraction where these are zero. -/
def Clock.numbers (c : Clock) : List Nat :=
  if c.micro ≠ 0 then [c.hour, c.minute, c.second, c.micro]
  else if c.second ≠ 0 then [c.hour, c.minute, c.second]
  else [c.hour, c.minute]

/-- An offset from universal time, given in minutes. -/
def zoneShown (minutes : Int) : String :=
  if minutes = 0 then "datetime.timezone.utc"
  else
    let days := (minutes * 60).fdiv 86400
    let seconds := (minutes * 60).fmod 86400
    call "datetime.timezone" [call "datetime.timedelta"
      ((if days = 0 then [] else ["days=" ++ toString days]) ++
        (if seconds = 0 then [] else ["seconds=" ++ toString seconds]))]

def Date.shown (d : Date) : String :=
  call "datetime.date" (d.numbers.map toString)

def Clock.shown (c : Clock) : String :=
  call "datetime.time" (c.numbers.map toString)

/-- A date with a time of day, and with an offset unless the time is local. -/
def dateTimeShown (d : Date) (c : Clock) (offset : Option Int) : String :=
  call "datetime.datetime" ((d.numbers ++ c.numbers).map toString ++
    (offset.map fun minutes => "tzinfo=" ++ zoneShown minutes).toList)

end OffsideRule.Toml
