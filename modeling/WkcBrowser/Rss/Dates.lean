import WkcBrowser.Lib.Bytes
import Mathlib.Data.List.TakeWhile

/-!
# The date parsers of `WKCRSSParser`

A position in a string is what is left of it; behind the end there is only the NUL, which no parser takes.  A parser
returns `none` for `false`; it moves its position only if it returns `true`, unless it says otherwise.

* `parseRFC5234Octet`, .., `parseBWS`       characters, names, digits, blanks;
* `parseRFC5322DateTime`                    the date of an RSS item;
* `parseRFC3339DateTime`                    that of an Atom entry;
* `parseW3CDateTime`                        that of `dc:date`, which may be a part of a date only.
-/

namespace Wkc
namespace Rss

def octets (cs : List Char) : Bytes := cs.map (fun c => UInt8.ofNat c.toNat)

/-- a string as `getContentInUTF8` makes it: its length is an `unsigned int` -/
structure CString where
  chars : Bytes
  bound : chars.length < 2 ^ 32

def isASCIIDigit (c : UInt8) : Bool := 0x30 ≤ c.toNat && c.toNat ≤ 0x39

def toASCIILower (c : UInt8) : UInt8 := if 0x41 ≤ c.toNat ∧ c.toNat ≤ 0x5A then c ||| 0x20 else c

def lastDayOfMonth (year month : Nat) : Nat :=
  if 12 < month then 0
  else if (year % 4 = 0 ∧ year % 100 ≠ 0) ∨ year % 400 = 0 then
    [0, 31, 29, 31, 30, 31, 30, 31, 31, 30, 31, 30, 31].getD month 0
  else [0, 31, 28, 31, 30, 31, 30, 31, 31, 30, 31, 30, 31].getD month 0

inductive DateType where
  | EType_Y | EType_YM | EType_YMD | EType_YMDHMZ | EType_YMDHMSZ
  deriving DecidableEq

/-- `m_type`, the members of `m_tm` that are set, `m_zone` -/
structure Date where
  type : DateType
  year : Int
  mon : Int
  mday : Int
  hour : Int
  min : Int
  sec : Int
  zone : Int
  deriving DecidableEq

/-! ## RFC 5234 -/

def parseRFC5234Octet (ref : UInt8) : Bytes → Option Bytes
  | [] => none
  | c :: s => if c = ref then some s else none

def parseRFC5234OctetsNocase : Bytes → Bytes → Option Bytes
  | [], s => some s
  | _ :: _, [] => none
  | r :: ref, c :: s => if toASCIILower c = toASCIILower r then parseRFC5234OctetsNocase ref s else none

def digitValue (c : UInt8) : Nat := c.toNat - 0x30

def decimal (digits : Bytes) : Nat := digits.foldl (fun value c => 10 * value + digitValue c) 0

def parseRFC5234Digit : Bytes → Option (Nat × Bytes)
  | [] => none
  | c :: s => if isASCIIDigit c then some (digitValue c, s) else none

/-- from `m` to `n` digits, as many as there are -/
def parseRFC5234Digits (m n : Nat) (src : Bytes) : Option (Nat × Bytes) :=
  let digits := (src.take n).takeWhile isASCIIDigit
  if m ≤ digits.length then some (decimal digits, src.drop digits.length) else none

/-- HTAB, LF, CR, SP -/
def isBWS (c : UInt8) : Bool := c == 0x09 || c == 0x0A || c == 0x0D || c == 0x20

def parseBWS : Bytes → Option Bytes
  | [] => none
  | c :: s => if isBWS c then some (s.dropWhile isBWS) else none

/-- `parseBWS(&s, 0), ..`: it does not matter whether there are any -/
def skipBWS (src : Bytes) : Bytes := (parseBWS src).getD src

/-! ## RFC 5322 -/

def obs_zone : List (Bytes × Int) :=
  [(octets ['U', 'T'], 0), (octets ['G', 'M', 'T'], 0),
    (octets ['E', 'S', 'T'], -500), (octets ['E', 'D', 'T'], -400),
    (octets ['C', 'S', 'T'], -600), (octets ['C', 'D', 'T'], -500),
    (octets ['M', 'S', 'T'], -700), (octets ['M', 'D', 'T'], -600),
    (octets ['P', 'S', 'T'], -800), (octets ['P', 'D', 'T'], -700),
    (octets ['J', 'S', 'T'], 900),
    (octets ['A'], 100), (octets ['B'], 200), (octets ['C'], 300), (octets ['D'], 400),
    (octets ['E'], 500), (octets ['F'], 600), (octets ['G'], 700), (octets ['H'], 800),
    (octets ['I'], 900), (octets ['K'], 1000), (octets ['L'], 1100), (octets ['M'], 1200),
    (octets ['N'], -100), (octets ['O'], -200), (octets ['P'], -300), (octets ['Q'], -400),
    (octets ['R'], -500), (octets ['S'], -600), (octets ['T'], -700), (octets ['U'], -800),
    (octets ['V'], -900), (octets ['W'], -1000), (octets ['X'], -1100), (octets ['Y'], -1200),
    (octets ['Z'], 0)]

/-- the first of the names that the string begins with -/
def parseName {α : Type} : List (Bytes × α) → Bytes → Option (α × Bytes)
  | [], _ => none
  | (symbol, value) :: names, src =>
    match parseRFC5234OctetsNocase symbol src with
    | some s => some (value, s)
    | none => parseName names src

def parseRFC5322ObsZone (src : Bytes) : Option (Int × Bytes) := do
  let (zone, s) ← parseName obs_zone src
  return (60 * zone.tdiv 100 + zone.tmod 100, s)

def parseSign (src : Bytes) : Option (Int × Bytes) :=
  match parseRFC5234Octet 0x2B src with
  | some s => some (1, s)
  | none => (parseRFC5234Octet 0x2D src).map fun s => (-1, s)

def numericZone (src : Bytes) : Option (Int × Bytes) := do
  let (sign, s) ← parseSign src
  let (zone, s) ← parseRFC5234Digits 4 4 s
  guard (zone ≤ 9959)
  return (sign * (60 * (zone / 100) + zone % 100 : Nat), s)

def parseRFC5322Zone (src : Bytes) : Option (Int × Bytes) :=
  match numericZone src with
  | some zone => some zone
  | none => parseRFC5322ObsZone src

structure TimeOfDay where
  type : DateType
  hour : Nat
  minute : Nat
  second : Nat

/-- the part behind the minutes -/
def parseSecond (src : Bytes) : Option (Nat × Bytes) := do
  let s ← parseRFC5234Octet 0x3A (skipBWS src)
  let (second, s) ← parseRFC5234Digits 2 2 (skipBWS s)
  guard (second ≤ 60)
  return (second, s)

def parseRFC5322TimeOfDay (src : Bytes) : Option (TimeOfDay × Bytes) := do
  let (hour, s) ← parseRFC5234Digits 2 2 (skipBWS src)
  guard (hour ≤ 23)
  let s ← parseRFC5234Octet 0x3A (skipBWS s)
  let (minute, s) ← parseRFC5234Digits 2 2 (skipBWS s)
  guard (minute ≤ 59)
  match parseSecond s with
  | some (second, s) => return ({ type := .EType_YMDHMSZ, hour := hour, minute := minute, second := second }, skipBWS s)
  | none => return ({ type := .EType_YMDHMZ, hour := hour, minute := minute, second := 0 }, skipBWS s)

def parseRFC5322Time (src : Bytes) : Option ((TimeOfDay × Int) × Bytes) := do
  let (time, s) ← parseRFC5322TimeOfDay src
  let (zone, s) ← parseRFC5322Zone s
  return ((time, zone), s)

/-- the digits, however many: their number, and their value -/
def yearLoop : Bytes → UInt32 → UInt32 → UInt32 × UInt32 × Bytes
  | [], count, year => (count, year, [])
  | c :: s, count, year =>
    if isASCIIDigit c then yearLoop s (count + 1) (year * 10 + UInt32.ofNat (digitValue c)) else (count, year, c :: s)

def parseRFC5322Year (src : Bytes) : Option (Nat × Bytes) := do
  let s ← parseBWS src
  let (count, year, s) := yearLoop s 0 0
  guard (2 ≤ count ∧ count ≤ 9)
  let year := if count < 4 then (if year ≤ 49 then year + 2000 else year + 1900) else year
  guard (0 < year)
  let s ← parseBWS s
  return (year.toNat, s)

def month_name : List (Bytes × Nat) :=
  [(octets ['J', 'a', 'n'], 1), (octets ['F', 'e', 'b'], 2), (octets ['M', 'a', 'r'], 3),
    (octets ['A', 'p', 'r'], 4), (octets ['M', 'a', 'y'], 5), (octets ['J', 'u', 'n'], 6),
    (octets ['J', 'u', 'l'], 7), (octets ['A', 'u', 'g'], 8), (octets ['S', 'e', 'p'], 9),
    (octets ['O', 'c', 't'], 10), (octets ['N', 'o', 'v'], 11), (octets ['D', 'e', 'c'], 12)]

def parseRFC5322Month (src : Bytes) : Option (Nat × Bytes) := parseName month_name src

structure Day where
  year : Nat
  month : Nat
  day : Nat

def parseRFC5322Date (src : Bytes) : Option (Day × Bytes) := do
  let (day, s) ← parseRFC5234Digits 1 2 (skipBWS src)
  let s ← parseBWS s
  let (month, s) ← parseRFC5322Month s
  let (year, s) ← parseRFC5322Year s
  guard (1 ≤ day ∧ day ≤ lastDayOfMonth year month)
  return ({ year := year, month := month, day := day }, s)

def day_name : List (Bytes × Nat) :=
  [(octets ['M', 'o', 'n'], 0), (octets ['T', 'u', 'e'], 1), (octets ['W', 'e', 'd'], 2),
    (octets ['T', 'h', 'u'], 3), (octets ['F', 'r', 'i'], 4), (octets ['S', 'a', 't'], 5),
    (octets ['S', 'u', 'n'], 6)]

def parseRFC5322DayOfWeek (src : Bytes) : Option (Nat × Bytes) := do
  let (day_of_week, s) ← parseName day_name (skipBWS src)
  return (day_of_week, skipBWS s)

/-- the weekday and its comma, if they are there -/
def skipDayOfWeek (src : Bytes) : Bytes :=
  match (do let (_, s) ← parseRFC5322DayOfWeek src; parseRFC5234Octet 0x2C s) with
  | some s => s
  | none => src

/-- the fields that are stored -/
def Day.at (day : Day) (time : TimeOfDay) (zone : Int) : Date where
  type := time.type
  year := day.year
  mon := day.month - 1
  mday := day.day
  hour := time.hour
  min := time.minute
  sec := time.second
  zone := zone

def readRFC5322DateTime (src : Bytes) : Option (Date × Bytes) := do
  let (day, s) ← parseRFC5322Date (skipDayOfWeek src)
  let ((time, zone), s) ← parseRFC5322Time s
  return (day.at time zone, s)

/-- what a call leaves: its result, the position, and the date unless `out_date` is null -/
structure Parsed where
  result : Bool
  src : Bytes
  date : Option Date

def parseRFC5322DateTime (inout_src : Bytes) (out_date : Option Date) : Parsed :=
  match readRFC5322DateTime inout_src with
  | some (date, s) => { result := true, src := s, date := out_date.map fun _ => date }
  | none => { result := false, src := inout_src, date := out_date }

/-! ## RFC 3339 -/

/-- `"." 1*DIGIT`, if it is there -/
def skipSecfrac (src : Bytes) : Bytes :=
  match (do let s ← parseRFC5234Octet 0x2E src; parseRFC5234Digit s) with
  | some (_, s) => s.dropWhile isASCIIDigit
  | none => src

def parseRFC3339PartialTime (src : Bytes) : Option (TimeOfDay × Bytes) := do
  let (hour, s) ← parseRFC5234Digits 2 2 src
  guard (hour ≤ 23)
  let s ← parseRFC5234Octet 0x3A s
  let (minute, s) ← parseRFC5234Digits 2 2 s
  guard (minute ≤ 59)
  let s ← parseRFC5234Octet 0x3A s
  let (second, s) ← parseRFC5234Digits 2 2 s
  guard (second ≤ 60)
  return ({ type := .EType_YMDHMSZ, hour := hour, minute := minute, second := second }, skipSecfrac s)

def numericOffset (src : Bytes) : Option (Int × Bytes) := do
  let (sign, s) ← parseSign src
  let (hour, s) ← parseRFC5234Digits 2 2 s
  guard (hour ≤ 23)
  let s ← parseRFC5234Octet 0x3A s
  let (minute, s) ← parseRFC5234Digits 2 2 s
  guard (minute ≤ 59)
  return (sign * (60 * hour + minute : Nat), s)

def parseRFC3339TimeOffset (src : Bytes) : Option (Int × Bytes) :=
  match parseRFC5234OctetsNocase (octets ['Z']) src with
  | some s => some (0, s)
  | none => numericOffset src

def parseRFC3339FullTime (src : Bytes) : Option ((TimeOfDay × Int) × Bytes) := do
  let (time, s) ← parseRFC3339PartialTime src
  let (offset, s) ← parseRFC3339TimeOffset s
  return ((time, offset), s)

def parseRFC3339FullDate (src : Bytes) : Option (Day × Bytes) := do
  let (year, s) ← parseRFC5234Digits 4 4 src
  guard (0 < year)
  let s ← parseRFC5234Octet 0x2D s
  let (month, s) ← parseRFC5234Digits 2 2 s
  guard (1 ≤ month ∧ month ≤ 12)
  let s ← parseRFC5234Octet 0x2D s
  let (mday, s) ← parseRFC5234Digits 2 2 s
  guard (1 ≤ mday ∧ mday ≤ lastDayOfMonth year month)
  return ({ year := year, month := month, day := mday }, s)

def readRFC3339DateTime (src : Bytes) : Option (Date × Bytes) := do
  let (day, s) ← parseRFC3339FullDate (skipBWS src)
  let s ← parseRFC5234OctetsNocase (octets ['T']) s
  let ((time, offset), s) ← parseRFC3339FullTime s
  return (day.at time offset, s)

def parseRFC3339DateTime (inout_src : Bytes) (out_date : Option Date) : Parsed :=
  match readRFC3339DateTime inout_src with
  | some (date, s) => { result := true, src := s, date := out_date.map fun _ => date }
  | none => { result := false, src := inout_src, date := out_date }

/-! ## W3C NOTE-datetime -/

def parseW3CZone (src : Bytes) : Option (Int × Bytes) := parseRFC3339TimeOffset src

/-- the seconds, without which there may still be a fraction -/
def parseW3CSecond (src : Bytes) : Option (Nat × Bytes) := do
  let s ← parseRFC5234Octet 0x3A src
  let (second, s) ← parseRFC5234Digits 2 2 s
  guard (second ≤ 60)
  return (second, s)

def parseW3CTime (src : Bytes) : Option (TimeOfDay × Bytes) := do
  let (hour, s) ← parseRFC5234Digits 2 2 src
  guard (hour ≤ 23)
  let s ← parseRFC5234Octet 0x3A s
  let (minute, s) ← parseRFC5234Digits 2 2 s
  guard (minute ≤ 59)
  match parseW3CSecond s with
  | some (second, s) =>
    return ({ type := .EType_YMDHMSZ, hour := hour, minute := minute, second := second }, skipSecfrac s)
  | none => return ({ type := .EType_YMDHMZ, hour := hour, minute := minute, second := 0 }, skipSecfrac s)

def w3cYear (src : Bytes) : Option (Nat × Bytes) := do
  let (year, s) ← parseRFC5234Digits 4 4 (skipBWS src)
  guard (year ≠ 0)
  return (year, s)

def w3cMonth (src : Bytes) : Option (Nat × Bytes) := do
  let s ← parseRFC5234Octet 0x2D src
  let (month, s) ← parseRFC5234Digits 2 2 s
  guard (1 ≤ month ∧ month ≤ 12)
  return (month, s)

def w3cDay (year month : Nat) (src : Bytes) : Option (Nat × Bytes) := do
  let s ← parseRFC5234Octet 0x2D src
  let (mday, s) ← parseRFC5234Digits 2 2 s
  guard (1 ≤ mday ∧ mday ≤ lastDayOfMonth year month)
  return (mday, s)

def w3cTime (src : Bytes) : Option ((TimeOfDay × Int) × Bytes) := do
  let s ← parseRFC5234OctetsNocase (octets ['T']) src
  let (time, s) ← parseW3CTime s
  let (zone, s) ← parseW3CZone s
  return ((time, zone), s)

/-- Each stage stores what it has; the last one does not move the position. -/
def parseW3CDateTime (inout_src : Bytes) (out_date : Option Date) : Parsed :=
  match w3cYear inout_src with
  | none => { result := false, src := inout_src, date := out_date }
  | some (year, s) =>
    let date : Date :=
      { type := .EType_Y, year := year, mon := 0, mday := 0, hour := 0, min := 0, sec := 0, zone := 0 }
    match w3cMonth s with
    | none => { result := true, src := s, date := out_date.map fun _ => date }
    | some (month, s) =>
      let date := { date with type := .EType_YM, mon := month - 1 }
      match w3cDay year month s with
      | none => { result := true, src := s, date := out_date.map fun _ => date }
      | some (mday, s) =>
        let date := { date with type := .EType_YMD, mday := mday }
        match w3cTime s with
        | none => { result := true, src := s, date := out_date.map fun _ => date }
        | some ((time, zone), _) =>
          { result := true, src := s, date := out_date.map fun _ =>
              { date with type := time.type, hour := time.hour, min := time.minute, sec := time.second, zone := zone } }

end Rss
end Wkc
