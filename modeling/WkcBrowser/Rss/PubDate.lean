import WkcBrowser.Lib.Readers
import WkcBrowser.Rss.Dates
import Mathlib.Tactic.IntervalCases

/-!
# `pubDate`: the strings that `parseRFC5322DateTime` takes

* `IsDateTime`, ..               the grammar in the comments of the source, and what its words denote;
* `parseName_covers`             names that are prefixes of other names come behind them;
* `readRFC5322DateTime_sound`    what is read is a word of the grammar;
* `readRFC5322DateTime_covers`   a word in front is read, with as much of a longer zone as there is;
* `parseRFC5322DateTime_grammar`  the longest word in front is taken, and its date is stored.
-/

namespace Wkc
namespace Rss
open Readers

/-! ## the grammar -/

/-- `1*(HTAB / LF / CR / SP)` -/
def IsBWS (p : Bytes) : Prop := p ≠ [] ∧ ∀ c ∈ p, isBWS c = true

/-- `[BWS]` -/
def IsOptBWS (p : Bytes) : Prop := ∀ c ∈ p, isBWS c = true

/-- `m*nDIGIT` -/
def IsDigits (m n : Nat) : Lang UInt8 Nat := fun p v =>
  m ≤ p.length ∧ p.length ≤ n ∧ (∀ c ∈ p, isASCIIDigit c = true) ∧ v = decimal p

/-- one of the names, in any letter case -/
def IsName {α : Type} (names : List (Bytes × α)) : Lang UInt8 α := fun p a =>
  ∃ symbol, (symbol, a) ∈ names ∧ p.map toASCIILower = symbol.map toASCIILower

def zoneHours : List (Bytes × Int) :=
  [(octets ['U', 'T'], 0), (octets ['G', 'M', 'T'], 0),
    (octets ['E', 'S', 'T'], -5), (octets ['E', 'D', 'T'], -4), (octets ['C', 'S', 'T'], -6),
    (octets ['C', 'D', 'T'], -5), (octets ['M', 'S', 'T'], -7), (octets ['M', 'D', 'T'], -6),
    (octets ['P', 'S', 'T'], -8), (octets ['P', 'D', 'T'], -7), (octets ['J', 'S', 'T'], 9),
    (octets ['A'], 1), (octets ['B'], 2), (octets ['C'], 3), (octets ['D'], 4), (octets ['E'], 5), (octets ['F'], 6),
    (octets ['G'], 7), (octets ['H'], 8), (octets ['I'], 9), (octets ['K'], 10), (octets ['L'], 11), (octets ['M'], 12),
    (octets ['N'], -1), (octets ['O'], -2), (octets ['P'], -3), (octets ['Q'], -4), (octets ['R'], -5),
    (octets ['S'], -6), (octets ['T'], -7), (octets ['U'], -8), (octets ['V'], -9), (octets ['W'], -10),
    (octets ['X'], -11), (octets ['Y'], -12), (octets ['Z'], 0)]

/-- `( "+" / "-" ) 4DIGIT`, in minutes -/
def IsNumericZone : Lang UInt8 Int := fun p zone =>
  ∃ sign digits v, p = sign :: digits ∧ IsDigits 4 4 digits v ∧ v ≤ 9959 ∧
    (sign = 0x2B ∧ zone = 60 * (v / 100 : Nat) + (v % 100 : Nat) ∨
      sign = 0x2D ∧ zone = -(60 * (v / 100 : Nat) + (v % 100 : Nat)))

/-- `(( "+" / "-" ) 4DIGIT) / obs-zone` -/
def IsZone : Lang UInt8 Int := fun p zone =>
  IsNumericZone p zone ∨ ∃ hours, IsName zoneHours p hours ∧ zone = 60 * hours

/-- `[BWS] 2DIGIT [BWS]` -/
def IsTwoDigits (max : Nat) : Lang UInt8 Nat := fun p v =>
  ∃ front digits back, p = front ++ digits ++ back ∧ IsOptBWS front ∧ IsDigits 2 2 digits v ∧ IsOptBWS back ∧ v ≤ max

/-- `hour ":" minute [ ":" second ]` -/
def IsTimeOfDay : Lang UInt8 TimeOfDay := fun p time =>
  ∃ hour minute, IsTwoDigits 23 hour time.hour ∧ IsTwoDigits 59 minute time.minute ∧
    (p = hour ++ 0x3A :: minute ∧ time.type = .EType_YMDHMZ ∧ time.second = 0 ∨
      ∃ second, p = hour ++ 0x3A :: minute ++ 0x3A :: second ∧ time.type = .EType_YMDHMSZ ∧
        IsTwoDigits 60 second time.second)

/-- years of fewer than four digits -/
def fullYear (count v : Nat) : Nat := if count < 4 then (if v ≤ 49 then v + 2000 else v + 1900) else v

/-- `BWS 2*9DIGIT BWS` -/
def IsYear : Lang UInt8 Nat := fun p year =>
  ∃ front digits back v, p = front ++ digits ++ back ∧ IsBWS front ∧ IsDigits 2 9 digits v ∧ IsBWS back ∧
    year = fullYear digits.length v ∧ 0 < year

def daysIn (year month : Nat) : Nat :=
  if month = 2 then (if 4 ∣ year ∧ (100 ∣ year → 400 ∣ year) then 29 else 28)
  else if month = 4 ∨ month = 6 ∨ month = 9 ∨ month = 11 then 30
  else 31

/-- `day month year`, with `[BWS] 1*2DIGIT BWS` for the day -/
def IsDate : Lang UInt8 Day := fun p date =>
  ∃ front digits back month year, p = front ++ digits ++ back ++ month ++ year ∧
    IsOptBWS front ∧ IsDigits 1 2 digits date.day ∧ IsBWS back ∧ IsName month_name month date.month ∧
    IsYear year date.year ∧ 1 ≤ date.day ∧ date.day ≤ daysIn date.year date.month

/-- `[BWS] day-name [BWS]` -/
def IsDayOfWeek : Lang UInt8 Nat := fun p day_of_week =>
  ∃ front symbol back, p = front ++ symbol ++ back ∧ IsOptBWS front ∧ IsName day_name symbol day_of_week ∧ IsOptBWS back

/-- `[ day-of-week "," ] date time`, with `time-of-day zone` for the time -/
def IsDateTime : Lang UInt8 Date := fun p date =>
  ∃ weekday day time zone d t z, p = weekday ++ day ++ time ++ zone ∧
    (weekday = [] ∨ ∃ symbol n, weekday = symbol ++ [0x2C] ∧ IsDayOfWeek symbol n) ∧
    IsDate day d ∧ IsTimeOfDay time t ∧ IsZone zone z ∧ date = d.at t z

/-! ## blanks -/

theorem skipBWS_eq (s : Bytes) : skipBWS s = s.dropWhile isBWS := by
  cases s with
  | nil => rfl
  | cons c s =>
    cases hc : isBWS c with
    | true | false => simp [skipBWS, parseBWS, hc]

theorem skipBWS_split (s : Bytes) : ∃ p, s = p ++ skipBWS s ∧ IsOptBWS p := by
  rw [skipBWS_eq]
  refine ⟨s.takeWhile isBWS, List.takeWhile_append_dropWhile.symm, ?_⟩
  intro c hc
  exact List.mem_takeWhile_imp hc

theorem skipBWS_append {p : Bytes} (hp : IsOptBWS p) (t : Bytes) : skipBWS (p ++ t) = skipBWS t := by
  rw [skipBWS_eq, skipBWS_eq, List.dropWhile_append_of_pos hp]

theorem skipBWS_cons {c : UInt8} (hc : isBWS c = false) (t : Bytes) : skipBWS (c :: t) = c :: t := by
  rw [skipBWS_eq, List.dropWhile_cons_of_neg (by simp [hc])]

theorem skipBWS_skipBWS (s : Bytes) : skipBWS (skipBWS s) = skipBWS s := by
  obtain ⟨p, hs, hp⟩ := skipBWS_split s
  rw [← skipBWS_append hp, ← hs]

theorem parseBWS_sound {s t : Bytes} (h : parseBWS s = some t) : ∃ p, s = p ++ t ∧ IsBWS p := by
  cases s with
  | nil => exact absurd h (by simp [parseBWS])
  | cons c s =>
    simp only [parseBWS, Option.ite_none_right_eq_some, Option.some.injEq] at h
    obtain ⟨hc, rfl⟩ := h
    refine ⟨c :: s.takeWhile isBWS, by simp, by simp, ?_⟩
    intro x hx
    rcases List.mem_cons.mp hx with rfl | hx
    · exact hc
    · exact List.mem_takeWhile_imp hx

theorem parseBWS_append {p : Bytes} (hp : IsBWS p) (t : Bytes) : parseBWS (p ++ t) = some (skipBWS t) := by
  obtain ⟨hne, hp⟩ := hp
  obtain ⟨c, p, rfl⟩ := List.exists_cons_of_ne_nil hne
  have htail : IsOptBWS p := by
    intro x hx
    exact hp x (List.mem_cons_of_mem _ hx)
  rw [List.cons_append, parseBWS, if_pos (hp c List.mem_cons_self), List.dropWhile_append_of_pos htail, skipBWS_eq]

/-! ## characters, digits, names -/

theorem parseRFC5234Octet_sound {ref : UInt8} {s t : Bytes} (h : parseRFC5234Octet ref s = some t) : s = ref :: t := by
  cases s with
  | nil => exact absurd h (by simp [parseRFC5234Octet])
  | cons c s =>
    simp only [parseRFC5234Octet, Option.ite_none_right_eq_some, Option.some.injEq] at h
    obtain ⟨rfl, rfl⟩ := h
    rfl

@[simp] theorem parseRFC5234Octet_cons (ref : UInt8) (s : Bytes) : parseRFC5234Octet ref (ref :: s) = some s :=
  if_pos rfl

theorem parseRFC5234OctetsNocase_iff (ref s t : Bytes) :
    parseRFC5234OctetsNocase ref s = some t ↔ ∃ p, s = p ++ t ∧ p.map toASCIILower = ref.map toASCIILower := by
  induction ref generalizing s with
  | nil =>
    simp only [parseRFC5234OctetsNocase, Option.some.injEq, List.map_nil, List.map_eq_nil_iff]
    constructor
    · rintro rfl
      exact ⟨[], rfl, rfl⟩
    · rintro ⟨p, rfl, rfl⟩
      rfl
  | cons r ref ih =>
    cases s with
    | nil => simp [parseRFC5234OctetsNocase]
    | cons c s =>
      simp only [parseRFC5234OctetsNocase, Option.ite_none_right_eq_some, ih]
      constructor
      · rintro ⟨hc, p, rfl, hp⟩
        exact ⟨c :: p, rfl, by rw [List.map_cons, List.map_cons, hc, hp]⟩
      · rintro ⟨p, hs, hp⟩
        cases p with
        | nil => exact absurd hp (by simp)
        | cons x p =>
          rw [List.cons_append, List.cons.injEq] at hs
          rw [List.map_cons, List.map_cons, List.cons.injEq] at hp
          obtain ⟨rfl, rfl⟩ := hs
          exact ⟨hp.1, p, rfl, hp.2⟩

theorem parseRFC5234Digits_sound {m n v : Nat} {s t : Bytes} (h : parseRFC5234Digits m n s = some (v, t)) :
    ∃ p, s = p ++ t ∧ IsDigits m n p v := by
  simp only [parseRFC5234Digits, Option.ite_none_right_eq_some, Option.some.injEq, Prod.mk.injEq] at h
  obtain ⟨hm, rfl, rfl⟩ := h
  have hpre : (s.take n).takeWhile isASCIIDigit <+: s := (List.takeWhile_prefix _).trans (List.take_prefix n s)
  have hlen : ((s.take n).takeWhile isASCIIDigit).length ≤ n :=
    (List.takeWhile_prefix _).length_le.trans (by rw [List.length_take]; exact Nat.min_le_left _ _)
  refine ⟨_, (List.prefix_append_drop hpre), hm, hlen, ?_, rfl⟩
  intro c hc
  exact List.mem_takeWhile_imp hc

theorem parseRFC5234Digits_append {m n v : Nat} {p t : Bytes} (hp : IsDigits m n p v)
    (hend : p.length = n ∨ ∀ c, t.head? = some c → isASCIIDigit c = false) :
    parseRFC5234Digits m n (p ++ t) = some (v, t) := by
  obtain ⟨hm, hn, hd, rfl⟩ := hp
  have hword : ((p ++ t).take n).takeWhile isASCIIDigit = p := by
    rw [List.take_append, List.take_of_length_le hn, List.takeWhile_append_of_pos hd]
    rcases hend with rfl | hend
    · rw [Nat.sub_self, List.take_zero, List.takeWhile_nil, List.append_nil]
    · cases t with
      | nil => simp
      | cons c t =>
        cases hk : n - p.length with
        | zero => simp
        | succ k => simp [hend c rfl]
  rw [parseRFC5234Digits, hword, if_pos hm, List.drop_left]

theorem parseRFC5234Digits_exact {n v : Nat} {p : Bytes} (hp : IsDigits n n p v) (t : Bytes) :
    parseRFC5234Digits n n (p ++ t) = some (v, t) :=
  parseRFC5234Digits_append hp (Or.inl (le_antisymm hp.2.1 hp.1))

section
variable {α : Type} {names : List (Bytes × α)}

theorem parseName_sound {s t : Bytes} {a : α} (h : parseName names s = some (a, t)) :
    ∃ p, s = p ++ t ∧ IsName names p a := by
  induction names with
  | nil => exact absurd h (by simp [parseName])
  | cons x names ih =>
    obtain ⟨symbol, value⟩ := x
    rw [parseName] at h
    split at h
    · next u hu =>
      obtain ⟨rfl, rfl⟩ := Prod.mk.inj (Option.some.inj h)
      obtain ⟨p, rfl, hp⟩ := (parseRFC5234OctetsNocase_iff _ _ _).mp hu
      exact ⟨p, rfl, symbol, List.mem_cons_self, hp⟩
    · obtain ⟨p, hs, symbol, hmem, hp⟩ := ih h
      exact ⟨p, hs, symbol, List.mem_cons_of_mem _ hmem, hp⟩

/-- the names begin with letters -/
def Lettered (names : List (Bytes × α)) : Prop := ∀ x ∈ names, ∃ c ∈ (x.1.map toASCIILower).head?, 0x61 ≤ c

theorem IsName.letter (hnames : Lettered names) {p : Bytes} {a : α} (hp : IsName names p a) :
    ∃ c q, p = c :: q ∧ 0x61 ≤ toASCIILower c := by
  obtain ⟨symbol, hmem, hp⟩ := hp
  obtain ⟨c, hc, hle⟩ := hnames _ hmem
  rw [← hp] at hc
  cases p with
  | nil => exact absurd hc (by simp)
  | cons x p =>
    obtain rfl : toASCIILower x = c := by simpa using hc
    exact ⟨x, p, rfl, hle⟩

/-- no name is the beginning of one behind it -/
def Ordered (names : List (Bytes × α)) : Prop :=
  names.Pairwise fun x y => ¬ x.1.map toASCIILower <+: y.1.map toASCIILower

theorem parseName_covers (hnames : Ordered names) : Covers (IsName names) (parseName names) := by
  rintro p a t ⟨symbol, hmem, hp⟩
  induction names with
  | nil => exact absurd hmem List.not_mem_nil
  | cons x names ih =>
    obtain ⟨first, value⟩ := x
    obtain ⟨hfirst, hrest⟩ := List.pairwise_cons.mp hnames
    rw [parseName]
    split
    · next u hu =>
      obtain ⟨p', hs, hp'⟩ := (parseRFC5234OctetsNocase_iff _ _ _).mp hu
      rcases List.append_eq_append_iff.mp hs with ⟨q, rfl, rfl⟩ | ⟨q, rfl, rfl⟩
      · refine ⟨q, value, u, rfl, rfl, ?_⟩
        rintro rfl
        rcases List.mem_cons.mp hmem with heq | hmem
        · exact (Prod.mk.inj heq).2.symm
        · refine absurd ?_ (hfirst _ hmem)
          rw [← hp, ← hp', List.append_nil]
      · rcases List.mem_cons.mp hmem with heq | hmem
        · obtain ⟨rfl, rfl⟩ := Prod.mk.inj heq
          have hlength := congrArg List.length (hp.trans hp'.symm)
          simp only [List.length_map, List.length_append] at hlength
          obtain rfl : q = [] := List.eq_nil_of_length_eq_zero (by omega)
          exact ⟨[], a, t, rfl, rfl, fun _ => rfl⟩
        · refine absurd ?_ (hfirst _ hmem)
          rw [← hp, ← hp', List.map_append]
          exact List.prefix_append _ _
    · next hnone =>
      rcases List.mem_cons.mp hmem with heq | hmem
      · obtain ⟨rfl, rfl⟩ := Prod.mk.inj heq
        rw [(parseRFC5234OctetsNocase_iff _ _ _).mpr ⟨p, rfl, hp⟩] at hnone
        exact absurd hnone (by simp)
      · exact ih hrest hmem

theorem parseName_append {n : Nat} (hnames : Ordered names) (hlength : ∀ x ∈ names, x.1.length = n) {p : Bytes} {a : α}
    (hp : IsName names p a) (t : Bytes) : parseName names (p ++ t) = some (a, t) := by
  have hsize : ∀ w b, IsName names w b → w.length = n := by
    rintro w b ⟨symbol, hmem, hw⟩
    have hlen := congrArg List.length hw
    rw [List.length_map, List.length_map] at hlen
    exact hlen.trans (hlength _ hmem)
  obtain ⟨q, b, u, hr, rfl, hsame⟩ := parseName_covers hnames p a t hp
  obtain ⟨w, hw, hname⟩ := parseName_sound hr
  have hlen := congrArg List.length hw
  rw [List.length_append, List.length_append, List.length_append, hsize p a hp, hsize w b hname] at hlen
  obtain rfl : q = [] := List.eq_nil_of_length_eq_zero (by omega)
  rw [hr, hsame rfl]
  rfl

end

theorem letter_stops {c : UInt8} (h : 0x61 ≤ toASCIILower c) : isBWS c = false ∧ c ≠ 0x3A := by
  constructor
  · simp only [isBWS, Bool.or_eq_false_iff, beq_eq_false_iff_ne]
    refine ⟨⟨⟨?_, ?_⟩, ?_⟩, ?_⟩ <;> (rintro rfl; exact absurd h (by decide))
  · rintro rfl
    exact absurd h (by decide)

theorem skipBWS_name {α : Type} {names : List (Bytes × α)} (hnames : Lettered names) {p : Bytes} {a : α}
    (hp : IsName names p a) (t : Bytes) : skipBWS (p ++ t) = p ++ t := by
  obtain ⟨c, q, rfl, hle⟩ := hp.letter hnames
  exact skipBWS_cons (letter_stops hle).1 _

theorem month_name_lettered : Lettered month_name := by
  unfold Lettered
  decide

theorem day_name_lettered : Lettered day_name := by
  unfold Lettered
  decide

theorem zoneHours_lettered : Lettered zoneHours := by
  unfold Lettered
  decide

theorem month_name_append {p : Bytes} {month : Nat} (hp : IsName month_name p month) (t : Bytes) :
    parseRFC5322Month (p ++ t) = some (month, t) :=
  parseName_append (n := 3) (by unfold Ordered; decide) (by decide) hp t

theorem day_name_append {p : Bytes} {n : Nat} (hp : IsName day_name p n) (t : Bytes) :
    parseName day_name (p ++ t) = some (n, t) :=
  parseName_append (n := 3) (by unfold Ordered; decide) (by decide) hp t

theorem obs_zone_ordered : Ordered obs_zone := by
  unfold Ordered
  decide

/-! ## zones -/

theorem parseSign_sound {s t : Bytes} {sign : Int} (h : parseSign s = some (sign, t)) :
    s = 0x2B :: t ∧ sign = 1 ∨ s = 0x2D :: t ∧ sign = -1 := by
  rw [parseSign] at h
  split at h
  · next u hu =>
    obtain ⟨rfl, rfl⟩ := Prod.mk.inj (Option.some.inj h)
    exact Or.inl ⟨parseRFC5234Octet_sound hu, rfl⟩
  · obtain ⟨u, hu, heq⟩ := Option.map_eq_some_iff.mp h
    obtain ⟨rfl, rfl⟩ := Prod.mk.inj heq
    exact Or.inr ⟨parseRFC5234Octet_sound hu, rfl⟩

theorem numericZone_iff (s t : Bytes) (zone : Int) : numericZone s = some (zone, t) ↔
    ∃ sign u, parseSign s = some (sign, u) ∧ ∃ v, parseRFC5234Digits 4 4 u = some (v, t) ∧ v ≤ 9959 ∧
      sign * (60 * (v / 100) + v % 100 : Nat) = zone := by
  simp [numericZone, Option.bind_eq_some_iff]

theorem numericZone_sound {s t : Bytes} {zone : Int} (h : numericZone s = some (zone, t)) :
    ∃ p, s = p ++ t ∧ IsNumericZone p zone := by
  obtain ⟨sign, u, hs, v, hd, hv, rfl⟩ := (numericZone_iff s t zone).mp h
  obtain ⟨digits, rfl, hdigits⟩ := parseRFC5234Digits_sound hd
  rcases parseSign_sound hs with ⟨rfl, rfl⟩ | ⟨rfl, rfl⟩
  · exact ⟨0x2B :: digits, rfl, 0x2B, digits, v, rfl, hdigits, hv, Or.inl ⟨rfl, by omega⟩⟩
  · exact ⟨0x2D :: digits, rfl, 0x2D, digits, v, rfl, hdigits, hv, Or.inr ⟨rfl, by omega⟩⟩

theorem numericZone_append {p : Bytes} {zone : Int} (hp : IsNumericZone p zone) (t : Bytes) :
    numericZone (p ++ t) = some (zone, t) := by
  obtain ⟨sign, digits, v, rfl, hd, hv, hsign⟩ := hp
  have hread := parseRFC5234Digits_exact hd t
  rw [numericZone_iff]
  rcases hsign with ⟨rfl, rfl⟩ | ⟨rfl, rfl⟩
  · exact ⟨1, digits ++ t, rfl, v, hread, hv, by omega⟩
  · exact ⟨-1, digits ++ t, rfl, v, hread, hv, by omega⟩

/-- The table of the code has hours and minutes as one decimal number. -/
theorem obs_zone_minutes : obs_zone.map (fun x => (x.1, 60 * x.2.tdiv 100 + x.2.tmod 100)) =
    zoneHours.map fun x => (x.1, 60 * x.2) := by
  decide

theorem isName_zone_iff (p : Bytes) (zone : Int) : (∃ z, IsName obs_zone p z ∧ 60 * z.tdiv 100 + z.tmod 100 = zone) ↔
    ∃ hours, IsName zoneHours p hours ∧ zone = 60 * hours := by
  have hmem : ∀ symbol : Bytes, (∃ z, (symbol, z) ∈ obs_zone ∧ 60 * z.tdiv 100 + z.tmod 100 = zone) ↔
      ∃ hours, (symbol, hours) ∈ zoneHours ∧ 60 * hours = zone := by
    intro symbol
    have h := congrArg (fun l => (symbol, zone) ∈ l) obs_zone_minutes
    simpa [List.mem_map] using h
  constructor
  · rintro ⟨z, ⟨symbol, hz, hp⟩, hzone⟩
    obtain ⟨hours, hh, rfl⟩ := (hmem symbol).mp ⟨z, hz, hzone⟩
    exact ⟨hours, ⟨symbol, hh, hp⟩, rfl⟩
  · rintro ⟨hours, ⟨symbol, hh, hp⟩, hzone⟩
    obtain ⟨z, hz, hzone⟩ := (hmem symbol).mpr ⟨hours, hh, hzone.symm⟩
    exact ⟨z, ⟨symbol, hz, hp⟩, hzone⟩

theorem parseRFC5322Zone_sound {s t : Bytes} {zone : Int} (h : parseRFC5322Zone s = some (zone, t)) :
    ∃ p, s = p ++ t ∧ IsZone p zone := by
  rw [parseRFC5322Zone] at h
  split at h
  · next z hz =>
    rw [h] at hz
    obtain ⟨p, hs, hp⟩ := numericZone_sound hz
    exact ⟨p, hs, Or.inl hp⟩
  · obtain ⟨⟨z, u⟩, hz, heq⟩ := Option.bind_eq_some_iff.mp h
    obtain ⟨rfl, rfl⟩ := Prod.mk.inj (Option.some.inj heq)
    obtain ⟨p, hs, hp⟩ := parseName_sound hz
    exact ⟨p, hs, Or.inr ((isName_zone_iff p _).mp ⟨z, hp, rfl⟩)⟩

/-- the first character of a zone, and of no blank or colon -/
def startsZone (c : UInt8) : Prop := c = 0x2B ∨ c = 0x2D ∨ 0x61 ≤ toASCIILower c

theorem IsZone.start {p : Bytes} {zone : Int} (hp : IsZone p zone) : ∃ c q, p = c :: q ∧ startsZone c := by
  rcases hp with ⟨sign, digits, v, rfl, -, -, ⟨rfl, -⟩ | ⟨rfl, -⟩⟩ | ⟨hours, hp, -⟩
  · exact ⟨_, digits, rfl, Or.inl rfl⟩
  · exact ⟨_, digits, rfl, Or.inr (Or.inl rfl)⟩
  · obtain ⟨c, q, rfl, hle⟩ := hp.letter zoneHours_lettered
    exact ⟨c, q, rfl, Or.inr (Or.inr hle)⟩

theorem startsZone.stops {c : UInt8} (h : startsZone c) : isBWS c = false ∧ c ≠ 0x3A := by
  rcases h with rfl | rfl | h
  · decide
  · decide
  · exact letter_stops h

theorem parseRFC5322Zone_covers : Covers IsZone parseRFC5322Zone := by
  rintro p zone t (hp | hp)
  · exact ⟨[], zone, t, by rw [parseRFC5322Zone, numericZone_append hp], rfl, fun _ => rfl⟩
  · have hname := hp
    obtain ⟨hours, hletter, -⟩ := hname
    obtain ⟨c, w, rfl, hle⟩ := hletter.letter zoneHours_lettered
    obtain ⟨z, hz, rfl⟩ := (isName_zone_iff _ zone).mpr hp
    obtain ⟨q, y, u, hy, rfl, hsame⟩ := parseName_covers obs_zone_ordered _ z t hz
    refine ⟨q, 60 * y.tdiv 100 + y.tmod 100, u, ?_, rfl, fun hq => by rw [hsame hq]⟩
    have hnumeric : numericZone (c :: w ++ (q ++ u)) = none := by
      rw [Option.eq_none_iff_forall_ne_some]
      rintro ⟨x, v⟩ hx
      obtain ⟨sign, w', hw', -⟩ := (numericZone_iff _ _ _).mp hx
      rcases parseSign_sound hw' with ⟨h, -⟩ | ⟨h, -⟩
      all_goals
        rw [(List.cons.inj h).1] at hle
        exact absurd hle (by decide)
    rw [parseRFC5322Zone, hnumeric]
    show (parseName obs_zone (c :: w ++ (q ++ u))).bind _ = _
    rw [hy]
    rfl

/-! ## the time of the day -/

theorem not_isBWS_of_digit {c : UInt8} (hc : isASCIIDigit c = true) : isBWS c = false := by
  simp only [isBWS, Bool.or_eq_false_iff, beq_eq_false_iff_ne]
  refine ⟨⟨⟨?_, ?_⟩, ?_⟩, ?_⟩ <;> (rintro rfl; exact absurd hc (by decide))

theorem skipBWS_word {m n v : Nat} {digits : Bytes} (hd : IsDigits (m + 1) n digits v) (t : Bytes) :
    skipBWS (digits ++ t) = digits ++ t := by
  cases digits with
  | nil => exact absurd hd.1 (by simp)
  | cons c digits => exact skipBWS_cons (not_isBWS_of_digit (hd.2.2.1 c List.mem_cons_self)) _

theorem skipBWS_digits {m n v : Nat} {front digits : Bytes} (hfront : IsOptBWS front) (hd : IsDigits (m + 1) n digits v)
    (t : Bytes) : skipBWS (front ++ (digits ++ t)) = digits ++ t := by
  rw [skipBWS_append hfront, skipBWS_word hd]

theorem twoDigits_split {max v : Nat} {s u : Bytes} (h : parseRFC5234Digits 2 2 (skipBWS s) = some (v, u)) (hv : v ≤ max) :
    ∃ p, s = p ++ skipBWS u ∧ IsTwoDigits max p v := by
  obtain ⟨front, hs, hfront⟩ := skipBWS_split s
  obtain ⟨digits, hdigits, hd⟩ := parseRFC5234Digits_sound h
  obtain ⟨back, hu, hback⟩ := skipBWS_split u
  refine ⟨front ++ digits ++ back, ?_, front, digits, back, rfl, hfront, hd, hback, hv⟩
  rw [List.append_assoc, ← hu, List.append_assoc, ← hdigits, ← hs]

theorem twoDigits_append {max v : Nat} {p : Bytes} (hp : IsTwoDigits max p v) (t : Bytes) :
    ∃ u, parseRFC5234Digits 2 2 (skipBWS (p ++ t)) = some (v, u) ∧ skipBWS u = skipBWS t := by
  obtain ⟨front, digits, back, rfl, hfront, hd, hback, -⟩ := hp
  refine ⟨back ++ t, ?_, skipBWS_append hback t⟩
  rw [List.append_assoc, List.append_assoc, skipBWS_digits hfront hd]
  exact parseRFC5234Digits_exact hd _

theorem parseSecond_iff (s t : Bytes) (v : Nat) : parseSecond s = some (v, t) ↔
    ∃ u, parseRFC5234Octet 0x3A (skipBWS s) = some u ∧ parseRFC5234Digits 2 2 (skipBWS u) = some (v, t) ∧ v ≤ 60 := by
  simp [parseSecond, Option.bind_eq_some_iff]

theorem parseRFC5322TimeOfDay_iff (s t : Bytes) (time : TimeOfDay) : parseRFC5322TimeOfDay s = some (time, t) ↔
    ∃ u, parseRFC5234Digits 2 2 (skipBWS s) = some (time.hour, u) ∧ time.hour ≤ 23 ∧
      ∃ v, parseRFC5234Octet 0x3A (skipBWS u) = some v ∧
        ∃ w, parseRFC5234Digits 2 2 (skipBWS v) = some (time.minute, w) ∧ time.minute ≤ 59 ∧
          (parseSecond w = none ∧ time.type = .EType_YMDHMZ ∧ time.second = 0 ∧ t = skipBWS w ∨
            ∃ x, parseSecond w = some (time.second, x) ∧ time.type = .EType_YMDHMSZ ∧ t = skipBWS x) := by
  obtain ⟨type, hour, minute, second⟩ := time
  simp only [parseRFC5322TimeOfDay, Option.bind_eq_bind, Option.bind_eq_some_iff, Option.guard_eq_some', Prod.exists]
  constructor
  · rintro ⟨hour', u, hh, -, hle, v, hv, minute', w, hw, -, hm, hr⟩
    cases hx : parseSecond w with
    | none =>
      rw [hx] at hr
      obtain ⟨heq, rfl⟩ := Prod.mk.inj (Option.some.inj hr)
      obtain ⟨rfl, rfl, rfl, rfl⟩ := TimeOfDay.mk.inj heq
      exact ⟨u, hh, hle, v, hv, w, hw, hm, Or.inl ⟨hx, rfl, rfl, rfl⟩⟩
    | some r =>
      obtain ⟨second', x⟩ := r
      rw [hx] at hr
      obtain ⟨heq, rfl⟩ := Prod.mk.inj (Option.some.inj hr)
      obtain ⟨rfl, rfl, rfl, rfl⟩ := TimeOfDay.mk.inj heq
      exact ⟨u, hh, hle, v, hv, w, hw, hm, Or.inr ⟨x, hx, rfl, rfl⟩⟩
  · rintro ⟨u, hh, hle, v, hv, w, hw, hm, ⟨hx, rfl, rfl, rfl⟩ | ⟨x, hx, rfl, rfl⟩⟩
    · exact ⟨hour, u, hh, (), hle, v, hv, minute, w, hw, (), hm, by rw [hx]; rfl⟩
    · exact ⟨hour, u, hh, (), hle, v, hv, minute, w, hw, (), hm, by rw [hx]; rfl⟩

theorem parseRFC5322TimeOfDay_sound {s t : Bytes} {time : TimeOfDay} (h : parseRFC5322TimeOfDay s = some (time, t)) :
    ∃ p, s = p ++ t ∧ IsTimeOfDay p time := by
  obtain ⟨u, hh, hle, v, hv, w, hw, hm, hsecond⟩ := (parseRFC5322TimeOfDay_iff s t time).mp h
  obtain ⟨hour, rfl, hhour⟩ := twoDigits_split hh hle
  obtain ⟨minute, rfl, hminute⟩ := twoDigits_split hw hm
  rw [parseRFC5234Octet_sound hv]
  rcases hsecond with ⟨-, htype, hzero, rfl⟩ | ⟨x, hx, htype, rfl⟩
  · exact ⟨hour ++ 0x3A :: minute, by simp, hour, minute, hhour, hminute, Or.inl ⟨rfl, htype, hzero⟩⟩
  · obtain ⟨y, hy, hs, hle⟩ := (parseSecond_iff _ _ _).mp hx
    obtain ⟨second, rfl, hsec⟩ := twoDigits_split hs hle
    rw [parseRFC5234Octet_sound hy]
    exact ⟨hour ++ 0x3A :: minute ++ 0x3A :: second, by simp, hour, minute, hhour, hminute,
      Or.inr ⟨second, rfl, htype, hsec⟩⟩

/-- Blanks in front do not matter, and behind there must be something that is neither a blank nor a colon. -/
theorem parseRFC5322TimeOfDay_append {p : Bytes} {time : TimeOfDay} (hp : IsTimeOfDay p time) {c : UInt8} (t : Bytes)
    (hc : isBWS c = false ∧ c ≠ 0x3A) : parseRFC5322TimeOfDay (skipBWS (p ++ c :: t)) = some (time, c :: t) := by
  have hblank : skipBWS (c :: t) = c :: t := skipBWS_cons hc.1 t
  obtain ⟨hour, minute, hhour, hminute, hp⟩ := hp
  have hcolon : ∀ r, skipBWS (0x3A :: r) = 0x3A :: r := fun r => skipBWS_cons (by decide) r
  rw [parseRFC5322TimeOfDay_iff, skipBWS_skipBWS]
  have hle : time.hour ≤ 23 := by obtain ⟨_, _, _, _, _, _, _, h⟩ := hhour; exact h
  have hm : time.minute ≤ 59 := by obtain ⟨_, _, _, _, _, _, _, h⟩ := hminute; exact h
  rcases hp with ⟨rfl, htype, hzero⟩ | ⟨second, rfl, htype, hsec⟩
  · rw [List.append_assoc, List.cons_append]
    obtain ⟨u, hh, hu⟩ := twoDigits_append hhour (0x3A :: (minute ++ c :: t))
    obtain ⟨w, hw, hw'⟩ := twoDigits_append hminute (c :: t)
    refine ⟨u, hh, hle, minute ++ c :: t, by rw [hu, hcolon, parseRFC5234Octet_cons], w, hw, hm,
      Or.inl ⟨?_, htype, hzero, ?_⟩⟩
    · rw [Option.eq_none_iff_forall_ne_some]
      rintro ⟨x, y⟩ hx
      obtain ⟨z, hz, -⟩ := (parseSecond_iff _ _ _).mp hx
      rw [hw', hblank] at hz
      exact hc.2 (List.cons.inj (parseRFC5234Octet_sound hz)).1
    · rw [hw', hblank]
  · have hs : time.second ≤ 60 := by obtain ⟨_, _, _, _, _, _, _, h⟩ := hsec; exact h
    rw [List.append_assoc, List.cons_append, List.append_assoc, List.cons_append]
    obtain ⟨u, hh, hu⟩ := twoDigits_append hhour (0x3A :: (minute ++ 0x3A :: (second ++ c :: t)))
    obtain ⟨w, hw, hw'⟩ := twoDigits_append hminute (0x3A :: (second ++ c :: t))
    obtain ⟨x, hx, hx'⟩ := twoDigits_append hsec (c :: t)
    refine ⟨u, hh, hle, _, by rw [hu, hcolon, parseRFC5234Octet_cons], w, hw, hm, Or.inr ⟨x, ?_, htype, ?_⟩⟩
    · rw [parseSecond_iff]
      exact ⟨_, by rw [hw', hcolon, parseRFC5234Octet_cons], hx, hs⟩
    · rw [hx', hblank]

/-! ## years -/

/-- what the loop makes of digits -/
def yearOf (digits : Bytes) (year : UInt32) : UInt32 :=
  digits.foldl (fun year c => year * 10 + UInt32.ofNat (digitValue c)) year

theorem yearLoop_digits {p : Bytes} (hp : ∀ c ∈ p, isASCIIDigit c = true) {t : Bytes}
    (ht : ∀ c, t.head? = some c → isASCIIDigit c = false) (count year : UInt32) :
    yearLoop (p ++ t) count year = (count + UInt32.ofNat p.length, yearOf p year, t) := by
  induction p generalizing count year with
  | nil =>
    cases t with
    | nil => simp [yearLoop, yearOf]
    | cons c t => simp [yearLoop, yearOf, ht c rfl]
  | cons c p ih =>
    have hc := hp c List.mem_cons_self
    have hrest : ∀ x ∈ p, isASCIIDigit x = true := fun x hx => hp x (List.mem_cons_of_mem _ hx)
    rw [List.cons_append, yearLoop, if_pos hc, ih hrest, List.length_cons, UInt32.add_assoc,
      Nat.add_comm p.length 1, UInt32.ofNat_add]
    rfl

theorem digitValue_le {c : UInt8} (hc : isASCIIDigit c = true) : digitValue c ≤ 9 := by
  simp only [isASCIIDigit, Bool.and_eq_true, decide_eq_true_eq] at hc
  unfold digitValue
  omega

theorem yearOf_wraps (p : Bytes) (year : UInt32) (v : Nat) (h : year.toNat = v % 2 ^ 32) :
    (yearOf p year).toNat = (p.foldl (fun value c => 10 * value + digitValue c) v) % 2 ^ 32 := by
  induction p generalizing year v with
  | nil => exact h
  | cons c p ih =>
    refine ih _ _ ?_
    rw [UInt32.toNat_add, UInt32.toNat_mul, UInt32.toNat_ofNat', h]
    show (v % 2 ^ 32 * 10 % 2 ^ 32 + digitValue c % 2 ^ 32) % 2 ^ 32 = (10 * v + digitValue c) % 2 ^ 32
    omega

theorem decimal_from (p : Bytes) (hp : ∀ c ∈ p, isASCIIDigit c = true) (v : Nat) :
    p.foldl (fun value c => 10 * value + digitValue c) v < (v + 1) * 10 ^ p.length := by
  induction p generalizing v with
  | nil => simp
  | cons c p ih =>
    have hc := digitValue_le (hp c List.mem_cons_self)
    have h := ih (fun x hx => hp x (List.mem_cons_of_mem _ hx)) (10 * v + digitValue c)
    rw [List.foldl_cons, List.length_cons, pow_succ']
    calc _ < (10 * v + digitValue c + 1) * 10 ^ p.length := h
      _ ≤ (10 * (v + 1)) * 10 ^ p.length := Nat.mul_le_mul_right _ (by omega)
      _ = (v + 1) * (10 * 10 ^ p.length) := by ring

theorem decimal_lt {p : Bytes} (hp : ∀ c ∈ p, isASCIIDigit c = true) : decimal p < 10 ^ p.length := by
  have h := decimal_from p hp 0
  rw [Nat.zero_add, Nat.one_mul] at h
  exact h

theorem yearOf_decimal {p : Bytes} (hp : ∀ c ∈ p, isASCIIDigit c = true) (hlength : p.length ≤ 9) :
    (yearOf p 0).toNat = decimal p := by
  rw [yearOf_wraps p 0 0 rfl]
  refine Nat.mod_eq_of_lt ((decimal_lt hp).trans ?_)
  calc 10 ^ p.length ≤ 10 ^ 9 := Nat.pow_le_pow_right (by decide) hlength
    _ < 2 ^ 32 := by decide

def addCentury (count year : UInt32) : UInt32 :=
  if count < 4 then (if year ≤ 49 then year + 2000 else year + 1900) else year

theorem addCentury_toNat (count year : UInt32) (h : count.toNat < 4 → year.toNat < 1000) :
    (addCentury count year).toNat = fullYear count.toNat year.toNat := by
  unfold addCentury fullYear
  by_cases hcount : count.toNat < 4
  · have hy := h hcount
    have hlt : count < 4 := hcount
    rw [if_pos hlt, if_pos hcount]
    by_cases hle : year.toNat ≤ 49
    · have hl : year ≤ 49 := hle
      rw [if_pos hl, if_pos hle, UInt32.toNat_add]
      show (year.toNat + 2000) % 2 ^ 32 = _
      omega
    · have hl : ¬ year ≤ 49 := hle
      rw [if_neg hl, if_neg hle, UInt32.toNat_add]
      show (year.toNat + 1900) % 2 ^ 32 = _
      omega
  · have hlt : ¬ count < 4 := hcount
    rw [if_neg hlt, if_neg hcount]

theorem addCentury_digits {p : Bytes} (hp : ∀ c ∈ p, isASCIIDigit c = true) (hlength : p.length ≤ 9) :
    (addCentury (UInt32.ofNat p.length) (yearOf p 0)).toNat = fullYear p.length (decimal p) := by
  have hcount : (UInt32.ofNat p.length).toNat = p.length := UInt32.toNat_ofNat_of_lt' (hlength.trans_lt (by decide))
  rw [addCentury_toNat, hcount, yearOf_decimal hp hlength]
  rw [hcount, yearOf_decimal hp hlength]
  intro hfour
  calc decimal p < 10 ^ p.length := decimal_lt hp
    _ ≤ 10 ^ 3 := Nat.pow_le_pow_right (by decide) (by omega)

theorem parseRFC5322Year_iff (s t : Bytes) (y : Nat) : parseRFC5322Year s = some (y, t) ↔
    ∃ u, parseBWS s = some u ∧ ∃ count year v, yearLoop u 0 0 = (count, year, v) ∧ (2 ≤ count ∧ count ≤ 9) ∧
      (0 : UInt32) < addCentury count year ∧ parseBWS v = some t ∧ (addCentury count year).toNat = y := by
  simp only [parseRFC5322Year, Option.bind_eq_bind, Option.bind_eq_some_iff, Option.guard_eq_some']
  constructor
  · rintro ⟨u, hu, hr⟩
    obtain ⟨-, hcount, -, hpos, w, hw, heq⟩ := hr
    obtain ⟨rfl, rfl⟩ := Prod.mk.inj (Option.some.inj heq)
    exact ⟨u, hu, _, _, _, rfl, hcount, hpos, hw, rfl⟩
  · rintro ⟨u, hu, count, year, v, hloop, hcount, hpos, hv, rfl⟩
    refine ⟨u, hu, ?_⟩
    rw [hloop]
    exact ⟨(), hcount, (), hpos, t, hv, rfl⟩

theorem yearLoop_split (u : Bytes) : ∃ digits v, u = digits ++ v ∧ (∀ c ∈ digits, isASCIIDigit c = true) ∧
    yearLoop u 0 0 = (UInt32.ofNat digits.length, yearOf digits 0, v) := by
  have hdigits : ∀ c ∈ u.takeWhile isASCIIDigit, isASCIIDigit c = true := fun c hc => List.mem_takeWhile_imp hc
  have hrest : ∀ c, (u.dropWhile isASCIIDigit).head? = some c → isASCIIDigit c = false := by
    intro c hc
    have h := List.head?_dropWhile_not isASCIIDigit u
    rw [hc] at h
    simpa using h
  have hread := yearLoop_digits hdigits hrest 0 0
  rw [List.takeWhile_append_dropWhile, UInt32.zero_add] at hread
  exact ⟨_, _, List.takeWhile_append_dropWhile.symm, hdigits, hread⟩

theorem parseRFC5322Year_sound {s t : Bytes} {y : Nat} (hbound : s.length < 2 ^ 32)
    (h : parseRFC5322Year s = some (y, t)) : ∃ p, s = p ++ t ∧ IsYear p y := by
  obtain ⟨u, hu, count, year, v, hloop, ⟨htwo, hnine⟩, hpos, hv, rfl⟩ := (parseRFC5322Year_iff s t y).mp h
  obtain ⟨front, rfl, hfront⟩ := parseBWS_sound hu
  obtain ⟨back, rfl, hback⟩ := parseBWS_sound hv
  obtain ⟨digits, v', rfl, hdigits, hread⟩ := yearLoop_split u
  rw [hread, Prod.mk.injEq, Prod.mk.injEq] at hloop
  obtain ⟨rfl, rfl, rfl⟩ := hloop
  simp only [List.length_append] at hbound
  have hcount : (UInt32.ofNat digits.length).toNat = digits.length := by
    rw [UInt32.toNat_ofNat']
    omega
  have hm : 2 ≤ digits.length := hcount ▸ htwo
  have hn : digits.length ≤ 9 := hcount ▸ hnine
  exact ⟨front ++ digits ++ back, by simp, front, digits, back, decimal digits, rfl, hfront, ⟨hm, hn, hdigits, rfl⟩,
    hback, addCentury_digits hdigits hn, hpos⟩

theorem IsBWS.head {p : Bytes} (hp : IsBWS p) (t : Bytes) : ∃ c q, p ++ t = c :: q ∧ isBWS c = true := by
  obtain ⟨hne, hp⟩ := hp
  obtain ⟨c, q, rfl⟩ := List.exists_cons_of_ne_nil hne
  exact ⟨c, q ++ t, rfl, hp c List.mem_cons_self⟩

theorem not_digit_of_isBWS {c : UInt8} (hc : isBWS c = true) : isASCIIDigit c = false := by
  cases hd : isASCIIDigit c with
  | false => rfl
  | true => exact absurd hc (by rw [not_isBWS_of_digit hd]; decide)

theorem IsBWS.ends {p : Bytes} (hp : IsBWS p) (t : Bytes) :
    ∀ c, (p ++ t).head? = some c → isASCIIDigit c = false := by
  intro c hc
  obtain ⟨d, q, hq, hd⟩ := hp.head t
  rw [hq, List.head?_cons, Option.some.injEq] at hc
  rw [← hc]
  exact not_digit_of_isBWS hd

theorem parseRFC5322Year_append {p : Bytes} {y : Nat} (hp : IsYear p y) (t : Bytes) :
    parseRFC5322Year (p ++ t) = some (y, skipBWS t) := by
  obtain ⟨front, digits, back, v, rfl, hfront, hd, hback, rfl, hpos⟩ := hp
  have hword := skipBWS_word hd (back ++ t)
  obtain ⟨hm, hn, hdigits, rfl⟩ := hd
  have hcount : (UInt32.ofNat digits.length).toNat = digits.length :=
    UInt32.toNat_ofNat_of_lt' (hn.trans_lt (by decide))
  have hfull := addCentury_digits hdigits hn
  rw [parseRFC5322Year_iff]
  refine ⟨digits ++ (back ++ t), ?_, UInt32.ofNat digits.length, yearOf digits 0, back ++ t, ?_, ⟨?_, ?_⟩, ?_,
    parseBWS_append hback t, hfull⟩
  · rw [List.append_assoc, List.append_assoc, parseBWS_append hfront, hword]
  · rw [yearLoop_digits hdigits (hback.ends t), UInt32.zero_add]
  · show 2 ≤ (UInt32.ofNat digits.length).toNat
    rwa [hcount]
  · show (UInt32.ofNat digits.length).toNat ≤ 9
    rwa [hcount]
  · show 0 < (addCentury _ _).toNat
    rwa [hfull]

/-! ## dates, weekdays -/

theorem lastDayOfMonth_eq (year : Nat) {month : Nat} (h : 1 ≤ month ∧ month ≤ 12) :
    lastDayOfMonth year month = daysIn year month := by
  have hleap : ((year % 4 = 0 ∧ year % 100 ≠ 0) ∨ year % 400 = 0) ↔ (4 ∣ year ∧ (100 ∣ year → 400 ∣ year)) := by omega
  obtain ⟨hl, hu⟩ := h
  unfold lastDayOfMonth daysIn
  rw [if_neg (by omega)]
  simp only [hleap]
  split <;> interval_cases month <;> rfl

theorem month_name_range {p : Bytes} {month : Nat} (hp : IsName month_name p month) : 1 ≤ month ∧ month ≤ 12 := by
  obtain ⟨symbol, hmem, -⟩ := hp
  have h : ∀ x ∈ month_name, 1 ≤ x.2 ∧ x.2 ≤ 12 := by decide
  exact h _ hmem

theorem parseRFC5322Date_iff (s t : Bytes) (date : Day) : parseRFC5322Date s = some (date, t) ↔
    ∃ u, parseRFC5234Digits 1 2 (skipBWS s) = some (date.day, u) ∧ ∃ v, parseBWS u = some v ∧
      ∃ w, parseRFC5322Month v = some (date.month, w) ∧ parseRFC5322Year w = some (date.year, t) ∧
        1 ≤ date.day ∧ date.day ≤ lastDayOfMonth date.year date.month := by
  obtain ⟨year, month, day⟩ := date
  simp only [parseRFC5322Date, Option.bind_eq_bind, Option.bind_eq_some_iff, Option.guard_eq_some', Prod.exists]
  constructor
  · rintro ⟨day', u, hd, v, hv, month', w, hm, year', t', hy, -, hday, hr⟩
    obtain ⟨heq, rfl⟩ := Prod.mk.inj (Option.some.inj hr)
    obtain ⟨rfl, rfl, rfl⟩ := Day.mk.inj heq
    exact ⟨u, hd, v, hv, w, hm, hy, hday⟩
  · rintro ⟨u, hd, v, hv, w, hm, hy, hday⟩
    exact ⟨day, u, hd, v, hv, month, w, hm, year, t, hy, (), hday, rfl⟩

theorem parseRFC5322Date_sound {s t : Bytes} {date : Day} (hbound : s.length < 2 ^ 32)
    (h : parseRFC5322Date s = some (date, t)) : ∃ p, s = p ++ t ∧ IsDate p date := by
  obtain ⟨u, hd, v, hv, w, hm, hy, hone, hlast⟩ := (parseRFC5322Date_iff s t date).mp h
  obtain ⟨front, hs, hfront⟩ := skipBWS_split s
  obtain ⟨digits, hdigits, hday⟩ := parseRFC5234Digits_sound hd
  obtain ⟨back, rfl, hback⟩ := parseBWS_sound hv
  obtain ⟨month, rfl, hmonth⟩ := parseName_sound hm
  rw [hdigits] at hs
  subst hs
  simp only [List.length_append] at hbound
  obtain ⟨year, rfl, hyear⟩ := parseRFC5322Year_sound (by omega) hy
  rw [lastDayOfMonth_eq _ (month_name_range hmonth)] at hlast
  exact ⟨front ++ digits ++ back ++ month ++ year, by simp, front, digits, back, month, year, rfl, hfront, hday,
    hback, hmonth, hyear, hone, hlast⟩

theorem parseRFC5322Date_append {p : Bytes} {date : Day} (hp : IsDate p date) (t : Bytes) :
    parseRFC5322Date (p ++ t) = some (date, skipBWS t) := by
  obtain ⟨front, digits, back, month, year, rfl, hfront, hd, hback, hmonth, hyear, hone, hlast⟩ := hp
  have hname : skipBWS (month ++ (year ++ t)) = month ++ (year ++ t) := skipBWS_name month_name_lettered hmonth _
  rw [parseRFC5322Date_iff, lastDayOfMonth_eq _ (month_name_range hmonth)]
  refine ⟨back ++ (month ++ (year ++ t)), ?_, month ++ (year ++ t), ?_, year ++ t, month_name_append hmonth _,
    parseRFC5322Year_append hyear t, hone, hlast⟩
  · simp only [List.append_assoc]
    rw [skipBWS_digits hfront hd]
    exact parseRFC5234Digits_append hd (Or.inr (hback.ends _))
  · rw [parseBWS_append hback, hname]

theorem parseRFC5322DayOfWeek_iff (s t : Bytes) (n : Nat) : parseRFC5322DayOfWeek s = some (n, t) ↔
    ∃ u, parseName day_name (skipBWS s) = some (n, u) ∧ skipBWS u = t := by
  simp [parseRFC5322DayOfWeek, Option.bind_eq_some_iff]

theorem digit_not_letter {c : UInt8} (hc : isASCIIDigit c = true) : ¬ 0x61 ≤ toASCIILower c := by
  simp only [isASCIIDigit, Bool.and_eq_true, decide_eq_true_eq] at hc
  unfold toASCIILower
  rw [if_neg (by omega)]
  intro hle
  have h : 0x61 ≤ c.toNat := hle
  omega

theorem skipDayOfWeek_split (s : Bytes) : ∃ weekday, s = weekday ++ skipDayOfWeek s ∧
    (weekday = [] ∨ ∃ symbol n, weekday = symbol ++ [0x2C] ∧ IsDayOfWeek symbol n) := by
  unfold skipDayOfWeek
  split
  · next u hu =>
    obtain ⟨⟨n, v⟩, hn, hv⟩ := Option.bind_eq_some_iff.mp hu
    obtain ⟨w, hw, rfl⟩ := (parseRFC5322DayOfWeek_iff _ _ _).mp hn
    obtain ⟨front, hs, hfront⟩ := skipBWS_split s
    obtain ⟨symbol, hsymbol, hname⟩ := parseName_sound hw
    obtain ⟨back, hback, hblank⟩ := skipBWS_split w
    have hcomma : skipBWS w = 0x2C :: u := parseRFC5234Octet_sound hv
    refine ⟨(front ++ symbol ++ back) ++ [0x2C], ?_, Or.inr ⟨_, n, rfl, front, symbol, back, rfl, hfront, hname, hblank⟩⟩
    calc s = front ++ (symbol ++ w) := by rw [← hsymbol, ← hs]
      _ = front ++ (symbol ++ (back ++ 0x2C :: u)) := by rw [← hcomma, ← hback]
      _ = _ := by simp
  · exact ⟨[], rfl, Or.inl rfl⟩

theorem skipDayOfWeek_append {p : Bytes} {n : Nat} (hp : IsDayOfWeek p n) (t : Bytes) :
    skipDayOfWeek (p ++ [0x2C] ++ t) = t := by
  obtain ⟨front, symbol, back, rfl, hfront, hname, hback⟩ := hp
  have hread : parseRFC5322DayOfWeek (front ++ symbol ++ back ++ [0x2C] ++ t) = some (n, 0x2C :: t) := by
    rw [parseRFC5322DayOfWeek_iff]
    refine ⟨back ++ 0x2C :: t, ?_, ?_⟩
    · simp only [List.append_assoc]
      rw [skipBWS_append hfront, skipBWS_name day_name_lettered hname, day_name_append hname]
      rfl
    · rw [skipBWS_append hback, skipBWS_cons (by decide)]
  unfold skipDayOfWeek
  rw [hread]
  rfl

theorem skipDayOfWeek_date {p : Bytes} {date : Day} (hp : IsDate p date) (t : Bytes) :
    skipDayOfWeek (p ++ t) = p ++ t := by
  obtain ⟨front, digits, back, month, year, rfl, hfront, hd, -⟩ := hp
  have hread : parseRFC5322DayOfWeek (front ++ digits ++ back ++ month ++ year ++ t) = none := by
    rw [Option.eq_none_iff_forall_ne_some]
    rintro ⟨n, u⟩ hn
    obtain ⟨v, hv, -⟩ := (parseRFC5322DayOfWeek_iff _ _ _).mp hn
    obtain ⟨symbol, hsymbol, hname⟩ := parseName_sound hv
    obtain ⟨c, q, rfl, hle⟩ := hname.letter day_name_lettered
    simp only [List.append_assoc] at hsymbol
    rw [skipBWS_digits hfront hd] at hsymbol
    obtain ⟨hone, -, hdigits, -⟩ := hd
    obtain ⟨d, digits, rfl⟩ := List.exists_cons_of_length_pos hone
    have hdigit := hdigits d List.mem_cons_self
    rw [(List.cons.inj hsymbol).1] at hdigit
    exact digit_not_letter hdigit hle
  unfold skipDayOfWeek
  rw [hread]
  rfl

/-! ## the whole -/

theorem readRFC5322DateTime_iff (s t : Bytes) (date : Date) : readRFC5322DateTime s = some (date, t) ↔
    ∃ d u, parseRFC5322Date (skipDayOfWeek s) = some (d, u) ∧ ∃ time v, parseRFC5322TimeOfDay u = some (time, v) ∧
      ∃ zone, parseRFC5322Zone v = some (zone, t) ∧ d.at time zone = date := by
  simp only [readRFC5322DateTime, parseRFC5322Time, Option.bind_eq_bind, Option.bind_eq_some_iff, Prod.exists]
  constructor
  · rintro ⟨d, u, hd, time, zone, v, ⟨time', w, htime, zone', x, hzone, hr⟩, heq⟩
    obtain ⟨hpair, rfl⟩ := Prod.mk.inj (Option.some.inj hr)
    obtain ⟨rfl, rfl⟩ := Prod.mk.inj hpair
    obtain ⟨rfl, rfl⟩ := Prod.mk.inj (Option.some.inj heq)
    exact ⟨d, u, hd, time', w, htime, zone', hzone, rfl⟩
  · rintro ⟨d, u, hd, time, v, htime, zone, hzone, rfl⟩
    exact ⟨d, u, hd, time, zone, t, ⟨time, v, htime, zone, t, hzone, rfl⟩, rfl⟩

theorem readRFC5322DateTime_sound {s : Bytes} (hbound : s.length < 2 ^ 32) :
    Sound IsDateTime readRFC5322DateTime s := by
  intro date t h
  obtain ⟨d, u, hd, time, v, htime, zone, hzone, rfl⟩ := (readRFC5322DateTime_iff s t date).mp h
  obtain ⟨weekday, hs, hweekday⟩ := skipDayOfWeek_split s
  have hrest : (skipDayOfWeek s).length < 2 ^ 32 := by
    rw [hs, List.length_append] at hbound
    omega
  obtain ⟨day, hday, hdate⟩ := parseRFC5322Date_sound hrest hd
  obtain ⟨tod, rfl, htod⟩ := parseRFC5322TimeOfDay_sound htime
  obtain ⟨zonal, rfl, hzonal⟩ := parseRFC5322Zone_sound hzone
  refine ⟨weekday ++ day ++ tod ++ zonal, ?_, weekday, day, tod, zonal, d, time, zone, rfl, hweekday, hdate, htod,
    hzonal, rfl⟩
  rw [hday] at hs
  simpa using hs

theorem readRFC5322DateTime_covers : Covers IsDateTime readRFC5322DateTime := by
  rintro p date t ⟨weekday, day, tod, zonal, d, time, zone, rfl, hweekday, hdate, htod, hzonal, rfl⟩
  obtain ⟨q, zone', u, hread, rfl, hsame⟩ := parseRFC5322Zone_covers zonal zone t hzonal
  refine ⟨q, d.at time zone', u, ?_, rfl, fun hq => by rw [hsame hq]⟩
  have hskip : skipDayOfWeek (weekday ++ day ++ tod ++ zonal ++ (q ++ u)) = day ++ (tod ++ (zonal ++ (q ++ u))) := by
    simp only [List.append_assoc]
    rcases hweekday with rfl | ⟨symbol, n, rfl, hsymbol⟩
    · exact skipDayOfWeek_date hdate _
    · exact skipDayOfWeek_append hsymbol _
  obtain ⟨c, r, rfl, hc⟩ := hzonal.start
  rw [readRFC5322DateTime_iff, hskip, parseRFC5322Date_append hdate]
  exact ⟨d, _, rfl, time, _, parseRFC5322TimeOfDay_append htod _ hc.stops, zone', hread, rfl⟩

/-- `parseRFC5322DateTime` succeeds exactly if its string begins with a date and time of the grammar; then it takes the
longest one there is and stores what that denotes, and otherwise it changes nothing. -/
theorem parseRFC5322DateTime_grammar (src : CString) (out_date : Option Date) :
    ((parseRFC5322DateTime src.chars out_date).result = true ↔ ∃ p date, p <+: src.chars ∧ IsDateTime p date) ∧
    ((parseRFC5322DateTime src.chars out_date).result = true → ∃ date rest, Longest IsDateTime src.chars date rest) ∧
    (∀ date rest, Longest IsDateTime src.chars date rest →
      parseRFC5322DateTime src.chars out_date = { result := true, src := rest, date := out_date.map fun _ => date }) ∧
    ((parseRFC5322DateTime src.chars out_date).result = false →
      parseRFC5322DateTime src.chars out_date = { result := false, src := src.chars, date := out_date }) := by
  have hs := readRFC5322DateTime_sound src.bound
  have hc := readRFC5322DateTime_covers
  refine ⟨?_, ?_, ?_, ?_⟩
  · rw [← reads_iff hs hc]
    unfold parseRFC5322DateTime
    cases h : readRFC5322DateTime src.chars with
    | none | some => simp
  · unfold parseRFC5322DateTime
    cases h : readRFC5322DateTime src.chars with
    | none => simp
    | some r => exact fun _ => ⟨r.1, r.2, (longest_iff hs hc).mp h⟩
  · intro date rest hlongest
    unfold parseRFC5322DateTime
    rw [(longest_iff hs hc).mpr hlongest]
  · unfold parseRFC5322DateTime
    cases h : readRFC5322DateTime src.chars with
    | none => exact fun _ => rfl
    | some r => simp

/-- `1 jan 09 1:` has no time, and `EST` is no `E` -/
example : readRFC5322DateTime (octets ['1', ' ', 'j', 'a', 'n', ' ', '0', '9', ' ', '1', ':']) = none := by
  decide

example : parseRFC5322Zone (octets ['E', 's', 't', '!']) = some (-300, octets ['!']) := by
  decide

end Rss
end Wkc
