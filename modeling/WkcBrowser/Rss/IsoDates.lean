import WkcBrowser.Rss.PubDate

/-!
# The two parsers of ISO dates

* `IsRFC3339DateTime`, ..        the grammar of RFC 3339 in the comments of the source, and what its words denote;
* `readRFC3339DateTime_iff`      the parser of Atom dates goes through the stages of the other one;
* `parseW3CDateTime_full`        what that one does if the last of its stages succeeds;
* `Agree`                        what the two should have in common;
* `agree_iff`                    the last stage leaves the position behind the day, and so they agree only on strings
                                 that begin with no date and time of RFC 3339.
-/

namespace Wkc
namespace Rss
open Readers

/-! ## the grammar -/

/-- `4DIGIT "-" 2DIGIT "-" 2DIGIT` -/
def IsFullDate : Lang UInt8 Day := fun p date =>
  ∃ year month mday, p = year ++ 0x2D :: month ++ 0x2D :: mday ∧
    IsDigits 4 4 year date.year ∧ 0 < date.year ∧ IsDigits 2 2 month date.month ∧ (1 ≤ date.month ∧ date.month ≤ 12) ∧
    IsDigits 2 2 mday date.day ∧ 1 ≤ date.day ∧ date.day ≤ daysIn date.year date.month

/-- `"." 1*DIGIT` -/
def IsSecfrac (p : Bytes) : Prop := ∃ digits, p = 0x2E :: digits ∧ digits ≠ [] ∧ ∀ c ∈ digits, isASCIIDigit c = true

/-- `2DIGIT ":" 2DIGIT ":" 2DIGIT [time-secfrac]` -/
def IsPartialTime : Lang UInt8 TimeOfDay := fun p time =>
  ∃ hour minute second secfrac, p = hour ++ 0x3A :: minute ++ 0x3A :: second ++ secfrac ∧
    IsDigits 2 2 hour time.hour ∧ time.hour ≤ 23 ∧ IsDigits 2 2 minute time.minute ∧ time.minute ≤ 59 ∧
    IsDigits 2 2 second time.second ∧ time.second ≤ 60 ∧ (secfrac = [] ∨ IsSecfrac secfrac) ∧
    time.type = .EType_YMDHMSZ

/-- `"Z" / (("+" / "-") 2DIGIT ":" 2DIGIT)`, in minutes -/
def IsTimeOffset : Lang UInt8 Int := fun p offset =>
  (∃ z, p = [z] ∧ toASCIILower z = 0x7A ∧ offset = 0) ∨
    ∃ sign hour minute h m, p = sign :: hour ++ 0x3A :: minute ∧ IsDigits 2 2 hour h ∧ h ≤ 23 ∧
      IsDigits 2 2 minute m ∧ m ≤ 59 ∧
      (sign = 0x2B ∧ offset = 60 * h + m ∨ sign = 0x2D ∧ offset = -(60 * h + m))

/-- `[BWS] full-date "T" full-time` -/
def IsRFC3339DateTime : Lang UInt8 Date := fun p date =>
  ∃ blank day t time offset d tod z, p = blank ++ day ++ t :: time ++ offset ∧ IsOptBWS blank ∧ IsFullDate day d ∧
    toASCIILower t = 0x74 ∧ IsPartialTime time tod ∧ IsTimeOffset offset z ∧ date = d.at tod z

/-! ## dates -/

theorem parseRFC3339FullDate_iff (s t : Bytes) (date : Day) : parseRFC3339FullDate s = some (date, t) ↔
    ∃ u, parseRFC5234Digits 4 4 s = some (date.year, u) ∧ 0 < date.year ∧
      ∃ v, parseRFC5234Octet 0x2D u = some v ∧ ∃ w, parseRFC5234Digits 2 2 v = some (date.month, w) ∧
        (1 ≤ date.month ∧ date.month ≤ 12) ∧ ∃ x, parseRFC5234Octet 0x2D w = some x ∧
          parseRFC5234Digits 2 2 x = some (date.day, t) ∧ 1 ≤ date.day ∧
            date.day ≤ lastDayOfMonth date.year date.month := by
  obtain ⟨year, month, day⟩ := date
  simp only [parseRFC3339FullDate, Option.bind_eq_bind, Option.bind_eq_some_iff, Option.guard_eq_some', Prod.exists]
  constructor
  · rintro ⟨year', u, hy, -, hpos, v, hv, month', w, hm, -, hrange, x, hx, mday, y, hd, -, hday, hr⟩
    obtain ⟨heq, rfl⟩ := Prod.mk.inj (Option.some.inj hr)
    obtain ⟨rfl, rfl, rfl⟩ := Day.mk.inj heq
    exact ⟨u, hy, hpos, v, hv, w, hm, hrange, x, hx, hd, hday⟩
  · rintro ⟨u, hy, hpos, v, hv, w, hm, hrange, x, hx, hd, hday⟩
    exact ⟨year, u, hy, (), hpos, v, hv, month, w, hm, (), hrange, x, hx, day, t, hd, (), hday, rfl⟩

theorem parseRFC3339FullDate_sound {s t : Bytes} {date : Day} (h : parseRFC3339FullDate s = some (date, t)) :
    ∃ p, s = p ++ t ∧ IsFullDate p date := by
  obtain ⟨u, hy, hpos, v, hv, w, hm, hrange, x, hx, hd, hone, hlast⟩ := (parseRFC3339FullDate_iff s t date).mp h
  obtain ⟨year, rfl, hyear⟩ := parseRFC5234Digits_sound hy
  rw [parseRFC5234Octet_sound hv]
  obtain ⟨month, rfl, hmonth⟩ := parseRFC5234Digits_sound hm
  rw [parseRFC5234Octet_sound hx]
  obtain ⟨mday, rfl, hmday⟩ := parseRFC5234Digits_sound hd
  rw [lastDayOfMonth_eq _ hrange] at hlast
  exact ⟨year ++ 0x2D :: month ++ 0x2D :: mday, by simp, year, month, mday, rfl, hyear, hpos, hmonth, hrange, hmday,
    hone, hlast⟩

theorem parseRFC3339FullDate_append {p : Bytes} {date : Day} (hp : IsFullDate p date) (t : Bytes) :
    parseRFC3339FullDate (p ++ t) = some (date, t) := by
  obtain ⟨year, month, mday, rfl, hyear, hpos, hmonth, hrange, hmday, hone, hlast⟩ := hp
  rw [← lastDayOfMonth_eq _ hrange] at hlast
  rw [parseRFC3339FullDate_iff]
  simp only [List.append_assoc, List.cons_append]
  exact ⟨_, parseRFC5234Digits_exact hyear _, hpos, _, parseRFC5234Octet_cons _ _, _, parseRFC5234Digits_exact hmonth _,
    hrange, _, parseRFC5234Octet_cons _ _, parseRFC5234Digits_exact hmday _, hone, hlast⟩

/-! ## times -/

theorem parseRFC5234Digit_iff (s t : Bytes) (v : Nat) : parseRFC5234Digit s = some (v, t) ↔
    ∃ c, s = c :: t ∧ isASCIIDigit c = true ∧ digitValue c = v := by
  cases s with
  | nil => simp [parseRFC5234Digit]
  | cons c s =>
    simp only [parseRFC5234Digit, Option.ite_none_right_eq_some, Option.some.injEq, Prod.mk.injEq, List.cons.injEq]
    constructor
    · rintro ⟨hc, hv, rfl⟩
      exact ⟨c, ⟨rfl, rfl⟩, hc, hv⟩
    · rintro ⟨d, ⟨rfl, rfl⟩, hc, hv⟩
      exact ⟨hc, hv, rfl⟩

theorem skipSecfrac_cases (s : Bytes) :
    (∃ c t, s = 0x2E :: c :: t ∧ isASCIIDigit c = true ∧ skipSecfrac s = t.dropWhile isASCIIDigit) ∨
      (∀ c t, s = 0x2E :: c :: t → isASCIIDigit c = false) ∧ skipSecfrac s = s := by
  unfold skipSecfrac
  split
  · next v t h =>
    obtain ⟨u, hu, hd⟩ := Option.bind_eq_some_iff.mp h
    obtain ⟨c, rfl, hc, -⟩ := (parseRFC5234Digit_iff _ _ _).mp hd
    exact Or.inl ⟨c, t, parseRFC5234Octet_sound hu, hc, rfl⟩
  · next h =>
    refine Or.inr ⟨?_, rfl⟩
    rintro c t rfl
    cases hc : isASCIIDigit c with
    | false => rfl
    | true =>
      have hd : parseRFC5234Digit (c :: t) = some (digitValue c, t) := (parseRFC5234Digit_iff _ _ _).mpr ⟨c, rfl, hc, rfl⟩
      rw [parseRFC5234Octet_cons] at h
      exact absurd (hd.symm.trans h) (by simp)

theorem skipSecfrac_split (s : Bytes) : ∃ p, s = p ++ skipSecfrac s ∧ (p = [] ∨ IsSecfrac p) := by
  rcases skipSecfrac_cases s with ⟨c, t, rfl, hc, hskip⟩ | ⟨-, hskip⟩
  · rw [hskip]
    refine ⟨0x2E :: c :: t.takeWhile isASCIIDigit, by simp, Or.inr ⟨_, rfl, by simp, ?_⟩⟩
    intro x hx
    rcases List.mem_cons.mp hx with rfl | hx
    · exact hc
    · exact List.mem_takeWhile_imp hx
  · rw [hskip]
    exact ⟨[], rfl, Or.inl rfl⟩

theorem skipSecfrac_append {p : Bytes} (hp : p = [] ∨ IsSecfrac p) {c : UInt8} (t : Bytes)
    (hc : isASCIIDigit c = false ∧ c ≠ 0x2E) : skipSecfrac (p ++ c :: t) = c :: t := by
  rcases hp with rfl | ⟨digits, rfl, hne, hdigits⟩
  · rcases skipSecfrac_cases (c :: t) with ⟨d, u, heq, -⟩ | ⟨-, hskip⟩
    · exact absurd (List.cons.inj heq).1 hc.2
    · exact hskip
  · obtain ⟨d, digits, rfl⟩ := List.exists_cons_of_ne_nil hne
    have hd := hdigits d List.mem_cons_self
    have hrest : ∀ x ∈ digits, isASCIIDigit x = true := fun x hx => hdigits x (List.mem_cons_of_mem _ hx)
    rcases skipSecfrac_cases (0x2E :: d :: digits ++ c :: t) with ⟨e, u, heq, -, hskip⟩ | ⟨hno, -⟩
    · obtain ⟨-, htail⟩ := List.cons.inj heq
      obtain ⟨-, rfl⟩ := List.cons.inj htail
      rw [hskip]
      show List.dropWhile isASCIIDigit (digits ++ c :: t) = c :: t
      rw [List.dropWhile_append_of_pos hrest, List.dropWhile_cons_of_neg (by simp [hc.1])]
    · exact absurd (hno d _ rfl) (by simp [hd])

theorem parseRFC3339PartialTime_iff (s t : Bytes) (time : TimeOfDay) : parseRFC3339PartialTime s = some (time, t) ↔
    ∃ u, parseRFC5234Digits 2 2 s = some (time.hour, u) ∧ time.hour ≤ 23 ∧ ∃ v, parseRFC5234Octet 0x3A u = some v ∧
      ∃ w, parseRFC5234Digits 2 2 v = some (time.minute, w) ∧ time.minute ≤ 59 ∧
        ∃ x, parseRFC5234Octet 0x3A w = some x ∧ ∃ y, parseRFC5234Digits 2 2 x = some (time.second, y) ∧
          time.second ≤ 60 ∧ time.type = .EType_YMDHMSZ ∧ skipSecfrac y = t := by
  obtain ⟨type, hour, minute, second⟩ := time
  simp only [parseRFC3339PartialTime, Option.bind_eq_bind, Option.bind_eq_some_iff, Option.guard_eq_some', Prod.exists]
  constructor
  · rintro ⟨hour', u, hh, -, hh', v, hv, minute', w, hm, -, hm', x, hx, second', y, hs, -, hs', hr⟩
    obtain ⟨heq, rfl⟩ := Prod.mk.inj (Option.some.inj hr)
    obtain ⟨rfl, rfl, rfl, rfl⟩ := TimeOfDay.mk.inj heq
    exact ⟨u, hh, hh', v, hv, w, hm, hm', x, hx, y, hs, hs', rfl, rfl⟩
  · rintro ⟨u, hh, hh', v, hv, w, hm, hm', x, hx, y, hs, hs', rfl, rfl⟩
    exact ⟨hour, u, hh, (), hh', v, hv, minute, w, hm, (), hm', x, hx, second, y, hs, (), hs', rfl⟩

theorem parseRFC3339PartialTime_sound {s t : Bytes} {time : TimeOfDay}
    (h : parseRFC3339PartialTime s = some (time, t)) : ∃ p, s = p ++ t ∧ IsPartialTime p time := by
  obtain ⟨u, hh, hh', v, hv, w, hm, hm', x, hx, y, hs, hs', htype, rfl⟩ := (parseRFC3339PartialTime_iff s t time).mp h
  obtain ⟨hour, rfl, hhour⟩ := parseRFC5234Digits_sound hh
  rw [parseRFC5234Octet_sound hv]
  obtain ⟨minute, rfl, hminute⟩ := parseRFC5234Digits_sound hm
  rw [parseRFC5234Octet_sound hx]
  obtain ⟨second, rfl, hsecond⟩ := parseRFC5234Digits_sound hs
  obtain ⟨secfrac, hsplit, hfrac⟩ := skipSecfrac_split y
  refine ⟨hour ++ 0x3A :: minute ++ 0x3A :: second ++ secfrac, ?_, hour, minute, second, secfrac, rfl, hhour, hh', hminute,
    hm', hsecond, hs', hfrac, htype⟩
  simp [← hsplit]

theorem parseRFC3339PartialTime_append {p : Bytes} {time : TimeOfDay} (hp : IsPartialTime p time) {c : UInt8} (t : Bytes)
    (hc : isASCIIDigit c = false ∧ c ≠ 0x2E) : parseRFC3339PartialTime (p ++ c :: t) = some (time, c :: t) := by
  obtain ⟨hour, minute, second, secfrac, rfl, hhour, hh', hminute, hm', hsecond, hs', hfrac, htype⟩ := hp
  rw [parseRFC3339PartialTime_iff]
  simp only [List.append_assoc, List.cons_append]
  exact ⟨_, parseRFC5234Digits_exact hhour _, hh', _, parseRFC5234Octet_cons _ _, _, parseRFC5234Digits_exact hminute _,
    hm', _, parseRFC5234Octet_cons _ _, _, parseRFC5234Digits_exact hsecond _, hs', htype, skipSecfrac_append hfrac t hc⟩

theorem numericOffset_iff (s t : Bytes) (offset : Int) : numericOffset s = some (offset, t) ↔
    ∃ sign u, parseSign s = some (sign, u) ∧ ∃ h v, parseRFC5234Digits 2 2 u = some (h, v) ∧ h ≤ 23 ∧
      ∃ w, parseRFC5234Octet 0x3A v = some w ∧ ∃ m, parseRFC5234Digits 2 2 w = some (m, t) ∧ m ≤ 59 ∧
        sign * (60 * h + m : Nat) = offset := by
  simp [numericOffset, Option.bind_eq_some_iff]

theorem parseLetter_iff (ref : UInt8) (s t : Bytes) : parseRFC5234OctetsNocase [ref] s = some t ↔
    ∃ c, s = c :: t ∧ toASCIILower c = toASCIILower ref := by
  rw [parseRFC5234OctetsNocase_iff]
  constructor
  · rintro ⟨p, rfl, hp⟩
    obtain ⟨c, rfl⟩ := List.length_eq_one_iff.mp (by simpa using congrArg List.length hp)
    exact ⟨c, rfl, List.head_eq_of_cons_eq hp⟩
  · rintro ⟨c, rfl, hc⟩
    exact ⟨[c], rfl, congrArg (fun x => [x]) hc⟩

theorem parseZ_iff (s t : Bytes) : parseRFC5234OctetsNocase (octets ['Z']) s = some t ↔
    ∃ z, s = z :: t ∧ toASCIILower z = 0x7A := parseLetter_iff 0x5A s t

theorem parseT_iff (s t : Bytes) : parseRFC5234OctetsNocase (octets ['T']) s = some t ↔
    ∃ c, s = c :: t ∧ toASCIILower c = 0x74 := parseLetter_iff 0x54 s t

theorem parseRFC3339TimeOffset_sound {s t : Bytes} {offset : Int} (h : parseRFC3339TimeOffset s = some (offset, t)) :
    ∃ p, s = p ++ t ∧ IsTimeOffset p offset := by
  rw [parseRFC3339TimeOffset] at h
  split at h
  · next u hu =>
    obtain ⟨rfl, rfl⟩ := Prod.mk.inj (Option.some.inj h)
    obtain ⟨z, rfl, hz⟩ := (parseZ_iff _ _).mp hu
    exact ⟨[z], rfl, Or.inl ⟨z, rfl, hz, rfl⟩⟩
  · obtain ⟨sign, u, hsign, hh, v, hhour, hle, w, hw, m, hm, hm', rfl⟩ := (numericOffset_iff _ _ _).mp h
    obtain ⟨hour, rfl, hhour'⟩ := parseRFC5234Digits_sound hhour
    rw [parseRFC5234Octet_sound hw] at hsign
    obtain ⟨minute, rfl, hminute⟩ := parseRFC5234Digits_sound hm
    rcases parseSign_sound hsign with ⟨rfl, rfl⟩ | ⟨rfl, rfl⟩
    · exact ⟨0x2B :: hour ++ 0x3A :: minute, by simp, Or.inr ⟨0x2B, hour, minute, hh, m, rfl, hhour', hle, hminute, hm',
        Or.inl ⟨rfl, by omega⟩⟩⟩
    · exact ⟨0x2D :: hour ++ 0x3A :: minute, by simp, Or.inr ⟨0x2D, hour, minute, hh, m, rfl, hhour', hle, hminute, hm',
        Or.inr ⟨rfl, by omega⟩⟩⟩

theorem parseRFC3339TimeOffset_append {p : Bytes} {offset : Int} (hp : IsTimeOffset p offset) (t : Bytes) :
    parseRFC3339TimeOffset (p ++ t) = some (offset, t) := by
  rcases hp with ⟨z, rfl, hz, rfl⟩ | ⟨sign, hour, minute, h, m, rfl, hhour, hle, hminute, hm, hsign⟩
  · have hread : parseRFC5234OctetsNocase (octets ['Z']) ([z] ++ t) = some t := (parseZ_iff _ _).mpr ⟨z, rfl, hz⟩
    rw [parseRFC3339TimeOffset, hread]
  · have hz : parseRFC5234OctetsNocase (octets ['Z']) (sign :: hour ++ 0x3A :: minute ++ t) = none := by
      rw [Option.eq_none_iff_forall_ne_some]
      intro u hu
      obtain ⟨z, heq, hz⟩ := (parseZ_iff _ _).mp hu
      rw [← (List.cons.inj heq).1] at hz
      rcases hsign with ⟨rfl, -⟩ | ⟨rfl, -⟩ <;> exact absurd hz (by decide)
    rw [parseRFC3339TimeOffset, hz]
    show numericOffset _ = _
    rw [numericOffset_iff]
    simp only [List.append_assoc, List.cons_append]
    rcases hsign with ⟨rfl, rfl⟩ | ⟨rfl, rfl⟩
    · exact ⟨1, _, rfl, h, _, parseRFC5234Digits_exact hhour _, hle, _, parseRFC5234Octet_cons _ _, m,
        parseRFC5234Digits_exact hminute _, hm, by omega⟩
    · exact ⟨-1, _, rfl, h, _, parseRFC5234Digits_exact hhour _, hle, _, parseRFC5234Octet_cons _ _, m,
        parseRFC5234Digits_exact hminute _, hm, by omega⟩

theorem IsTimeOffset.start {p : Bytes} {offset : Int} (hp : IsTimeOffset p offset) :
    ∃ c q, p = c :: q ∧ isASCIIDigit c = false ∧ c ≠ 0x2E := by
  rcases hp with ⟨z, rfl, hz, -⟩ | ⟨sign, hour, minute, h, m, rfl, -, -, -, -, hsign⟩
  · refine ⟨z, [], rfl, ?_, ?_⟩
    · cases hd : isASCIIDigit z with
      | false => rfl
      | true => exact absurd (by rw [hz]; decide) (digit_not_letter hd)
    · rintro rfl
      exact absurd hz (by decide)
  · rcases hsign with ⟨rfl, -⟩ | ⟨rfl, -⟩ <;> exact ⟨_, _, rfl, by decide, by decide⟩

/-! ## the parser of RFC 3339 -/

theorem readRFC3339DateTime_iff (s t : Bytes) (date : Date) : readRFC3339DateTime s = some (date, t) ↔
    ∃ d u, parseRFC3339FullDate (skipBWS s) = some (d, u) ∧ ∃ v, parseRFC5234OctetsNocase (octets ['T']) u = some v ∧
      ∃ time w, parseRFC3339PartialTime v = some (time, w) ∧ ∃ offset, parseRFC3339TimeOffset w = some (offset, t) ∧
        d.at time offset = date := by
  simp only [readRFC3339DateTime, parseRFC3339FullTime, Option.bind_eq_bind, Option.bind_eq_some_iff, Prod.exists]
  constructor
  · rintro ⟨d, u, hd, v, hv, time, offset, w, ⟨time', x, htime, offset', y, hoffset, hr⟩, heq⟩
    obtain ⟨hpair, rfl⟩ := Prod.mk.inj (Option.some.inj hr)
    obtain ⟨rfl, rfl⟩ := Prod.mk.inj hpair
    obtain ⟨rfl, rfl⟩ := Prod.mk.inj (Option.some.inj heq)
    exact ⟨d, u, hd, v, hv, time', x, htime, offset', hoffset, rfl⟩
  · rintro ⟨d, u, hd, v, hv, time, w, htime, offset, hoffset, rfl⟩
    exact ⟨d, u, hd, v, hv, time, offset, t, ⟨time, w, htime, offset, t, hoffset, rfl⟩, rfl⟩

theorem readRFC3339DateTime_sound (s : Bytes) : Sound IsRFC3339DateTime readRFC3339DateTime s := by
  intro date t h
  obtain ⟨d, u, hd, v, hv, time, w, htime, offset, hoffset, rfl⟩ := (readRFC3339DateTime_iff s t date).mp h
  obtain ⟨blank, hs, hblank⟩ := skipBWS_split s
  obtain ⟨day, hday, hdate⟩ := parseRFC3339FullDate_sound hd
  obtain ⟨c, rfl, hc⟩ := (parseT_iff _ _).mp hv
  obtain ⟨tod, rfl, htod⟩ := parseRFC3339PartialTime_sound htime
  obtain ⟨zone, rfl, hzone⟩ := parseRFC3339TimeOffset_sound hoffset
  refine ⟨blank ++ day ++ c :: tod ++ zone, ?_, blank, day, c, tod, zone, d, time, offset, rfl, hblank, hdate, hc, htod,
    hzone, rfl⟩
  rw [hday] at hs
  simpa using hs

theorem IsFullDate.skipBWS {p : Bytes} {date : Day} (hp : IsFullDate p date) (t : Bytes) :
    skipBWS (p ++ t) = p ++ t := by
  obtain ⟨year, month, mday, rfl, hyear, -⟩ := hp
  simp only [List.append_assoc, List.cons_append]
  exact skipBWS_word hyear _

theorem readRFC3339DateTime_covers : Covers IsRFC3339DateTime readRFC3339DateTime := by
  rintro p date t ⟨blank, day, c, tod, zone, d, time, offset, rfl, hblank, hdate, hc, htod, hzone, rfl⟩
  refine ⟨[], d.at time offset, t, ?_, rfl, fun _ => rfl⟩
  have hskip : skipBWS (blank ++ day ++ c :: tod ++ zone ++ t) = day ++ c :: (tod ++ (zone ++ t)) := by
    simp only [List.append_assoc, List.cons_append]
    rw [skipBWS_append hblank, hdate.skipBWS]
  have hread := parseRFC3339TimeOffset_append hzone t
  obtain ⟨x, q, rfl, hx⟩ := hzone.start
  rw [readRFC3339DateTime_iff, hskip]
  exact ⟨d, _, parseRFC3339FullDate_append hdate _, _, (parseT_iff _ _).mpr ⟨c, rfl, hc⟩, time, _,
    parseRFC3339PartialTime_append htod _ hx, offset, hread, rfl⟩

/-! ## the stages of the other parser -/

theorem w3cYear_iff (s t : Bytes) (year : Nat) : w3cYear s = some (year, t) ↔
    parseRFC5234Digits 4 4 (skipBWS s) = some (year, t) ∧ year ≠ 0 := by
  simp [w3cYear, Option.bind_eq_some_iff]

theorem w3cMonth_iff (s t : Bytes) (month : Nat) : w3cMonth s = some (month, t) ↔
    ∃ u, parseRFC5234Octet 0x2D s = some u ∧ parseRFC5234Digits 2 2 u = some (month, t) ∧ 1 ≤ month ∧ month ≤ 12 := by
  simp [w3cMonth, Option.bind_eq_some_iff]

theorem w3cDay_iff (year month : Nat) (s t : Bytes) (mday : Nat) : w3cDay year month s = some (mday, t) ↔
    ∃ u, parseRFC5234Octet 0x2D s = some u ∧ parseRFC5234Digits 2 2 u = some (mday, t) ∧
      1 ≤ mday ∧ mday ≤ lastDayOfMonth year month := by
  simp [w3cDay, Option.bind_eq_some_iff]

theorem parseRFC3339FullDate_stages (s t : Bytes) (d : Day) : parseRFC3339FullDate (skipBWS s) = some (d, t) ↔
    ∃ u, w3cYear s = some (d.year, u) ∧ ∃ v, w3cMonth u = some (d.month, v) ∧
      w3cDay d.year d.month v = some (d.day, t) := by
  simp only [parseRFC3339FullDate_iff, w3cYear_iff, w3cMonth_iff, w3cDay_iff]
  constructor
  · rintro ⟨u, hy, hpos, v, hv, w, hm, hrange, x, hx, hd, hday⟩
    exact ⟨u, ⟨hy, by omega⟩, w, ⟨v, hv, hm, hrange⟩, x, hx, hd, hday⟩
  · rintro ⟨u, ⟨hy, hpos⟩, w, ⟨v, hv, hm, hrange⟩, x, hx, hd, hday⟩
    exact ⟨u, hy, by omega, v, hv, w, hm, hrange, x, hx, hd, hday⟩

theorem parseW3CSecond_iff (s t : Bytes) (second : Nat) : parseW3CSecond s = some (second, t) ↔
    ∃ u, parseRFC5234Octet 0x3A s = some u ∧ parseRFC5234Digits 2 2 u = some (second, t) ∧ second ≤ 60 := by
  simp [parseW3CSecond, Option.bind_eq_some_iff]

theorem parseW3CTime_whole (s t : Bytes) (time : TimeOfDay) :
    parseW3CTime s = some (time, t) ∧ time.type = .EType_YMDHMSZ ↔ parseRFC3339PartialTime s = some (time, t) := by
  rw [parseRFC3339PartialTime_iff]
  obtain ⟨type, hour, minute, second⟩ := time
  simp only [parseW3CTime, Option.bind_eq_bind, Option.bind_eq_some_iff, Option.guard_eq_some', Prod.exists]
  constructor
  · rintro ⟨⟨hour', u, hh, -, hh', v, hv, minute', w, hm, -, hm', hr⟩, htype⟩
    cases hsecond : parseW3CSecond w with
    | none =>
      rw [hsecond] at hr
      obtain ⟨heq, -⟩ := Prod.mk.inj (Option.some.inj hr)
      obtain ⟨rfl, -⟩ := TimeOfDay.mk.inj heq
      exact absurd htype (by decide)
    | some r =>
      obtain ⟨second', y⟩ := r
      rw [hsecond] at hr
      obtain ⟨heq, rfl⟩ := Prod.mk.inj (Option.some.inj hr)
      obtain ⟨rfl, rfl, rfl, rfl⟩ := TimeOfDay.mk.inj heq
      obtain ⟨x, hx, hs, hs'⟩ := (parseW3CSecond_iff _ _ _).mp hsecond
      exact ⟨u, hh, hh', v, hv, w, hm, hm', x, hx, y, hs, hs', rfl, rfl⟩
  · rintro ⟨u, hh, hh', v, hv, w, hm, hm', x, hx, y, hs, hs', rfl, rfl⟩
    have hsecond : parseW3CSecond w = some (second, y) := (parseW3CSecond_iff _ _ _).mpr ⟨x, hx, hs, hs'⟩
    exact ⟨⟨hour, u, hh, (), hh', v, hv, minute, w, hm, (), hm', by rw [hsecond]; rfl⟩, rfl⟩

theorem w3cTime_iff (s t : Bytes) (time : TimeOfDay) (zone : Int) : w3cTime s = some ((time, zone), t) ↔
    ∃ u, parseRFC5234OctetsNocase (octets ['T']) s = some u ∧ ∃ v, parseW3CTime u = some (time, v) ∧
      parseRFC3339TimeOffset v = some (zone, t) := by
  simp [w3cTime, parseW3CZone, Option.bind_eq_some_iff]

theorem readRFC3339DateTime_stages (s t : Bytes) (date : Date) : readRFC3339DateTime s = some (date, t) ↔
    ∃ (d : Day) (u : Bytes), w3cYear s = some (d.year, u) ∧ ∃ v, w3cMonth u = some (d.month, v) ∧
      ∃ w, w3cDay d.year d.month v = some (d.day, w) ∧
        ∃ time zone, w3cTime w = some ((time, zone), t) ∧ time.type = .EType_YMDHMSZ ∧ d.at time zone = date := by
  simp only [readRFC3339DateTime_iff, parseRFC3339FullDate_stages, w3cTime_iff, ← parseW3CTime_whole]
  constructor
  · rintro ⟨d, w, ⟨u, hy, v, hm, hd⟩, x, hx, time, y, ⟨htime, htype⟩, zone, hzone, rfl⟩
    exact ⟨d, u, hy, v, hm, w, hd, time, zone, ⟨x, hx, y, htime, hzone⟩, htype, rfl⟩
  · rintro ⟨d, u, hy, v, hm, w, hd, time, zone, ⟨x, hx, y, htime, hzone⟩, htype, rfl⟩
    exact ⟨d, w, ⟨u, hy, v, hm, hd⟩, x, hx, time, y, ⟨htime, htype⟩, zone, hzone, rfl⟩

theorem parseW3CDateTime_full {s u v w t : Bytes} {d : Day} {time : TimeOfDay} {zone : Int}
    (hy : w3cYear s = some (d.year, u)) (hm : w3cMonth u = some (d.month, v))
    (hd : w3cDay d.year d.month v = some (d.day, w)) (ht : w3cTime w = some ((time, zone), t)) (out_date : Option Date) :
    parseW3CDateTime s out_date = { result := true, src := w, date := out_date.map fun _ => d.at time zone } := by
  unfold parseW3CDateTime
  rw [hy]
  dsimp only
  rw [hm]
  dsimp only
  rw [hd]
  dsimp only
  rw [ht]
  rfl

theorem parseW3CDateTime_seconds {s : Bytes} {out_date : Option Date} {date : Date}
    (hresult : (parseW3CDateTime s out_date).result = true) (hdate : (parseW3CDateTime s out_date).date = some date)
    (htype : date.type = .EType_YMDHMSZ) :
    ∃ (d : Day) (u : Bytes), w3cYear s = some (d.year, u) ∧ ∃ v, w3cMonth u = some (d.month, v) ∧
      ∃ w, w3cDay d.year d.month v = some (d.day, w) ∧
        ∃ time zone t, w3cTime w = some ((time, zone), t) ∧ time.type = .EType_YMDHMSZ ∧ d.at time zone = date := by
  have hpart : ∀ part : Date, (out_date.map fun _ => part) = some date → part.type = .EType_YMDHMSZ := by
    intro part h
    obtain ⟨_, -, rfl⟩ := Option.map_eq_some_iff.mp h
    exact htype
  unfold parseW3CDateTime at hresult hdate
  cases hy : w3cYear s with
  | none =>
    rw [hy] at hresult
    exact absurd hresult Bool.false_ne_true
  | some r =>
    obtain ⟨year, u⟩ := r
    simp only [hy] at hdate
    cases hm : w3cMonth u with
    | none =>
      simp only [hm] at hdate
      exact absurd (hpart _ hdate) (by simp)
    | some r =>
      obtain ⟨month, v⟩ := r
      simp only [hm] at hdate
      cases hd : w3cDay year month v with
      | none =>
        simp only [hd] at hdate
        exact absurd (hpart _ hdate) (by simp)
      | some r =>
        obtain ⟨mday, w⟩ := r
        simp only [hd] at hdate
        cases ht : w3cTime w with
        | none =>
          simp only [ht] at hdate
          exact absurd (hpart _ hdate) (by simp)
        | some r =>
          obtain ⟨⟨time, zone⟩, t⟩ := r
          simp only [ht] at hdate
          obtain ⟨_, -, rfl⟩ := Option.map_eq_some_iff.mp hdate
          exact ⟨{ year := year, month := month, day := mday }, u, rfl, v, hm, w, hd, time, zone, t, ht, htype, rfl⟩

/-! ## how far they agree -/

/-- what the two parsers should have in common -/
def Agree (src : Bytes) : Prop := ∀ out_date : Option Date,
  ((parseRFC3339DateTime src out_date).result = true →
    parseW3CDateTime src out_date = parseRFC3339DateTime src out_date) ∧
  (∀ date, (parseW3CDateTime src out_date).result = true → (parseW3CDateTime src out_date).date = some date →
    date.type = .EType_YMDHMSZ →
    (parseRFC3339DateTime src out_date).result = true ∧ (parseRFC3339DateTime src out_date).date = some date)

theorem parseW3CDateTime_date {src t : Bytes} {date : Date} (h : readRFC3339DateTime src = some (date, t))
    (out_date : Option Date) : ∃ w, t.length < w.length ∧
      parseW3CDateTime src out_date = { result := true, src := w, date := out_date.map fun _ => date } := by
  obtain ⟨d, u, hy, v, hm, w, hd, time, zone, ht, htype, rfl⟩ := (readRFC3339DateTime_stages src t date).mp h
  refine ⟨w, ?_, parseW3CDateTime_full hy hm hd ht out_date⟩
  obtain ⟨x, hx, y, htime, hzone⟩ := (w3cTime_iff _ _ _ _).mp ht
  obtain ⟨c, rfl, -⟩ := (parseT_iff _ _).mp hx
  obtain ⟨p, rfl, -⟩ := parseRFC3339PartialTime_sound ((parseW3CTime_whole _ _ _).mp ⟨htime, htype⟩)
  obtain ⟨q, rfl, -⟩ := parseRFC3339TimeOffset_sound hzone
  simp only [List.length_cons, List.length_append]
  omega

theorem parseW3CDateTime_reported {src : Bytes} {out_date : Option Date} {date : Date}
    (hresult : (parseW3CDateTime src out_date).result = true) (hdate : (parseW3CDateTime src out_date).date = some date)
    (htype : date.type = .EType_YMDHMSZ) : ∃ t, readRFC3339DateTime src = some (date, t) := by
  obtain ⟨d, u, hy, v, hm, w, hd, time, zone, t, ht, htype, rfl⟩ := parseW3CDateTime_seconds hresult hdate htype
  exact ⟨t, (readRFC3339DateTime_stages src t _).mpr ⟨d, u, hy, v, hm, w, hd, time, zone, ht, htype, rfl⟩⟩

/-- The two parsers agree on a string exactly if it does not begin with a date and time of RFC 3339. -/
theorem agree_iff (src : Bytes) : Agree src ↔ ¬ ∃ p date, p <+: src ∧ IsRFC3339DateTime p date := by
  rw [← reads_iff (readRFC3339DateTime_sound src) readRFC3339DateTime_covers]
  constructor
  · intro hagree hread
    obtain ⟨⟨date, t⟩, h⟩ := Option.isSome_iff_exists.mp hread
    obtain ⟨w, hlt, hw⟩ := parseW3CDateTime_date h none
    have hr : parseRFC3339DateTime src none = { result := true, src := t, date := none } := by
      unfold parseRFC3339DateTime
      rw [h]
      rfl
    have heq := (hagree none).1 (by rw [hr])
    rw [hw, hr] at heq
    obtain ⟨-, rfl, -⟩ := Parsed.mk.inj heq
    exact absurd hlt (lt_irrefl _)
  · intro hread out_date
    have hnone : readRFC3339DateTime src = none := by simpa using hread
    refine ⟨?_, ?_⟩
    · intro hresult
      unfold parseRFC3339DateTime at hresult
      rw [hnone] at hresult
      exact absurd hresult Bool.false_ne_true
    · intro date hresult hdate htype
      obtain ⟨t, ht⟩ := parseW3CDateTime_reported hresult hdate htype
      rw [hnone] at ht
      exact absurd ht (by simp)

/-- On `2001-01-01T00:00:00Z` one parser takes everything, and the other one leaves the time. -/
theorem parseW3CDateTime_leaves_time :
    let src := octets ['2', '0', '0', '1', '-', '0', '1', '-', '0', '1', 'T', '0', '0', ':', '0', '0', ':', '0', '0', 'Z']
    (parseRFC3339DateTime src none).result = true ∧ (parseRFC3339DateTime src none).src = [] ∧
      (parseW3CDateTime src none).result = true ∧
      (parseW3CDateTime src none).src = octets ['T', '0', '0', ':', '0', '0', ':', '0', '0', 'Z'] ∧ ¬ Agree src := by
  refine ⟨by decide, by decide, by decide, by decide, ?_⟩
  intro hagree
  have h := congrArg Parsed.src ((hagree none).1 (by decide))
  exact absurd h (by decide)

end Rss
end Wkc
