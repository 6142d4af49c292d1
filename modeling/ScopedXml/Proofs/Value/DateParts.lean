import Mathlib
import ScopedXml.Proofs.Value.Times

/-!
# Dates in parts

A type for a part of a date accepts the parts with which a date is accepted, where those that are
left out are taken from 1 January 2000; and a date and a time with a `T` between them are accepted
if each is accepted by itself (`date_types_agree`). The year zero is the exception: there is no such
date, but it is accepted as a year, and so are its months (`not_all_date_types_agree`).

* `isDateTime_iff`: a date and a time count by themselves.
* `accepts_yearMonth_iff`, `accepts_month_iff`, `accepts_day_iff`, `accepts_monthDay_iff`: what each
  part comes down to.
-/

namespace ScopedXml.Value

/-! ## A date and a time -/

/-- No time zone stands at the end of the text. -/
def Unzoned (cs : List Char) : Prop := ∀ d z, cs = d ++ z → Zone z → z = []

theorem unzoned_of_notMem {cs : List Char} (hutc : 'Z' ∉ cs) (hcolon : ':' ∉ cs) :
    Unzoned cs := by
  rintro d z rfl hz
  rw [List.mem_append, not_or] at hutc hcolon
  cases hz with
  | none => rfl
  | utc => exact absurd List.mem_cons_self hutc.2
  | offset => exact absurd (by simp) hcolon.2

/-- Around the only `T`, a date without a time zone and a time count by themselves. -/
theorem isDateTime_iff {d t : List Char} (hzone : Unzoned d) (hd : 'T' ∉ d) (ht : 'T' ∉ t) :
    isDateTime (d ++ 'T' :: t) = true ↔ isDate d = true ∧ isTime t = true := by
  constructor
  · intro h
    simp only [isDateTime, Option.any_eq_true, Option.bind_eq_some_iff] at h
    obtain ⟨z, ⟨time, ⟨rest, hdate, hbehind⟩, hclock⟩, hz⟩ := h
    obtain ⟨front, hsplit, hread⟩ := exists_of_date? hdate
    rw [behind?_eq_some_iff.mp hbehind, List.append_cons_inj_of_notMem hd ht] at hsplit
    obtain ⟨rfl, -, rfl⟩ := hsplit
    have halone := hread []
    rw [List.append_nil] at halone
    exact ⟨by rw [isDate, halone]; rfl, by rw [isTime, hclock]; exact hz⟩
  · rintro ⟨hdate, htime⟩
    simp only [isDate, Option.any_eq_true] at hdate
    obtain ⟨z, hdate, hz⟩ := hdate
    obtain ⟨front, rfl, hread⟩ := exists_of_date? hdate
    obtain rfl := hzone front z rfl (zone_of_isZone hz)
    rw [List.append_nil, isDateTime, hread, Option.bind_some, behind?_cons, Option.bind_some]
    exact htime

/-! ## Days and months -/

theorem knownYear_eq_zero_iff {year : Int} : knownYear year = some 0 ↔ year = 0 := by
  constructor
  · intro h
    unfold knownYear at h
    split at h
    · exact Option.some.inj h
    · cases h
  · rintro rfl
    rfl

theorem isMonth_iff {month : Nat} : isMonth month = true ↔ 1 ≤ month ∧ month ≤ 12 := by
  simp [isMonth]

/-- Every month has a first day. -/
theorem isDay_first (year : Option Int) (month : Nat) : isDay year month 1 = isMonth month := by
  have hlength : 1 ≤ daysIn year month := by
    unfold daysIn
    split_ifs <;> omega
  simp [isDay, hlength]

/-- The year 2000 is a leap year, and so every day that any year has is one of its days. -/
theorem isDay_leap (month day : Nat) : isDay none month day = isDay (some 2000) month day := rfl

theorem isDay_january (day : Nat) : isDay (some 2000) 1 day = (1 ≤ day && day ≤ 31) := rfl

/-! ## Parts of a date -/

section

variable {y m d z : List Char} {year : Int} {month day : Nat}

theorem accepts_year (hy : YearLiteral y year) (hz : Zone z) : Accepts "gYear" (y ++ z) := by
  rw [accepts_iff (rfl : Builtin.ofName? "gYear" = some ⟨"gYear", .year⟩)
    (hy.unblank.append hz.unblank), Form.fits, isYear,
    year?_append hy fun c hc => (hz.head c hc).1]
  exact isZone_of_zone hz

theorem accepts_yearMonth_iff (hy : YearLiteral y year) (hm : TwoDigits m month) (hz : Zone z) :
    Accepts "gYearMonth" (y ++ '-' :: (m ++ z)) ↔ isMonth month = true := by
  have hyear : year? (y ++ '-' :: (m ++ z)) = some (knownYear year, '-' :: (m ++ z)) := by
    refine year?_append hy ?_
    rintro c ⟨rfl⟩
    decide
  rw [accepts_iff (rfl : Builtin.ofName? "gYearMonth" = some ⟨"gYearMonth", .yearMonth⟩)
    (hy.unblank.append (.cons (by decide) (hm.unblank.append hz.unblank))), Form.fits,
    isYearMonth, hyear]
  simp [twoDigits?_append hm, isZone_of_zone hz]

theorem accepts_month_iff (hm : TwoDigits m month) (hz : Zone z) :
    Accepts "gMonth" ('-' :: '-' :: (m ++ z)) ↔ isMonth month = true := by
  have hbehind : behindHyphens? 2 ('-' :: '-' :: (m ++ z)) = some (m ++ z) := rfl
  rw [accepts_iff (rfl : Builtin.ofName? "gMonth" = some ⟨"gMonth", .month⟩)
    (.cons (by decide) (.cons (by decide) (hm.unblank.append hz.unblank))), Form.fits,
    isMonthAlone, hbehind]
  simp [twoDigits?_append hm, isZone_of_zone hz]

theorem accepts_day_iff (hd : TwoDigits d day) (hz : Zone z) :
    Accepts "gDay" ('-' :: '-' :: '-' :: (d ++ z)) ↔ 1 ≤ day ∧ day ≤ 31 := by
  have hbehind : behindHyphens? 3 ('-' :: '-' :: '-' :: (d ++ z)) = some (d ++ z) := rfl
  rw [accepts_iff (rfl : Builtin.ofName? "gDay" = some ⟨"gDay", .day⟩)
    (.cons (by decide) (.cons (by decide) (.cons (by decide) (hd.unblank.append hz.unblank)))),
    Form.fits, isDayAlone, hbehind]
  simp [twoDigits?_append hd, isZone_of_zone hz]

theorem accepts_monthDay_iff (hm : TwoDigits m month) (hd : TwoDigits d day) (hz : Zone z) :
    Accepts "gMonthDay" ('-' :: '-' :: (m ++ '-' :: (d ++ z))) ↔
      isDay none month day = true := by
  have hbehind : behindHyphens? 2 ('-' :: '-' :: (m ++ '-' :: (d ++ z))) =
      some (m ++ '-' :: (d ++ z)) := rfl
  rw [accepts_iff (rfl : Builtin.ofName? "gMonthDay" = some ⟨"gMonthDay", .monthDay⟩)
    (.cons (by decide) (.cons (by decide) (hm.unblank.append (.cons (by decide)
      (hd.unblank.append hz.unblank))))), Form.fits, isMonthDay, hbehind]
  simp [monthDay?, twoDigits?_append hm, twoDigits?_append hd, isZone_of_zone hz]

/-- In the year 2000 a date is accepted if there is such a day. -/
theorem accepts_date_leap_iff (hm : TwoDigits m month) (hd : TwoDigits d day) (hz : Zone z) :
    Accepts "date" ("2000".toList ++ '-' :: (m ++ '-' :: (d ++ z))) ↔
      isDay (some 2000) month day = true := by
  have hyear : YearLiteral "2000".toList 2000 := .positive (by decide : YearDigits "2000".toList)
  have hknown : knownYear 2000 = some 2000 := rfl
  rw [accepts_date_iff hyear hm hd hz, hknown]
  exact and_iff_right (by decide)

/-- **Dates and their parts.** Parts of a date are accepted as what they are exactly if a date with
these parts is accepted, or if the year is zero; and a date without a time zone and a time, with a
`T` between them, are accepted exactly if each of them is. -/
theorem date_types_agree (hy : YearLiteral y year) (hm : TwoDigits m month)
    (hd : TwoDigits d day) (hz : Zone z) :
    (Accepts "gYear" (y ++ z) ↔
        Accepts "date" (y ++ '-' :: ("01".toList ++ '-' :: ("01".toList ++ z))) ∨ year = 0) ∧
      (Accepts "gYearMonth" (y ++ '-' :: (m ++ z)) ↔
        Accepts "date" (y ++ '-' :: (m ++ '-' :: ("01".toList ++ z))) ∨
          year = 0 ∧ 1 ≤ month ∧ month ≤ 12) ∧
      (Accepts "gMonth" ('-' :: '-' :: (m ++ z)) ↔
        Accepts "date" ("2000".toList ++ '-' :: (m ++ '-' :: ("01".toList ++ z)))) ∧
      (Accepts "gMonthDay" ('-' :: '-' :: (m ++ '-' :: (d ++ z))) ↔
        Accepts "date" ("2000".toList ++ '-' :: (m ++ '-' :: (d ++ z)))) ∧
      (Accepts "gDay" ('-' :: '-' :: '-' :: (d ++ z)) ↔
        Accepts "date" ("2000".toList ++ '-' :: ("01".toList ++ '-' :: (d ++ z)))) ∧
      ∀ date time, Trimmed date → Trimmed time → Unzoned date → 'T' ∉ date → 'T' ∉ time →
        (Accepts "dateTime" (date ++ 'T' :: time) ↔
          Accepts "date" date ∧ Accepts "time" time) := by
  have hfirst : TwoDigits "01".toList 1 := by decide
  refine ⟨?year, ?yearMonth, ?month, ?monthDay, ?day, ?dateTime⟩
  case year =>
    have hjanuary : isMonth 1 = true := rfl
    rw [accepts_date_iff hy hfirst hfirst hz, isDay_first, ne_eq, knownYear_eq_zero_iff]
    exact iff_of_true (accepts_year hy hz) (by tauto)
  case yearMonth =>
    rw [accepts_date_iff hy hm hfirst hz, isDay_first, ne_eq, knownYear_eq_zero_iff,
      accepts_yearMonth_iff hy hm hz, isMonth_iff]
    tauto
  case month =>
    rw [accepts_date_leap_iff hm hfirst hz, isDay_first]
    exact accepts_month_iff hm hz
  case monthDay =>
    rw [accepts_date_leap_iff hm hd hz, ← isDay_leap]
    exact accepts_monthDay_iff hm hd hz
  case day =>
    rw [accepts_date_leap_iff hfirst hd hz, isDay_january, Bool.and_eq_true, decide_eq_true_eq,
      decide_eq_true_eq]
    exact accepts_day_iff hd hz
  case dateTime =>
    intro date time hdate htime hzone hT hT'
    have hdateTime : Trimmed (date ++ 'T' :: time) := hdate.join htime (by decide)
    rw [hdateTime.accepts_iff (rfl : Builtin.ofName? "dateTime" = some ⟨"dateTime", .dateTime⟩),
      hdate.accepts_iff (rfl : Builtin.ofName? "date" = some ⟨"date", .date⟩),
      htime.accepts_iff (rfl : Builtin.ofName? "time" = some ⟨"time", .time⟩)]
    exact isDateTime_iff hzone hT hT'

end

/-- A leap day far in the east, and the end of another one. -/
theorem date_types_agree_leap : Accepts "gMonthDay" "--02-29+14:00".toList ∧
    Accepts "gYearMonth" "2024-02+14:00".toList ∧
    Accepts "dateTime" "2024-02-29T24:00:00Z".toList := by
  have hyear : YearLiteral "2024".toList 2024 := .positive (by decide : YearDigits "2024".toList)
  have hmonth : TwoDigits "02".toList 2 := by decide
  have hday : TwoDigits "29".toList 29 := by decide
  have hzone : Zone "+14:00".toList :=
    .offset (.inl rfl) (by decide : TwoDigits "14".toList 14) (by decide : TwoDigits "00".toList 0)
      (by decide)
  have hunzoned : Unzoned "2024-02-29".toList := unzoned_of_notMem (by decide) (by decide)
  have hdate : Trimmed "2024-02-29".toList := Unblank.trimmed (by decide)
  have htime : Trimmed "24:00:00Z".toList := Unblank.trimmed (by decide)
  obtain ⟨-, hyearMonth, -, hmonthDay, -, hdateTime⟩ := date_types_agree hyear hmonth hday hzone
  exact ⟨hmonthDay.mpr ⟨_, rfl, by decide⟩, hyearMonth.mpr (.inl ⟨_, rfl, by decide⟩),
    (hdateTime _ _ hdate htime hunzoned (by decide) (by decide)).mpr
      ⟨⟨_, rfl, by decide⟩, ⟨_, rfl, by decide⟩⟩⟩

/-- There is no date in the year zero, but the year is accepted. -/
theorem not_all_date_types_agree : ¬ ∀ (y z : List Char) (year : Int), YearLiteral y year →
    Zone z → (Accepts "gYear" (y ++ z) ↔
      Accepts "date" (y ++ '-' :: ("01".toList ++ '-' :: ("01".toList ++ z)))) := by
  intro hall
  have hyear : YearLiteral "0000".toList 0 := .positive (by decide : YearDigits "0000".toList)
  obtain ⟨type, htype, hdate⟩ := (hall _ _ _ hyear .none).mp ⟨_, rfl, by decide⟩
  cases htype
  exact absurd hdate (by decide)

end ScopedXml.Value
