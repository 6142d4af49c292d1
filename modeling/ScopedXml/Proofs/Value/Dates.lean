import Mathlib
import ScopedXml.Proofs.Value.Fields

/-!
# Dates

A year, a month and a day are accepted as a date if they are one of the calendar
(`date_accepts_iff`), in years of any size and sign, with one exception: a year that no word of 64
bits holds counts as unknown, and then 29 February is accepted in every year
(`not_all_on_calendar`).

* `YearLiteral`: the ways in which a year is written.
* `OnCalendar`: the dates of the calendar, which has no year zero.
-/

namespace ScopedXml.Value

/-! ## Years -/

/-- Four digits, or more that do not begin with a zero. -/
structure YearDigits (cs : List Char) : Prop where
  digits : ∀ c ∈ cs, c.isDigit = true
  length : cs.length = 4 ∨ 4 < cs.length ∧ cs.head? ≠ some '0'

theorem yearDigits_iff {cs : List Char} :
    YearDigits cs ↔ cs.all Char.isDigit = true ∧
      (cs.length = 4 ∨ 4 < cs.length ∧ cs.head? ≠ some '0') := by
  rw [List.all_eq_true]
  exact ⟨fun ⟨hdigits, hlength⟩ => ⟨hdigits, hlength⟩, fun ⟨hdigits, hlength⟩ => ⟨hdigits, hlength⟩⟩

instance (cs : List Char) : Decidable (YearDigits cs) := decidable_of_iff' _ yearDigits_iff

/-- The text writes the year, which is negative behind a minus. -/
inductive YearLiteral : List Char → Int → Prop
  | positive {digits : List Char} : YearDigits digits → YearLiteral digits (numeral digits)
  | negative {digits : List Char} : YearDigits digits →
    YearLiteral ('-' :: digits) (-numeral digits)

/-- A year as a word of 64 bits knows it. -/
def knownYear (year : Int) : Option Int := if fitsWord 64 year then some year else none

/-- No minus begins the digits of a year. -/
theorem YearDigits.ne_minus {digits : List Char} (h : YearDigits digits) (rest body : List Char) :
    digits ++ rest ≠ '-' :: body := by
  cases digits with
  | nil => simpa using h.length
  | cons c cs =>
    intro heq
    obtain ⟨rfl, -⟩ := List.cons.inj heq
    exact absurd (h.digits '-' List.mem_cons_self) (by decide)

theorem year?_append {y rest : List Char} {year : Int} (hy : YearLiteral y year)
    (hrest : ∀ c ∈ rest.head?, c.isDigit = false) :
    year? (y ++ rest) = some (knownYear year, rest) := by
  cases hy with
  | positive h =>
    obtain ⟨htake, hdrop⟩ := takeWhile_digits_append h.digits hrest
    rw [year?, htake, hdrop, if_pos h.length, digitsValue_eq]
    · rfl
    · exact h.ne_minus rest
  | negative h =>
    obtain ⟨htake, hdrop⟩ := takeWhile_digits_append h.digits hrest
    rw [List.cons_append, year?, htake, hdrop, if_pos h.length, digitsValue_eq]
    rfl

theorem exists_of_year? {cs rest : List Char} {known : Option Int}
    (h : year? cs = some (known, rest)) :
    ∃ y year, YearLiteral y year ∧ cs = y ++ rest ∧ known = knownYear year := by
  unfold year? at h
  split at h
  · next negative body hbody =>
    rw [Option.ite_none_right_eq_some] at h
    obtain ⟨hlength, heq⟩ := h
    cases heq
    have hyear : YearDigits (body.takeWhile isDigit) :=
      ⟨fun c hc => List.mem_takeWhile_imp hc, hlength⟩
    rw [digitsValue_eq]
    split at hbody
    · cases hbody
      exact ⟨_, _, .negative hyear, by simp, rfl⟩
    · cases hbody
      exact ⟨_, _, .positive hyear, by simp, rfl⟩

theorem YearLiteral.unblank {y : List Char} {year : Int} (hy : YearLiteral y year) : Unblank y := by
  cases hy with
  | positive h => exact unblank_digits h.digits
  | negative h => exact (unblank_digits h.digits).cons (by decide)

/-! ## The calendar -/

/-- The date exists in the Gregorian calendar, where years are counted without a year zero. -/
def OnCalendar (year : Int) (month day : Nat) : Prop :=
  year ≠ 0 ∧ ∃ date : Std.Time.PlainDate,
    date.year.toInt = year ∧ date.month.val = month ∧ date.day.val = day

theorem isLeap_eq (year : Std.Time.Year.Offset) : year.isLeap = isLeap year.toInt := by
  rw [Std.Time.Year.Offset.isLeap, isLeap, Bool.eq_iff_iff]
  simp only [decide_eq_true_eq, Bool.and_eq_true, Bool.or_eq_true, beq_iff_eq, bne_iff_ne,
    ← Int.dvd_iff_tmod_eq_zero, ← Int.dvd_iff_emod_eq_zero, ne_eq]

/-- The days of a month are those of the calendar. -/
theorem days_eq (year : Std.Time.Year.Offset) (month : Std.Time.Month.Ordinal) {n : Nat}
    (hn : month.val = n) :
    (Std.Time.Month.Ordinal.days year.isLeap month).val = daysIn (some year.toInt) n := by
  rw [isLeap_eq, daysIn, Option.all_some]
  obtain ⟨m, hlow, hhigh⟩ := month
  generalize isLeap year.toInt = leap
  dsimp only at hn
  subst hn
  have hsmall : n ≤ 12 := by omega
  interval_cases n <;> cases leap <;> rfl

theorem onCalendar_iff {year : Int} {month day : Nat} :
    OnCalendar year month day ↔ year ≠ 0 ∧ isDay (some year) month day = true := by
  have hday : isDay (some year) month day = true ↔
      (1 ≤ month ∧ month ≤ 12) ∧ 1 ≤ day ∧ day ≤ daysIn (some year) month := by
    simp [isDay, isMonth, and_assoc]
  rw [OnCalendar, hday]
  refine and_congr_right fun _ => ?_
  constructor
  · rintro ⟨⟨y, m, d, hvalid⟩, rfl, hmonth, hday⟩
    have hlength := days_eq y m hmonth
    have hle : d.val ≤ (Std.Time.Month.Ordinal.days y.isLeap m).val := hvalid
    have hm := m.property
    have hd := d.property
    dsimp only at hmonth hday ⊢
    omega
  · rintro ⟨hmonth, hone, hle⟩
    have hlast : daysIn (some year) month ≤ 31 := by
      unfold daysIn
      split_ifs <;> omega
    have hlength := days_eq year ⟨month, by omega⟩ rfl
    refine ⟨⟨year, ⟨month, by omega⟩, ⟨day, by omega⟩, ?_⟩, rfl, rfl, rfl⟩
    change (day : Int) ≤ _
    rw [hlength]
    exact Int.ofNat_le.mpr hle

/-- Where the year is not known, February has as many days as it can have. -/
theorem isDay_none {month day : Nat} (year : Int) :
    isDay none month day = true ↔ isDay (some year) month day = true ∨ month = 2 ∧ day = 29 := by
  by_cases hmonth : month = 2
  · subst hmonth
    simp only [isDay, isMonth, daysIn, Option.all_none, Option.all_some]
    split_ifs <;> simp <;> omega
  · have hdays : daysIn none month = daysIn (some year) month := by
      simp only [daysIn, if_neg hmonth]
    rw [isDay, isDay, hdays]
    simp [hmonth]

/-! ## Values -/

theorem exists_of_monthDay? {cs rest : List Char} {month day : Nat}
    (h : monthDay? cs = some (month, day, rest)) :
    ∃ m d, TwoDigits m month ∧ TwoDigits d day ∧ cs = m ++ '-' :: (d ++ rest) := by
  simp only [monthDay?, Option.bind_eq_bind, Option.bind_eq_some_iff, Option.pure_def,
    Option.some.injEq, Prod.exists, Prod.mk.injEq] at h
  obtain ⟨_, _, hmonth, _, hhyphen, _, _, hday, rfl, rfl, rfl⟩ := h
  obtain ⟨m, hm, rfl⟩ := twoDigits?_eq_some_iff.mp hmonth
  obtain ⟨d, hd, rfl⟩ := twoDigits?_eq_some_iff.mp hday
  obtain rfl := behind?_eq_some_iff.mp hhyphen
  exact ⟨m, d, hm, hd, rfl⟩

/-- What a date comes down to when its year is read as a word. -/
theorem isDay_knownYear_iff {year : Int} {month day : Nat} :
    knownYear year ≠ some 0 ∧ isDay (knownYear year) month day = true ↔
      OnCalendar year month day ∨
        ¬ (-2 ^ 63 ≤ year ∧ year < 2 ^ 63) ∧ month = 2 ∧ day = 29 := by
  have hword : fitsWord 64 year = true ↔ -2 ^ 63 ≤ year ∧ year < 2 ^ 63 := fitsWord_iff
  rw [onCalendar_iff, ← hword]
  -- A year that no word holds is not zero, so that nothing is lost by not knowing it but February.
  by_cases hfits : fitsWord 64 year = true
  · simp [knownYear, hfits]
  · have hyear : year ≠ 0 := by
      rintro rfl
      exact hfits (by decide)
    simp [knownYear, hfits, isDay_none year, hyear]

section

variable {y m d : List Char} {year : Int} {month day : Nat} (hy : YearLiteral y year)
  (hm : TwoDigits m month) (hd : TwoDigits d day)
include hy hm hd

theorem date?_append (rest : List Char) :
    date? (y ++ '-' :: (m ++ '-' :: (d ++ rest))) =
      if knownYear year ≠ some 0 ∧ isDay (knownYear year) month day = true then some rest
      else none := by
  have hyear : year? (y ++ '-' :: (m ++ '-' :: (d ++ rest))) =
      some (knownYear year, '-' :: (m ++ '-' :: (d ++ rest))) := by
    refine year?_append hy ?_
    rintro c ⟨rfl⟩
    decide
  simp [date?, hyear, monthDay?, twoDigits?_append hm, twoDigits?_append hd]

omit hy hm hd in
/-- A date that is read stands in front of the rest, and would be read in front of any other. -/
theorem exists_of_date? {cs rest : List Char} (h : date? cs = some rest) :
    ∃ d, cs = d ++ rest ∧ ∀ rest', date? (d ++ rest') = some rest' := by
  simp only [date?, Option.bind_eq_bind, Option.bind_eq_some_iff, Prod.exists,
    Option.ite_none_right_eq_some, Option.some.injEq] at h
  obtain ⟨_, _, hyear, _, hhyphen, month, day, _, hmonthDay, hexists, rfl⟩ := h
  obtain ⟨y, year, hy, rfl, rfl⟩ := exists_of_year? hyear
  obtain rfl := behind?_eq_some_iff.mp hhyphen
  obtain ⟨m, d, hm, hd, rfl⟩ := exists_of_monthDay? hmonthDay
  refine ⟨y ++ '-' :: (m ++ '-' :: d), by simp, fun rest' => ?_⟩
  have hread := date?_append hy hm hd rest'
  rw [if_pos hexists] at hread
  simpa using hread

theorem unblank_date {rest : List Char} (hrest : Unblank rest) :
    Unblank (y ++ '-' :: (m ++ '-' :: (d ++ rest))) :=
  hy.unblank.append (.cons (by decide)
    (hm.unblank.append (.cons (by decide) (hd.unblank.append hrest))))

/-- A year, a month and a day in front of a time zone are accepted as a date if they are one, as far
as the year is known. -/
theorem accepts_date_iff {z : List Char} (hz : Zone z) :
    Accepts "date" (y ++ '-' :: (m ++ '-' :: (d ++ z))) ↔
      knownYear year ≠ some 0 ∧ isDay (knownYear year) month day = true := by
  rw [accepts_iff (rfl : Builtin.ofName? "date" = some ⟨"date", .date⟩)
    (unblank_date hy hm hd hz.unblank), Form.fits, isDate, date?_append hy hm hd]
  split
  · next hexists => simp [hexists, isZone_of_zone hz]
  · next hnone => simpa using hnone

/-- **Dates and the calendar.** A year, a month and a day in front of a time zone are accepted as a
date exactly if they are one of the calendar, or the 29th of February of a year that no word of 64
bits holds; and with any time of day the same dates are accepted. -/
theorem date_accepts_iff {z : List Char} (hz : Zone z) :
    (Accepts "date" (y ++ '-' :: (m ++ '-' :: (d ++ z))) ↔
        OnCalendar year month day ∨
          ¬ (-2 ^ 63 ≤ year ∧ year < 2 ^ 63) ∧ month = 2 ∧ day = 29) ∧
      ∀ t, TimeOfDay t →
        (Accepts "dateTime" (y ++ '-' :: (m ++ '-' :: (d ++ 'T' :: (t ++ z)))) ↔
          OnCalendar year month day ∨
            ¬ (-2 ^ 63 ≤ year ∧ year < 2 ^ 63) ∧ month = 2 ∧ day = 29) := by
  have hdate : Builtin.ofName? "date" = some ⟨"date", .date⟩ := rfl
  have hdateTime : Builtin.ofName? "dateTime" = some ⟨"dateTime", .dateTime⟩ := rfl
  simp only [← isDay_knownYear_iff]
  refine ⟨?_, fun t ht => ?_⟩
  · rw [accepts_iff hdate (unblank_date hy hm hd hz.unblank), Form.fits, isDate,
      date?_append hy hm hd]
    split
    · next hexists => simp [hexists, isZone_of_zone hz]
    · next hnone => simp [hnone]
  · have hunblank : Unblank ('T' :: (t ++ z)) := .cons (by decide) (ht.unblank.append hz.unblank)
    rw [accepts_iff hdateTime (unblank_date hy hm hd hunblank), Form.fits, isDateTime,
      date?_append hy hm hd]
    split
    · next hexists => simp [hexists, ht.clock?_append hz.head, isZone_of_zone hz]
    · next hnone => simp [hnone]

end

/-- A day of a year before the first, and its end in a time zone. -/
theorem date_accepts_iff_negative : OnCalendar (-44) 3 15 ∧
    Accepts "date" "-0044-03-15+01:00".toList ∧
    Accepts "dateTime" "-0044-03-15T24:00:00.00+01:00".toList := by
  have hyear : YearLiteral "-0044".toList (-44) :=
    .negative (by decide : YearDigits ['0', '0', '4', '4'])
  have hmonth : TwoDigits "03".toList 3 := by decide
  have hday : TwoDigits "15".toList 15 := by decide
  have hzone : Zone "+01:00".toList :=
    .offset (.inl rfl) (by decide : TwoDigits "01".toList 1) (by decide : TwoDigits "00".toList 0)
      (by decide)
  have hfraction : Fraction ['.', '0', '0'] := .digits (List.cons_ne_nil _ _) (by simp)
  have hclock : Clock "24:00:00.00".toList 24 0 0 ['.', '0', '0'] :=
    .mk (by decide : TwoDigits ['2', '4'] 24) (by decide : TwoDigits ['0', '0'] 0)
      (by decide : TwoDigits ['0', '0'] 0) hfraction
  have hend : TimeOfDay "24:00:00.00".toList :=
    ⟨24, 0, 0, ['.', '0', '0'], hclock, .inr ⟨rfl, rfl, rfl, by simp⟩⟩
  have hexists : OnCalendar (-44) 3 15 := onCalendar_iff.mpr (by decide)
  obtain ⟨hdate, hdateTime⟩ := date_accepts_iff hyear hmonth hday hzone
  exact ⟨hexists, hdate.mpr (.inl hexists), (hdateTime _ hend).mpr (.inl hexists)⟩

/-- The 29th of February is accepted in a year that is too long for a word and has no such day. -/
theorem not_all_on_calendar : ¬ ∀ (y m d z : List Char) (year : Int) (month day : Nat),
    YearLiteral y year → TwoDigits m month → TwoDigits d day → Zone z →
      (Accepts "date" (y ++ '-' :: (m ++ '-' :: (d ++ z))) ↔ OnCalendar year month day) := by
  intro hall
  have hyear : YearLiteral "99999999999999999999".toList 99999999999999999999 :=
    .positive (by decide : YearDigits "99999999999999999999".toList)
  have hmonth : TwoDigits "02".toList 2 := by decide
  have hday : TwoDigits "29".toList 29 := by decide
  have haccepted : Accepts "date" "99999999999999999999-02-29".toList := ⟨_, rfl, by decide⟩
  have hcalendar := (hall _ _ _ _ _ _ _ hyear hmonth hday .none).mp haccepted
  rw [onCalendar_iff] at hcalendar
  exact absurd hcalendar.2 (by decide)

end ScopedXml.Value
