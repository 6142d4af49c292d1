import Mathlib
import ScopedXml.Proofs.Value.Dates

/-!
# Times of day

A time of day is accepted if its hour, minute and second are in range, or if they are `24:00:00`,
the end of the day (`time_accepts_iff`). Behind a date and a `T` it counts the same. The fraction of
the second does not count, so that a time behind the end of the day is accepted as well
(`not_all_end_of_day`).
-/

namespace ScopedXml.Value

section

variable {t f z : List Char} {hour minute second : Nat} (ht : Clock t hour minute second f)
  (hz : Zone z)
include ht hz

theorem any_isZone_clock? :
    (clock? (t ++ z)).any isZone = isClock hour minute second := by
  rw [clock?_append ht hz.head]
  cases isClock hour minute second with
  | false => rfl
  | true => exact isZone_of_zone hz

/-- **The end of the day.** Hour, minute and second, with any fraction, in front of a time zone are
accepted as a time exactly if they are in range or `24:00:00`; and behind a date exactly if, besides,
the date is accepted. -/
theorem time_accepts_iff :
    (Accepts "time" (t ++ z) ↔
        hour ≤ 23 ∧ minute ≤ 59 ∧ second ≤ 59 ∨ hour = 24 ∧ minute = 0 ∧ second = 0) ∧
      ∀ (y m d : List Char) (year : Int) (month day : Nat), YearLiteral y year →
        TwoDigits m month → TwoDigits d day →
          (Accepts "dateTime" (y ++ '-' :: (m ++ '-' :: (d ++ 'T' :: (t ++ z)))) ↔
            Accepts "date" (y ++ '-' :: (m ++ '-' :: d)) ∧
              (hour ≤ 23 ∧ minute ≤ 59 ∧ second ≤ 59 ∨ hour = 24 ∧ minute = 0 ∧ second = 0)) := by
  have hunblank : Unblank (t ++ z) := ht.unblank.append hz.unblank
  refine ⟨?_, fun y m d year month day hy hm hd => ?_⟩
  · rw [accepts_iff (rfl : Builtin.ofName? "time" = some ⟨"time", .time⟩) hunblank, Form.fits,
      isTime, any_isZone_clock? ht hz, isClock_iff]
  · have hdate := accepts_date_iff hy hm hd .none
    rw [List.append_nil] at hdate
    rw [accepts_iff (rfl : Builtin.ofName? "dateTime" = some ⟨"dateTime", .dateTime⟩)
      (unblank_date hy hm hd (hunblank.cons (by decide))), Form.fits, isDateTime,
      date?_append hy hm hd, hdate, ← isClock_iff, ← any_isZone_clock? ht hz]
    split
    · next hexists => simp [hexists]
    · next hnone => simp [hnone]

end

/-- The end of a leap day, with three digits of a fraction. -/
theorem time_accepts_iff_end : Accepts "time" "24:00:00.000-05:00".toList ∧
    Accepts "dateTime" "2024-02-29T24:00:00.000-05:00".toList := by
  have hfraction : Fraction ['.', '0', '0', '0'] := .digits (List.cons_ne_nil _ _) (by simp)
  have hclock : Clock "24:00:00.000".toList 24 0 0 ['.', '0', '0', '0'] :=
    .mk (by decide : TwoDigits ['2', '4'] 24) (by decide : TwoDigits ['0', '0'] 0)
      (by decide : TwoDigits ['0', '0'] 0) hfraction
  have hzone : Zone "-05:00".toList :=
    .offset (.inr rfl) (by decide : TwoDigits "05".toList 5) (by decide : TwoDigits "00".toList 0)
      (by decide)
  have hyear : YearLiteral "2024".toList 2024 := .positive (by decide : YearDigits "2024".toList)
  have hmonth : TwoDigits "02".toList 2 := by decide
  have hday : TwoDigits "29".toList 29 := by decide
  have hdate : Accepts "date" "2024-02-29".toList := ⟨_, rfl, by decide⟩
  obtain ⟨htime, hdateTime⟩ := time_accepts_iff hclock hzone
  have hrange : 24 ≤ 23 ∧ 0 ≤ 59 ∧ 0 ≤ 59 ∨ 24 = 24 ∧ 0 = 0 ∧ 0 = 0 := .inr ⟨rfl, rfl, rfl⟩
  exact ⟨htime.mpr hrange,
    (hdateTime _ _ _ _ _ _ hyear hmonth hday).mpr ⟨hdate, hrange⟩⟩

/-- Half a second behind the end of the day is accepted, though the day is over. -/
theorem not_all_end_of_day : ¬ ∀ (t f z : List Char) (hour minute second : Nat),
    Clock t hour minute second f → Zone z →
      (Accepts "time" (t ++ z) ↔ hour ≤ 23 ∧ minute ≤ 59 ∧ second ≤ 59 ∨
        hour = 24 ∧ minute = 0 ∧ second = 0 ∧ ∀ c ∈ f, c = '.' ∨ c = '0') := by
  intro hall
  have hfraction : Fraction ['.', '5'] := .digits (List.cons_ne_nil _ _) (by simp)
  have hclock : Clock "24:00:00.5".toList 24 0 0 ['.', '5'] :=
    .mk (by decide : TwoDigits ['2', '4'] 24) (by decide : TwoDigits ['0', '0'] 0)
      (by decide : TwoDigits ['0', '0'] 0) hfraction
  have haccepted : Accepts "time" "24:00:00.5".toList := ⟨_, rfl, by decide⟩
  rcases (hall _ _ _ _ _ _ hclock .none).mp haccepted with ⟨hhour, -⟩ | ⟨-, -, -, hzero⟩
  · exact absurd hhour (by decide)
  · exact absurd (hzero '5' (by simp)) (by decide)

end ScopedXml.Value
