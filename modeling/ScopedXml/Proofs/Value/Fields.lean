import Mathlib
import ScopedXml.Proofs.Value.Numerals

/-!
# Parts of dates and times

What stands in a date or a time, said without the readers that take it apart: two digits
(`TwoDigits`), a time zone (`Zone`), and a time of day (`TimeOfDay`), which ends at `24:00:00`. Each
reader takes its part off the front of whatever follows it (`twoDigits?_append`, `clock?_append`),
and takes nothing else (`twoDigits?_eq_some_iff`, `zone_of_isZone`).
-/

namespace ScopedXml.Value

/-! ## Blanks -/

/-- The built-in type of this name accepts a text. -/
def Accepts (name : String) (cs : List Char) : Prop :=
  ∃ type, Builtin.ofName? name = some type ∧ type.accepts (String.ofList cs) = true

/-- There is no blank at either end. -/
def Trimmed (cs : List Char) : Prop :=
  (∀ c ∈ cs.head?, Text.isBlank c = false) ∧ ∀ c ∈ cs.getLast?, Text.isBlank c = false

theorem Trimmed.trimChars {cs : List Char} (h : Trimmed cs) : Text.trimChars cs = cs := by
  obtain ⟨hhead, hlast⟩ := h
  have hfront : cs.dropWhile Text.isBlank = cs := by
    cases cs with
    | nil => rfl
    | cons c cs => simp [hhead c rfl]
  have hback : cs.rdropWhile Text.isBlank = cs := by
    rw [List.rdropWhile_eq_self_iff]
    intro hne
    simp [hlast _ (List.getLast?_eq_some_getLast hne)]
  rw [Text.trimChars, hfront]
  exact hback

theorem Trimmed.join {cs ds : List Char} (hcs : Trimmed cs) (hds : Trimmed ds) {c : Char}
    (hc : Text.isBlank c = false) : Trimmed (cs ++ c :: ds) := by
  constructor
  · cases cs with
    | nil => simpa using hc
    | cons b cs => simpa using hcs.1
  · rw [List.getLast?_append, List.getLast?_cons]
    cases hlast : ds.getLast? with
    | none => simpa using hc
    | some b => simpa using hds.2 b hlast

theorem Trimmed.accepts_iff {name : String} {form : Form}
    (hname : Builtin.ofName? name = some ⟨name, form⟩) {cs : List Char} (hcs : Trimmed cs) :
    Accepts name cs ↔ form.fits cs = true := by
  simp only [Accepts, hname, Option.some.injEq, exists_eq_left', Builtin.accepts,
    String.toList_ofList, hcs.trimChars]

/-- There is no blank in the text. -/
def Unblank (cs : List Char) : Prop := ∀ c ∈ cs, Text.isBlank c = false

theorem unblank_iff {cs : List Char} : Unblank cs ↔ cs.all (!Text.isBlank ·) = true := by
  simp [Unblank]

instance (cs : List Char) : Decidable (Unblank cs) := decidable_of_iff' _ unblank_iff

theorem Unblank.append {cs ds : List Char} (hcs : Unblank cs) (hds : Unblank ds) :
    Unblank (cs ++ ds) :=
  List.forall_mem_append.mpr ⟨hcs, hds⟩

theorem Unblank.cons {c : Char} {cs : List Char} (hc : Text.isBlank c = false) (hcs : Unblank cs) :
    Unblank (c :: cs) :=
  List.forall_mem_cons.mpr ⟨hc, hcs⟩

theorem unblank_nil : Unblank [] := List.forall_mem_nil _

theorem unblank_digits {cs : List Char} (hdigits : ∀ c ∈ cs, c.isDigit = true) : Unblank cs := by
  intro c hc
  obtain ⟨hlow, hhigh⟩ : 48 ≤ c.toNat ∧ c.toNat ≤ 57 := Char.isDigit_iff_toNat.mp (hdigits c hc)
  rw [Bool.eq_false_iff]
  intro hblank
  simp only [Text.isBlank, Bool.or_eq_true, Bool.and_eq_true, decide_eq_true_eq,
    beq_iff_eq] at hblank
  omega

theorem Unblank.trimmed {cs : List Char} (h : Unblank cs) : Trimmed cs :=
  ⟨fun c hc => h c (List.mem_of_mem_head? hc), fun c hc => h c (List.mem_of_mem_getLast? hc)⟩

theorem Unblank.trimChars {cs : List Char} (hcs : Unblank cs) : Text.trimChars cs = cs :=
  hcs.trimmed.trimChars

/-- A text without blanks is accepted as it stands. -/
theorem accepts_iff {name : String} {form : Form}
    (hname : Builtin.ofName? name = some ⟨name, form⟩) {cs : List Char} (hcs : Unblank cs) :
    Accepts name cs ↔ form.fits cs = true :=
  hcs.trimmed.accepts_iff hname

/-! ## Runs of digits -/

theorem takeWhile_digits_append {digits rest : List Char}
    (hdigits : ∀ c ∈ digits, c.isDigit = true) (hrest : ∀ c ∈ rest.head?, c.isDigit = false) :
    (digits ++ rest).takeWhile isDigit = digits ∧ (digits ++ rest).dropWhile isDigit = rest := by
  have hdigits' : ∀ c ∈ digits, isDigit c = true := hdigits
  have hnone : rest.takeWhile isDigit = [] ∧ rest.dropWhile isDigit = rest := by
    cases rest with
    | nil => exact ⟨rfl, rfl⟩
    | cons c rest =>
      have hc : isDigit c = false := hrest c rfl
      simp [hc]
  rw [List.takeWhile_append_of_pos hdigits', List.dropWhile_append_of_pos hdigits', hnone.1,
    hnone.2, List.append_nil]
  exact ⟨rfl, rfl⟩

/-! ## Two digits -/

/-- Two digits that write the number. -/
structure TwoDigits (cs : List Char) (n : Nat) : Prop where
  length : cs.length = 2
  digits : ∀ c ∈ cs, c.isDigit = true
  value : numeral cs = n

theorem twoDigits_iff {cs : List Char} {n : Nat} :
    TwoDigits cs n ↔ cs.length = 2 ∧ cs.all Char.isDigit = true ∧ numeral cs = n := by
  rw [List.all_eq_true]
  exact ⟨fun ⟨hlength, hdigits, hvalue⟩ => ⟨hlength, hdigits, hvalue⟩,
    fun ⟨hlength, hdigits, hvalue⟩ => ⟨hlength, hdigits, hvalue⟩⟩

instance (cs : List Char) (n : Nat) : Decidable (TwoDigits cs n) :=
  decidable_of_iff' _ twoDigits_iff

theorem twoDigits_pair {a b : Char} (ha : isDigit a = true) (hb : isDigit b = true) :
    TwoDigits [a, b] (digitsValue [a, b]) :=
  ⟨rfl, by simpa using ⟨ha, hb⟩, (digitsValue_eq _).symm⟩

theorem TwoDigits.unblank {cs : List Char} {n : Nat} (h : TwoDigits cs n) : Unblank cs :=
  unblank_digits h.digits

theorem twoDigits?_append {cs : List Char} {n : Nat} (h : TwoDigits cs n) (rest : List Char) :
    twoDigits? (cs ++ rest) = some (n, rest) := by
  obtain ⟨hlength, hdigits, rfl⟩ := h
  obtain ⟨a, b, rfl⟩ := List.length_eq_two.mp hlength
  have ha : isDigit a = true := hdigits a (by simp)
  have hb : isDigit b = true := hdigits b (by simp)
  simp [twoDigits?, ha, hb, digitsValue_eq]

theorem twoDigits?_eq_some_iff {cs rest : List Char} {n : Nat} :
    twoDigits? cs = some (n, rest) ↔ ∃ ds, TwoDigits ds n ∧ cs = ds ++ rest := by
  constructor
  · intro h
    unfold twoDigits? at h
    split at h
    · next a b cs =>
      rw [Option.ite_none_right_eq_some, Bool.and_eq_true] at h
      obtain ⟨⟨ha, hb⟩, heq⟩ := h
      cases heq
      exact ⟨[a, b], twoDigits_pair ha hb, rfl⟩
    · cases h
  · rintro ⟨ds, hds, rfl⟩
    exact twoDigits?_append hds rest

@[simp]
theorem behind?_cons (c : Char) (rest : List Char) : behind? c (c :: rest) = some rest := if_pos rfl

theorem behind?_eq_some_iff {c : Char} {cs rest : List Char} :
    behind? c cs = some rest ↔ cs = c :: rest := by
  cases cs with
  | nil => simp [behind?]
  | cons d cs => simp [behind?]

/-! ## Time zones -/

/-- No time zone, `Z`, or an offset of up to fourteen hours. -/
inductive Zone : List Char → Prop
  | none : Zone []
  | utc : Zone ['Z']
  | offset {sign : Char} {h m : List Char} {hours minutes : Nat} : sign = '+' ∨ sign = '-' →
    TwoDigits h hours → TwoDigits m minutes →
    hours ≤ 13 ∧ minutes ≤ 59 ∨ hours = 14 ∧ minutes = 0 → Zone (sign :: (h ++ ':' :: m))

theorem isZone_of_zone {z : List Char} (h : Zone z) : isZone z = true := by
  cases h with
  | none => rfl
  | utc => rfl
  | @offset sign h m hours minutes hsign hh hm hrange =>
    obtain ⟨hlength, hdigits, rfl⟩ := hh
    obtain ⟨hlength', hdigits', rfl⟩ := hm
    obtain ⟨a, b, rfl⟩ := List.length_eq_two.mp hlength
    obtain ⟨c, d, rfl⟩ := List.length_eq_two.mp hlength'
    simp only [List.forall_mem_cons] at hdigits hdigits'
    simpa [isZone, isDigit, hdigits, hdigits', hsign, digitsValue_eq] using hrange

theorem zone_of_isZone {z : List Char} (h : isZone z = true) : Zone z := by
  unfold isZone at h
  split at h
  · exact .none
  · exact .utc
  · next sign a b c d =>
    simp only [Bool.and_eq_true, Bool.or_eq_true, beq_iff_eq, decide_eq_true_eq] at h
    obtain ⟨⟨⟨⟨⟨hsign, ha⟩, hb⟩, hc⟩, hd⟩, hrange⟩ := h
    exact .offset hsign (twoDigits_pair ha hb) (twoDigits_pair hc hd) hrange
  · cases h

theorem Zone.unblank {z : List Char} (h : Zone z) : Unblank z := by
  cases h with
  | none => exact unblank_nil
  | utc => exact unblank_nil.cons (by decide)
  | offset hsign hh hm _ =>
    refine .cons ?_ (hh.unblank.append (hm.unblank.cons (by decide)))
    rcases hsign with rfl | rfl <;> decide

/-- A time zone goes on neither with a digit nor with a point. -/
theorem Zone.head {z : List Char} (h : Zone z) : ∀ c ∈ z.head?, c.isDigit = false ∧ c ≠ '.' := by
  cases h with
  | none => simp
  | utc =>
    rintro c ⟨rfl⟩
    decide
  | offset hsign _ _ _ =>
    rintro c ⟨rfl⟩
    rcases hsign with rfl | rfl <;> decide

/-! ## Times of day -/

/-- A point and digits, or nothing. -/
inductive Fraction : List Char → Prop
  | none : Fraction []
  | digits {ds : List Char} : ds ≠ [] → (∀ c ∈ ds, c.isDigit = true) → Fraction ('.' :: ds)

theorem fraction?_append {f rest : List Char} (hf : Fraction f)
    (hrest : ∀ c ∈ rest.head?, c.isDigit = false ∧ c ≠ '.') :
    fraction? (f ++ rest) = some rest := by
  cases hf with
  | none =>
    rw [List.nil_append]
    unfold fraction?
    split
    · next cs => exact absurd rfl (hrest '.' rfl).2
    · rfl
  | digits hne hdigits =>
    obtain ⟨htake, hdrop⟩ := takeWhile_digits_append hdigits fun c hc => (hrest c hc).1
    simp [fraction?, htake, hdrop, hne]

theorem Fraction.unblank {f : List Char} (hf : Fraction f) : Unblank f := by
  cases hf with
  | none => exact unblank_nil
  | digits _ hdigits => exact (unblank_digits hdigits).cons (by decide)

/-- Hour, minute and second, which may have a fraction. -/
inductive Clock : List Char → Nat → Nat → Nat → List Char → Prop
  | mk {h m s f : List Char} {hour minute second : Nat} : TwoDigits h hour → TwoDigits m minute →
    TwoDigits s second → Fraction f →
    Clock (h ++ ':' :: (m ++ ':' :: (s ++ f))) hour minute second f

theorem clock?_append {t f rest : List Char} {hour minute second : Nat}
    (ht : Clock t hour minute second f)
    (hrest : ∀ c ∈ rest.head?, c.isDigit = false ∧ c ≠ '.') :
    clock? (t ++ rest) = if isClock hour minute second then some rest else none := by
  obtain ⟨hh, hm, hs, hf⟩ := ht
  simp [clock?, twoDigits?_append hh, twoDigits?_append hm, twoDigits?_append hs,
    fraction?_append hf hrest]

theorem Clock.unblank {t f : List Char} {hour minute second : Nat}
    (ht : Clock t hour minute second f) : Unblank t := by
  obtain ⟨hh, hm, hs, hf⟩ := ht
  exact hh.unblank.append (.cons (by decide)
    (hm.unblank.append (.cons (by decide) (hs.unblank.append hf.unblank))))

/-- Hour, minute and second are in range, or end the day. -/
theorem isClock_iff {hour minute second : Nat} :
    isClock hour minute second = true ↔
      hour ≤ 23 ∧ minute ≤ 59 ∧ second ≤ 59 ∨ hour = 24 ∧ minute = 0 ∧ second = 0 := by
  unfold isClock
  split
  · next hend =>
    rw [beq_iff_eq]
    omega
  · next hinside =>
    simp only [Bool.and_eq_true, decide_eq_true_eq]
    omega

/-- A time of day: an hour, a minute and a second that exist, or the end of the day. -/
def TimeOfDay (t : List Char) : Prop :=
  ∃ hour minute second f, Clock t hour minute second f ∧
    (hour ≤ 23 ∧ minute ≤ 59 ∧ second ≤ 59 ∨
      hour = 24 ∧ minute = 0 ∧ second = 0 ∧ ∀ c ∈ f, c = '.' ∨ c = '0')

theorem TimeOfDay.clock?_append {t rest : List Char} (ht : TimeOfDay t)
    (hrest : ∀ c ∈ rest.head?, c.isDigit = false ∧ c ≠ '.') : clock? (t ++ rest) = some rest := by
  obtain ⟨hour, minute, second, f, hclock, hrange⟩ := ht
  rw [Value.clock?_append hclock hrest, if_pos]
  rcases hrange with hinside | ⟨hhour, hminute, hsecond, -⟩
  · exact isClock_iff.mpr (.inl hinside)
  · exact isClock_iff.mpr (.inr ⟨hhour, hminute, hsecond⟩)

theorem TimeOfDay.unblank {t : List Char} (ht : TimeOfDay t) : Unblank t := by
  obtain ⟨hour, minute, second, f, hclock, -⟩ := ht
  exact hclock.unblank

end ScopedXml.Value
