import Mathlib
import ScopedXml.Proofs.Value.Fields

/-!
# The hierarchy of the built-in types

Every built-in type but `anySimpleType` restricts another one or lists the values of another one.
What a type accepts is accepted by all types above it, and a list is accepted if it has items and
each of them is accepted (`derived_accepts`).

* `BasedOn`: the hierarchy of XML Schema 1.0, one restriction at a time.
* `words_eq_splitOnP`: the items of a list are what stands between its blanks.
-/

namespace ScopedXml.Value

open Text

/-! ## The hierarchy -/

/-- The base of an integer type within the family. -/
def IntegerType.base? : IntegerType → Option IntegerType
  | integer => none
  | nonPositiveInteger => some integer
  | negativeInteger => some nonPositiveInteger
  | nonNegativeInteger => some integer
  | positiveInteger => some nonNegativeInteger
  | long => some integer
  | int => some long
  | short => some int
  | byte => some short
  | unsignedLong => some nonNegativeInteger
  | unsignedInt => some unsignedLong
  | unsignedShort => some unsignedInt
  | unsignedByte => some unsignedShort

/-- The types that restrict none but `anySimpleType`. -/
def primitives : List String :=
  ["string", "boolean", "decimal", "float", "double", "duration", "dateTime", "time", "date",
   "gYearMonth", "gYear", "gMonthDay", "gDay", "gMonth", "hexBinary", "base64Binary", "anyURI",
   "QName", "NOTATION"]

/-- The values of the first type are lists of values of the second. -/
inductive Lists : String → String → Prop
  | nameTokens : Lists "NMTOKENS" "NMTOKEN"
  | references : Lists "IDREFS" "IDREF"
  | entities : Lists "ENTITIES" "ENTITY"

/-- The first type is a restriction of the second. -/
inductive BasedOn : String → String → Prop
  | primitive {name : String} : name ∈ primitives → BasedOn name "anySimpleType"
  | list {name item : String} : Lists name item → BasedOn name "anySimpleType"
  | normalizedString : BasedOn "normalizedString" "string"
  | token : BasedOn "token" "normalizedString"
  | language : BasedOn "language" "token"
  | nameToken : BasedOn "NMTOKEN" "token"
  | name : BasedOn "Name" "token"
  | ncName : BasedOn "NCName" "Name"
  | id : BasedOn "ID" "NCName"
  | idref : BasedOn "IDREF" "NCName"
  | entity : BasedOn "ENTITY" "NCName"
  | integer : BasedOn "integer" "decimal"
  | within {t u : IntegerType} : t.base? = some u → BasedOn t.name u.name

/-! ## Restrictions -/

/-- Both types are known, and every value of the first is one of the second. -/
def Refines (derived base : String) : Prop :=
  ∃ d b, Builtin.ofName? derived = some d ∧ Builtin.ofName? base = some b ∧
    ∀ v, d.accepts v = true → b.accepts v = true

theorem Refines.trans {derived middle base : String} (h : Refines derived middle)
    (h' : Refines middle base) : Refines derived base := by
  obtain ⟨d, m, hd, hm, hdm⟩ := h
  obtain ⟨m', b, hm', hb, hmb⟩ := h'
  obtain rfl : m = m' := Option.some.inj (hm.symm.trans hm')
  exact ⟨d, b, hd, hb, fun v hv => hmb v (hdm v hv)⟩

theorem refines_of_fits {derived base : String} {f g : Form}
    (hd : Builtin.ofName? derived = some ⟨derived, f⟩)
    (hb : Builtin.ofName? base = some ⟨base, g⟩)
    (h : ∀ cs, f.fits cs = true → g.fits cs = true) : Refines derived base :=
  ⟨_, _, hd, hb, fun v hv => h (trimChars v.toList) hv⟩

/-- A type without any rule is refined by every other. -/
theorem refines_text {derived base : String} (hd : (Builtin.ofName? derived).isSome = true)
    (hb : Builtin.ofName? base = some ⟨base, .text⟩) : Refines derived base := by
  obtain ⟨d, hd⟩ := Option.isSome_iff_exists.mp hd
  exact ⟨d, _, hd, hb, fun _ _ => rfl⟩

theorem isName_of_isNcName {cs : List Char} (h : isNcName cs = true) : isName cs = true :=
  (Bool.and_eq_true_iff.mp h).1

namespace IntegerType

theorem exists_form (t : IntegerType) : ∃ f : Form,
    Builtin.ofName? t.name = some ⟨t.name, f⟩ ∧
      ∀ cs, f.fits cs = true ↔ ∃ n ∈ t.range, Writes cs n := by
  obtain ⟨b, htype, hfit, hrange⟩ := t.exists_bounds
  refine ⟨.integer b, htype, fun cs => ?_⟩
  rw [Form.fits, isIntegerWithin_iff hfit]
  simp only [hrange, and_comm]

theorem range_subset {t u : IntegerType} (h : t.base? = some u) : t.range ⊆ u.range := by
  cases t with
  | integer => cases h
  | nonPositiveInteger => cases h; exact Set.subset_univ _
  | negativeInteger => cases h; exact Set.Iic_subset_Iic.mpr (by decide)
  | nonNegativeInteger => cases h; exact Set.subset_univ _
  | positiveInteger => cases h; exact Set.Ici_subset_Ici.mpr (by decide)
  | long => cases h; exact Set.subset_univ _
  | int => cases h; exact Set.Ico_subset_Ico (by decide) (by decide)
  | short => cases h; exact Set.Ico_subset_Ico (by decide) (by decide)
  | byte => cases h; exact Set.Ico_subset_Ico (by decide) (by decide)
  | unsignedLong => cases h; exact Set.Ico_subset_Ici_self
  | unsignedInt => cases h; exact Set.Ico_subset_Ico (by decide) (by decide)
  | unsignedShort => cases h; exact Set.Ico_subset_Ico (by decide) (by decide)
  | unsignedByte => cases h; exact Set.Ico_subset_Ico (by decide) (by decide)

theorem refines_base {t u : IntegerType} (h : t.base? = some u) : Refines t.name u.name := by
  obtain ⟨f, ht, hf⟩ := t.exists_form
  obtain ⟨g, hu, hg⟩ := u.exists_form
  refine refines_of_fits ht hu fun cs hcs => ?_
  obtain ⟨n, hn, hwrites⟩ := (hf cs).mp hcs
  exact (hg cs).mpr ⟨n, range_subset h hn, hwrites⟩

end IntegerType

theorem isUnsignedDecimal_digits {digits : List Char} (hne : digits ≠ [])
    (hdigits : ∀ c ∈ digits, c.isDigit = true) : isUnsignedDecimal digits = true := by
  have hspan := @takeWhile_digits_append digits [] hdigits (by simp)
  rw [List.append_nil] at hspan
  rw [isUnsignedDecimal, hspan.1, hspan.2]
  simpa using hne

/-- What writes an integer is a decimal without a point. -/
theorem isDecimal_of_writes {cs : List Char} {n : Int} (h : Writes cs n) : isDecimal cs = true := by
  cases h with
  | unsigned hne hdigits =>
    rw [isDecimal, unsign_digits hdigits]
    exact isUnsignedDecimal_digits hne hdigits
  | plus hne hdigits => exact isUnsignedDecimal_digits hne hdigits
  | minus hne hdigits => exact isUnsignedDecimal_digits hne hdigits

theorem refines_decimal : Refines "integer" "decimal" := by
  obtain ⟨f, hinteger, hf⟩ := IntegerType.integer.exists_form
  have hdecimal : Builtin.ofName? "decimal" = some ⟨"decimal", .decimal⟩ := rfl
  refine refines_of_fits hinteger hdecimal fun cs hcs => ?_
  obtain ⟨n, -, hwrites⟩ := (hf cs).mp hcs
  exact isDecimal_of_writes hwrites

theorem refines_primitive {name : String} (h : name ∈ primitives) :
    Refines name "anySimpleType" := by
  have hknown : primitives.all (fun n => (Builtin.ofName? n).isSome) = true := by decide
  exact refines_text (List.all_eq_true.mp hknown name h) rfl

/-- One restriction: no type accepts what its base refuses. -/
theorem BasedOn.refines {derived base : String} (h : BasedOn derived base) :
    Refines derived base := by
  cases h with
  | primitive hprimitive => exact refines_primitive hprimitive
  | list hlist => cases hlist <;> exact refines_text rfl rfl
  | normalizedString => exact refines_text rfl rfl
  | token => exact refines_text rfl rfl
  | language => exact refines_text rfl rfl
  | nameToken => exact refines_text rfl rfl
  | name => exact refines_text rfl rfl
  | ncName => exact refines_of_fits rfl rfl fun _ => isName_of_isNcName
  | id => exact refines_of_fits rfl rfl fun _ h => h
  | idref => exact refines_of_fits rfl rfl fun _ h => h
  | entity => exact refines_of_fits rfl rfl fun _ h => h
  | integer => exact refines_decimal
  | within hbase => exact IntegerType.refines_base hbase

/-- Any number of restrictions. -/
theorem refines_of_transGen {derived base : String} (h : Relation.TransGen BasedOn derived base) :
    Refines derived base := by
  induction h with
  | single hstep => exact hstep.refines
  | tail _ hstep ih => exact ih.trans hstep.refines

/-! ## Lists -/

theorem modifyHead_nil_append (parts : List (List Char)) :
    parts.modifyHead ([] ++ ·) = parts := by
  cases parts <;> rfl

theorem wordsFrom_eq_splitOnP (run cs : List Char) :
    wordsFrom run cs =
      ((cs.splitOnP isBlank).modifyHead (run ++ ·)).filter (!·.isEmpty) := by
  induction cs generalizing run with
  | nil => cases run <;> simp [wordsFrom]
  | cons c cs ih =>
    rw [wordsFrom, List.splitOnP_cons_eq_if_modifyHead]
    split
    · rw [ih, modifyHead_nil_append]
      cases run <;> simp
    · rw [ih, List.modifyHead_modifyHead]
      simp [Function.comp_def]

theorem words_eq_splitOnP (cs : List Char) :
    words cs = (cs.splitOnP isBlank).filter (!·.isEmpty) := by
  rw [words, wordsFrom_eq_splitOnP, modifyHead_nil_append]

theorem words_append_cons (cs ds : List Char) {c : Char} (hc : isBlank c = true) :
    words (cs ++ c :: ds) = words cs ++ words ds := by
  rw [words_eq_splitOnP, List.splitOnP_append_cons cs ds hc, List.filter_append,
    ← words_eq_splitOnP, ← words_eq_splitOnP]

theorem words_cons (cs : List Char) {c : Char} (hc : isBlank c = true) :
    words (c :: cs) = words cs := words_append_cons [] cs hc

/-- Blanks in front of a text are no part of its words. -/
theorem words_dropWhile (cs : List Char) : words (cs.dropWhile isBlank) = words cs := by
  induction cs with
  | nil => rfl
  | cons c cs ih =>
    rw [List.dropWhile_cons]
    split
    · next hc => rw [ih, words_cons cs hc]
    · rfl

theorem words_rdropWhile (cs : List Char) : words (cs.rdropWhile isBlank) = words cs := by
  induction cs using List.reverseRecOn with
  | nil => rfl
  | append_singleton cs c ih =>
    rw [List.rdropWhile_concat]
    split
    · next hc =>
      rw [ih, words_append_cons cs [] hc]
      exact (List.append_nil _).symm
    · rfl

theorem words_trimChars (cs : List Char) : words (trimChars cs) = words cs :=
  (words_rdropWhile _).trans (words_dropWhile cs)

theorem unblank_of_mem_splitOnP {cs w : List Char} (h : w ∈ cs.splitOnP isBlank) : Unblank w := by
  induction cs generalizing w with
  | nil =>
    rw [List.splitOnP_nil, List.mem_singleton] at h
    rw [h]
    exact unblank_nil
  | cons c cs ih =>
    rw [List.splitOnP_cons_eq_if_modifyHead] at h
    split at h
    · rcases List.mem_cons.mp h with rfl | h
      · exact unblank_nil
      · exact ih h
    · next hc =>
      obtain ⟨first, others, hsplit⟩ :=
        List.exists_cons_of_ne_nil (List.splitOnP_ne_nil isBlank cs)
      rw [hsplit, List.modifyHead_cons] at h
      rcases List.mem_cons.mp h with rfl | h
      · exact (ih (by rw [hsplit]; exact List.mem_cons_self)).cons (Bool.eq_false_iff.mpr hc)
      · exact ih (by rw [hsplit]; exact List.mem_cons_of_mem _ h)

/-- What stands between the blanks of a value. -/
def items (value : String) : List String :=
  ((value.toList.splitOnP isBlank).filter (!·.isEmpty)).map String.ofList

/-- A list has items, and each of them is a value of the type that it lists. -/
theorem isListOf_iff {f : Form} {name : String} {value : String} :
    isListOf f.fits (trimChars value.toList) = true ↔
      items value ≠ [] ∧ ∀ item ∈ items value, (Builtin.mk name f).accepts item = true := by
  have hitem : ∀ w ∈ words value.toList,
      (Builtin.mk name f).accepts (String.ofList w) = f.fits w := by
    intro w hw
    rw [words_eq_splitOnP] at hw
    have hunblank := unblank_of_mem_splitOnP (List.mem_of_mem_filter hw)
    rw [Builtin.accepts, String.toList_ofList, hunblank.trimChars]
  have hitems : items value = (words value.toList).map String.ofList := by
    rw [items, words_eq_splitOnP]
  rw [isListOf, words_trimChars, hitems]
  simp +contextual [hitem]

/-- **The hierarchy.** What a type accepts is accepted by every type above it; and a list type
accepts a value exactly if it has items and the type that is listed accepts each of them. -/
theorem derived_accepts :
    (∀ derived base, Relation.TransGen BasedOn derived base →
      ∃ d b, Builtin.ofName? derived = some d ∧ Builtin.ofName? base = some b ∧
        ∀ v, d.accepts v = true → b.accepts v = true) ∧
    ∀ list item, Lists list item →
      ∃ l i, Builtin.ofName? list = some l ∧ Builtin.ofName? item = some i ∧
        ∀ v, l.accepts v = true ↔ items v ≠ [] ∧ ∀ x ∈ items v, i.accepts x = true := by
  refine ⟨fun derived base h => refines_of_transGen h, fun list item h => ?_⟩
  cases h with
  | nameTokens => exact ⟨_, _, rfl, rfl, fun v => isListOf_iff (f := .nameToken)⟩
  | references => exact ⟨_, _, rfl, rfl, fun v => isListOf_iff (f := .ncName)⟩
  | entities => exact ⟨_, _, rfl, rfl, fun v => isListOf_iff (f := .ncName)⟩

/-- A byte is a decimal five steps up, and references are listed with any blanks between them. -/
theorem derived_accepts_byte : Relation.TransGen BasedOn "byte" "decimal" ∧
    (∃ type, Builtin.ofName? "decimal" = some type ∧ type.accepts " +0127 " = true) ∧
    Lists "IDREFS" "IDREF" ∧ items " _p1\t\nb-2" = ["_p1", "b-2"] ∧
    ∃ type, Builtin.ofName? "IDREFS" = some type ∧ type.accepts " _p1\t\nb-2" = true := by
  have hchain : Relation.TransGen BasedOn "byte" "decimal" :=
    .tail (.tail (.tail (.tail (.single (.within (t := .byte) rfl)) (.within (t := .short) rfl))
      (.within (t := .int) rfl)) (.within (t := .long) rfl)) .integer
  have hitems : items " _p1\t\nb-2" = ["_p1", "b-2"] := by decide +kernel
  obtain ⟨hderived, hlists⟩ := derived_accepts
  obtain ⟨byte, decimal, hbyte, hdecimal, haccepts⟩ := hderived _ _ hchain
  obtain ⟨idrefs, idref, hidrefs, hidref, hlisted⟩ := hlists _ _ .references
  cases hbyte
  cases hidref
  refine ⟨hchain, ⟨decimal, hdecimal, haccepts _ (by decide +kernel)⟩, .references, hitems,
    idrefs, hidrefs, (hlisted _).mpr ⟨by simp [hitems], ?_⟩⟩
  rw [hitems]
  decide +kernel

end ScopedXml.Value
