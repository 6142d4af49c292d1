import Mathlib.Data.List.TakeWhile
import ScopedXml.Input
import ScopedXml.Proofs.Text.Utf16

/-!
# Labels of encodings

The encoding in an XML declaration is looked up twice: by the lexer, which takes the bytes of the
label one by one, and by the reader, which decodes them as UTF-8 and trims all Unicode blanks. What
the lexer knows means the same to the reader (`Input.charset_of_ofLabelBytes?`).
-/

namespace ScopedXml

open Text

namespace Text.Charset

/-- The blanks that may stand around a label. -/
def isLabelBlank (c : Char) : Bool := c == ' ' || c == '\t' || c == '\n' || c == '\x0c' || c == '\r'

/-- A label without the blanks around it. -/
def stripLabel (cs : List Char) : List Char :=
  ((cs.dropWhile isLabelBlank).reverse.dropWhile isLabelBlank).reverse

theorem ofLabel?_eq (label : String) :
    ofLabel? label = (labels.find? (·.2.contains
      (String.ofList ((stripLabel label.toList).map Char.toLower)))).map (·.1) := rfl

theorem labels_plain : ∀ entry ∈ labels, ∀ key ∈ entry.2, ∀ c ∈ key.toList,
    c.toNat < 128 ∧ isBlank c = false := by
  have hall : (labels.all fun entry => entry.2.all fun key => key.toList.all fun c =>
      decide (c.toNat < 128) && !isBlank c) = true := by
    decide +kernel
  intro entry hentry key hkey c hc
  have hplain := List.all_eq_true.mp
    (List.all_eq_true.mp (List.all_eq_true.mp hall entry hentry) key hkey) c hc
  simpa using hplain

theorem isBlank_of_isLabelBlank {c : Char} (h : isLabelBlank c = true) :
    c.toNat < 128 ∧ isBlank c = true := by
  simp only [isLabelBlank, Bool.or_eq_true, beq_iff_eq] at h
  rcases h with (((rfl | rfl) | rfl) | rfl) | rfl <;> decide

/-- A character that is plain in lower case is plain. -/
theorem plain_of_toLower {c : Char} (h : c.toLower.toNat < 128 ∧ isBlank c.toLower = false) :
    c.toNat < 128 ∧ isBlank c = false := by
  unfold Char.toLower at h
  split at h
  · next hupper =>
    obtain ⟨hlow, hhigh⟩ : 65 ≤ c.toNat ∧ c.toNat ≤ 90 := hupper
    refine ⟨by omega, ?_⟩
    rw [Bool.eq_false_iff]
    intro hblank
    simp only [isBlank, Bool.or_eq_true, Bool.and_eq_true, decide_eq_true_eq,
      beq_iff_eq] at hblank
    omega
  · exact h

theorem plain_of_ofLabel? {label : String} {charset : Charset} (h : ofLabel? label = some charset) :
    ∀ c ∈ stripLabel label.toList, c.toNat < 128 ∧ isBlank c = false := by
  rw [ofLabel?_eq] at h
  obtain ⟨entry, hfind, -⟩ := Option.map_eq_some_iff.mp h
  have hfound := List.find?_some hfind
  have hkey := List.contains_iff_mem.mp hfound
  intro c hc
  apply plain_of_toLower
  apply labels_plain entry (List.mem_of_find?_eq_some hfind) _ hkey
  simpa using List.mem_map_of_mem hc

/-! ## Stripping -/

theorem strip_append {p : Char → Bool} (cs : List Char) :
    ∃ front back, cs = front ++ ((cs.dropWhile p).reverse.dropWhile p).reverse ++ back ∧
      ∀ c ∈ front ++ back, p c = true := by
  refine ⟨cs.takeWhile p, ((cs.dropWhile p).reverse.takeWhile p).reverse, ?_, fun c hc => ?_⟩
  · rw [List.append_assoc, ← List.reverse_append, List.takeWhile_append_dropWhile,
      List.reverse_reverse, List.takeWhile_append_dropWhile]
  · rcases List.mem_append.mp hc with hc | hc
    · exact List.all_eq_true.mp List.all_takeWhile c hc
    · exact List.all_eq_true.mp List.all_takeWhile c (List.mem_reverse.mp hc)

theorem dropWhile_append_core {p : Char → Bool} {front core back : List Char}
    (hfront : ∀ c ∈ front, p c = true) (hcore : ∀ c ∈ core, p c = false) (hne : core ≠ []) :
    (front ++ (core ++ back)).dropWhile p = core ++ back := by
  rw [List.dropWhile_append_of_pos hfront]
  cases core with
  | nil => exact absurd rfl hne
  | cons c core =>
    have hc : ¬ p c = true := by simp [hcore c (List.mem_cons_self ..)]
    rw [List.cons_append, List.dropWhile_cons_of_neg hc]

/-- What has no blank in it is stripped of the blanks around it and of nothing else. -/
theorem strip_eq {p : Char → Bool} {front core back : List Char}
    (hblank : ∀ c ∈ front ++ back, p c = true) (hcore : ∀ c ∈ core, p c = false) :
    (((front ++ core ++ back).dropWhile p).reverse.dropWhile p).reverse = core := by
  by_cases hne : core = []
  · subst hne
    rw [List.append_nil, List.dropWhile_eq_nil_iff.mpr hblank]
    rfl
  · have hfront : ∀ c ∈ front, p c = true := fun c hc => hblank c (List.mem_append_left _ hc)
    have hback : ∀ c ∈ back.reverse, p c = true := fun c hc =>
      hblank c (List.mem_append_right _ (List.mem_reverse.mp hc))
    have hrev : ∀ c ∈ core.reverse, p c = false := fun c hc => hcore c (List.mem_reverse.mp hc)
    have hdropped : (back.reverse ++ (core.reverse ++ [])).dropWhile p = core.reverse ++ [] :=
      dropWhile_append_core hback hrev (by simpa using hne)
    rw [List.append_nil] at hdropped
    rw [List.append_assoc, dropWhile_append_core hfront hcore hne, List.reverse_append, hdropped,
      List.reverse_reverse]

/-! ## Labels that are known -/

section Known

variable {label : String} {charset : Charset}

/-- A label that is known is plain text among ASCII blanks. -/
theorem exists_split_of_ofLabel? (h : ofLabel? label = some charset) :
    ∃ front back, label.toList = front ++ stripLabel label.toList ++ back ∧
      (∀ c ∈ front ++ back, c.toNat < 128 ∧ isBlank c = true) ∧
      ∀ c ∈ stripLabel label.toList, c.toNat < 128 ∧ isBlank c = false := by
  obtain ⟨front, back, hsplit, hblanks⟩ := strip_append (p := isLabelBlank) label.toList
  exact ⟨front, back, hsplit, fun c hc => isBlank_of_isLabelBlank (hblanks c hc),
    plain_of_ofLabel? h⟩

theorem ascii_of_ofLabel? (h : ofLabel? label = some charset) :
    ∀ c ∈ label.toList, c.toNat < 128 := by
  obtain ⟨front, back, hsplit, hblanks, hplain⟩ := exists_split_of_ofLabel? h
  intro c hc
  rw [hsplit] at hc
  rcases List.mem_append.mp hc with hc | hc
  · rcases List.mem_append.mp hc with hc | hc
    · exact (hblanks c (List.mem_append_left _ hc)).1
    · exact (hplain c hc).1
  · exact (hblanks c (List.mem_append_right _ hc)).1

theorem trimChars_of_ofLabel? (h : ofLabel? label = some charset) :
    trimChars label.toList = stripLabel label.toList := by
  obtain ⟨front, back, hsplit, hblanks, hplain⟩ := exists_split_of_ofLabel? h
  calc trimChars label.toList
    _ = trimChars (front ++ stripLabel label.toList ++ back) := by rw [← hsplit]
    _ = stripLabel label.toList :=
      strip_eq (fun c hc => (hblanks c hc).2) fun c hc => (hplain c hc).2

theorem stripLabel_stripLabel (h : ofLabel? label = some charset) :
    stripLabel (stripLabel label.toList) = stripLabel label.toList := by
  have hcore : ∀ c ∈ stripLabel label.toList, isLabelBlank c = false := by
    intro c hc
    rw [Bool.eq_false_iff]
    intro hblank
    have hplain := (plain_of_ofLabel? h c hc).2
    rw [(isBlank_of_isLabelBlank hblank).2] at hplain
    cases hplain
  have hnone : ∀ c ∈ ([] : List Char) ++ [], isLabelBlank c = true := by simp
  simpa [stripLabel] using strip_eq hnone hcore

theorem ofLabel?_trim (h : ofLabel? label = some charset) :
    ofLabel? (trim label) = some charset := by
  rw [ofLabel?_eq, trim, String.toList_ofList, trimChars_of_ofLabel? h, stripLabel_stripLabel h,
    ← ofLabel?_eq]
  exact h

end Known

end Text.Charset

theorem Text.Utf8.decodeLossy_ascii {bytes : List UInt8} (h : ∀ b ∈ bytes, b < 128) :
    decodeLossy bytes = String.ofList (bytes.map fun b => Char.ofNat b.toNat) := by
  rw [decodeLossy]
  congr 1
  induction bytes with
  | nil => rw [decodeLossyChars, List.map_nil]
  | cons b bytes ih =>
    have hb : b < 0x80 := h b (List.mem_cons_self ..)
    have hcontinued : continued 0 0x80 0xBF bytes = 0 := by
      cases bytes <;> rfl
    rw [decodeLossyChars]
    simp only [continuation?, if_pos hb, hcontinued, List.drop_zero, List.map_cons]
    rw [ih fun b' hb' => h b' (List.mem_cons_of_mem _ hb')]
    rfl

/-- A label that the lexer knows names the same encoding when it is read as UTF-8. -/
theorem Input.charset_of_ofLabelBytes? {label : List UInt8} {charset : Charset}
    (h : Charset.ofLabelBytes? label = some charset) :
    Input.charset (Utf8.decodeLossy label) = .ok charset := by
  rw [Charset.ofLabelBytes?] at h
  have hascii : ∀ b ∈ label, b < 128 := by
    intro b hb
    have hnat : (Char.ofNat b.toNat).toNat = b.toNat := Utf16.toNat_ofNat_byte b
    have hmem : Char.ofNat b.toNat ∈
        (String.ofList (label.map fun b => Char.ofNat b.toNat)).toList := by
      rw [String.toList_ofList]
      exact List.mem_map_of_mem hb
    have hlt := Charset.ascii_of_ofLabel? h _ hmem
    rw [hnat] at hlt
    exact hlt
  rw [Utf8.decodeLossy_ascii hascii, Input.charset, Charset.ofLabel?_trim h]

end ScopedXml
