import Mathlib.Data.List.Basic
import ScopedXml.Markup.Reference
import ScopedXml.Proofs.Outcome

/-!
# What references leave alone

References are written in ASCII, so every other character of a text is still there when its
references have been expanded (`mem_expand`).
-/

namespace ScopedXml.Markup

theorem lt_of_digit? {base d : Nat} {c : Char} (h : digit? base c = some d) : c.toNat < 128 := by
  unfold digit? at h
  dsimp only at h
  split at h
  · next hc =>
    simp only [Bool.and_eq_true, decide_eq_true_eq] at hc
    omega
  · split at h
    · next hc =>
      simp only [Bool.and_eq_true, decide_eq_true_eq] at hc
      omega
    · split at h
      · next hc =>
        simp only [Bool.and_eq_true, decide_eq_true_eq] at hc
        omega
      · cases h

theorem lt_of_number {base code n : Nat} {cs : List Char} (h : number base code cs = .ok n) :
    ∀ c ∈ cs, c.toNat < 128 := by
  induction cs generalizing code with
  | nil => simp
  | cons c cs ih =>
    cases hdigit : digit? base c with
    | none =>
      rw [number, hdigit] at h
      cases h
    | some d =>
      rw [number, hdigit] at h
      intro x hx
      rcases List.mem_cons.mp hx with rfl | hx
      · exact lt_of_digit? hdigit
      · exact ih h x hx

theorem lt_of_referenceCode {cs : List Char} {n : Nat} (h : referenceCode cs = .ok n) :
    ∀ c ∈ cs, c.toNat < 128 := by
  unfold referenceCode at h
  split at h
  · next digits =>
    split at h
    · cases h
    · intro c hc
      rcases List.mem_cons.mp hc with rfl | hc
      · decide
      · exact lt_of_number (ok_of_mapError h) c hc
  · split at h
    · cases h
    · exact lt_of_number (ok_of_mapError h)

theorem lt_of_named? {name : List Char} {c : Char} (h : named? name = some c) :
    ∀ d ∈ name, d.toNat < 128 := by
  have key : ∀ {text : String}, (text.toList.all fun d => d.toNat < 128) = true →
      String.ofList name = text → ∀ d ∈ name, d.toNat < 128 := by
    rintro text htext rfl
    simpa using htext
  unfold named? at h
  split at h
  · next heq => exact key (by decide) heq
  · next heq => exact key (by decide) heq
  · next heq => exact key (by decide) heq
  · next heq => exact key (by decide) heq
  · next heq => exact key (by decide) heq
  · cases h

theorem lt_of_referenced {start : Nat} {name : List Char} {c : Char}
    (h : referenced start name = .ok c) : ∀ d ∈ name, d.toNat < 128 := by
  unfold referenced at h
  dsimp only at h
  split at h
  · next digits =>
    cases hcode : referenceCode digits with
    | error e =>
      rw [hcode] at h
      cases h
    | ok n =>
      intro d hd
      rcases List.mem_cons.mp hd with rfl | hd
      · decide
      · exact lt_of_referenceCode hcode d hd
  · split at h
    · next hnamed => exact lt_of_named? hnamed
    · cases h

theorem expandFrom_reference {total offset : Nat} {rest more : List Char}
    (h : rest.dropWhile (fun d => d != '&' && d != ';') = ';' :: more) :
    expandFrom total offset ('&' :: rest) = (do
      let d ← referenced offset (rest.takeWhile fun d => d != '&' && d != ';')
      let ds ← expandFrom total
        (offset + byteLength (rest.takeWhile fun d => d != '&' && d != ';') + 2) more
      .ok (d :: ds)) := by
  rw [expandFrom]
  rw [if_pos rfl]
  dsimp only
  split
  · next more' hmore =>
    rw [h] at hmore
    cases hmore
    rfl
  · next hnone => exact absurd h (hnone more)

theorem mem_expandFrom {total offset : Nat} {cs ds : List Char} {c : Char}
    (h : expandFrom total offset cs = .ok ds) (hc : c ∈ cs) (hlong : 128 ≤ c.toNat) : c ∈ ds := by
  induction offset, cs using expandFrom.induct generalizing ds with
  | case1 offset => cases hc
  | case2 offset rest name more hmore =>
    rename_i ih
    rw [expandFrom_reference hmore] at h
    have hrest : rest = rest.takeWhile (fun d => d != '&' && d != ';') ++ ';' :: more := by
      rw [← hmore]
      exact List.takeWhile_append_dropWhile.symm
    change _ = name ++ _ at hrest
    obtain ⟨d, hcode, h⟩ := bind_ok h
    obtain ⟨es, hes, h⟩ := bind_ok h
    cases h
    rw [hrest] at hc
    rcases List.mem_cons.mp hc with rfl | hc
    · simp at hlong
    · rcases List.mem_append.mp hc with hc | hc
      · have := lt_of_referenced hcode c hc
        omega
      · rcases List.mem_cons.mp hc with rfl | hc
        · simp at hlong
        · exact List.mem_cons_of_mem _ (ih hes hc)
  | case3 offset rest hmore =>
    rw [expandFrom, if_pos rfl] at h
    dsimp only at h
    split at h
    · next more hsome => exact absurd hsome (hmore more)
    · cases h
  | case4 offset d rest hd ih =>
    rw [expandFrom, if_neg hd] at h
    obtain ⟨es, hes, h⟩ := bind_ok h
    cases h
    rcases List.mem_cons.mp hc with rfl | hc
    · exact List.mem_cons_self ..
    · exact List.mem_cons_of_mem _ (ih hes hc)

/-- A character that is not ASCII stands for itself. -/
theorem mem_expand {s expanded : String} {c : Char} (h : expand s = .ok expanded)
    (hc : c ∈ s.toList) (hlong : 128 ≤ c.toNat) : c ∈ expanded.toList := by
  unfold expand at h
  cases hfrom : expandFrom s.utf8ByteSize 0 s.toList with
  | error e =>
    rw [hfrom] at h
    cases h
  | ok ds =>
    rw [hfrom] at h
    cases h
    simpa using mem_expandFrom hfrom hc hlong

end ScopedXml.Markup
