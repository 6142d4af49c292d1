import Mathlib.Data.List.Forall2
import ScopedXml.Proofs.Namespace.Resolution

/-!
# Malformed names

A name with a colon that is no prefix and local part is resolved in no scopes (`Malformed`,
`malformed_iff`). In a declaration it makes a prefix that no name can ask for
(`malformed_declaration_iff`). Such declarations are idle: with one more or one less of them, scopes
resolve all names alike (`Scopes.Alike`).
-/

namespace ScopedXml

namespace Namespace

/-- A name with a colon that is no prefix and local part. -/
def Malformed (name : String) : Prop :=
  ':' ∈ name.toList ∧ ∀ p l, IsPart p → IsPart l → name ≠ p ++ ":" ++ l

/-- Malformed names are those that are not split into parts. -/
theorem malformed_iff {name : String} :
    Malformed name ↔ ∃ fault, splitName name = .error fault := by
  constructor
  · rintro ⟨hcolon, hparts⟩
    cases hsplit : splitName name with
    | error fault => exact ⟨fault, rfl⟩
    | ok parts =>
      rcases splitName_cases hsplit with ⟨-, -, hnone⟩ | ⟨p, -, hname, hp, hl⟩
      · exact absurd hcolon hnone
      · exact absurd hname (hparts p _ hp hl)
  · rintro ⟨fault, hsplit⟩
    refine ⟨?_, fun p l hp hl hname => ?_⟩
    · by_contra hnone
      rw [splitName_of_plain hnone] at hsplit
      cases hsplit
    · rw [hname, splitName_of_parts hp hl] at hsplit
      cases hsplit

theorem Scopes.not_malformed_of_resolve {s : Scopes} {unprefixed : Option String} {name : String}
    {q : QualifiedName} (h : s.resolve unprefixed name = .ok q) : ¬ Malformed name := by
  obtain ⟨parts, hsplit, -⟩ := bind_ok h
  intro hmalformed
  obtain ⟨fault, hfault⟩ := malformed_iff.mp hmalformed
  rw [hfault] at hsplit
  cases hsplit

/-- The name in a declaration of a prefix is malformed if no name can have the prefix. -/
theorem malformed_declaration_iff {p : String} : Malformed ("xmlns:" ++ p) ↔ ¬ IsPart p := by
  have hxmlns : IsPart "xmlns" := by
    unfold IsPart
    decide
  constructor
  · rintro ⟨-, hparts⟩ hp
    exact hparts "xmlns" p hxmlns hp rfl
  · refine fun hp => ⟨by simp, fun q l hq hl hname => hp ?_⟩
    -- There is only one first colon to split at.
    have hfirst : Text.splitAtFirst? ':' ("xmlns:" ++ p).toList =
        some ("xmlns".toList, p.toList) :=
      Text.splitAtFirst?_eq_some_iff.mpr ⟨by simp, hxmlns.2⟩
    have hsecond : Text.splitAtFirst? ':' ("xmlns:" ++ p).toList = some (q.toList, l.toList) :=
      Text.splitAtFirst?_eq_some_iff.mpr ⟨by simp [hname], hq.2⟩
    rw [hfirst, Option.some.injEq, Prod.mk.injEq, String.toList_inj, String.toList_inj] at hsecond
    exact hsecond.2 ▸ hl

/-! ## Idle declarations -/

/-- What a name can ask for: no prefix, or one that is a part of a name. -/
def Askable (p : Option String) : Prop := ∀ q ∈ p, IsPart q

/-- No name asks for what is declared. -/
def Declaration.Idle (d : Declaration) : Prop := ¬ Askable d.nsPrefix

/-- The declarations of two tags in which names find the same. -/
def SameFound (declarations others : List Declaration) : Prop :=
  ∀ p, Askable p →
    declarations.reverse.find? (·.nsPrefix == p) = others.reverse.find? (·.nsPrefix == p)

theorem sameFound_idle {d : Declaration} (h : d.Idle) (front back : List Declaration) :
    SameFound (front ++ d :: back) (front ++ back) := by
  intro p hp
  have hne : (d.nsPrefix == p) = false := by
    rw [beq_eq_false_iff_ne]
    rintro rfl
    exact h hp
  simp [List.find?_append, List.find?_cons_of_neg, hne]

/-- A lawful declaration among others is not what they are refused for. -/
theorem forM_check_lawful {d : Declaration} (h : d.Lawful) (front back : List Declaration) :
    (front ++ d :: back).forM Declaration.check = (front ++ back).forM Declaration.check := by
  simp only [List.forM_eq_forM]
  induction front with
  | nil =>
    rw [List.nil_append, List.nil_append, List.forM_cons, Declaration.check_eq_ok_iff.mpr h]
    rfl
  | cons first front ih =>
    rw [List.cons_append, List.cons_append, List.forM_cons, ih, List.forM_cons]

namespace Scopes

variable {s s' : Scopes}

/-- Names find the same in two scopes, and behind the same tags go on doing so. -/
def Alike (s s' : Scopes) : Prop := List.Forall₂ SameFound s.levels s'.levels

theorem Alike.refl (s : Scopes) : s.Alike s :=
  List.forall₂_same.mpr fun _ _ _ _ => rfl

theorem Alike.leave (h : s.Alike s') : s.leave.Alike s'.leave := List.forall₂_drop 1 h

theorem Alike.lookup? (h : s.Alike s') {p : Option String} (hp : Askable p) :
    s.lookup? p = s'.lookup? p := by
  have hfound : s.declarations.find? (·.nsPrefix == p) =
      s'.declarations.find? (·.nsPrefix == p) := by
    obtain ⟨levels⟩ := s
    obtain ⟨levels'⟩ := s'
    unfold Alike at h
    unfold declarations
    dsimp only at h ⊢
    induction h with
    | nil => rfl
    | cons hsame _ ih =>
      rw [List.flatMap_cons, List.flatMap_cons, List.find?_append, List.find?_append, hsame p hp,
        ih]
  rw [Scopes.lookup?, Scopes.lookup?, hfound]

theorem Alike.resolve (h : s.Alike s') (unprefixed : Option String) (name : String) :
    s.resolve unprefixed name = s'.resolve unprefixed name := by
  unfold Scopes.resolve
  cases hsplit : splitName name with
  | error fault => rfl
  | ok parts =>
    obtain ⟨p, l⟩ := parts
    rcases splitName_cases hsplit with ⟨rfl, -, -⟩ | ⟨p, rfl, -, hp, -⟩
    · rfl
    · have hask : Askable (some p) := by
        rintro _ ⟨rfl⟩
        exact hp
      have hspace : s.ofPrefix p = s'.ofPrefix p := by
        rw [Scopes.ofPrefix, Scopes.ofPrefix, h.lookup? hask]
      change (do return QualifiedName.mk (some (← s.ofPrefix p)) (some p) l) = _
      rw [hspace]
      rfl

theorem Alike.element (h : s.Alike s') (name : String) : s.element name = s'.element name := by
  have hdefault : s.lookup? none = s'.lookup? none := h.lookup? fun q hq => by cases hq
  rw [Scopes.element, Scopes.element, hdefault, h.resolve]

theorem Alike.attr (h : s.Alike s') (name : String) : s.attr name = s'.attr name :=
  h.resolve none name

theorem Alike.enter (h : s.Alike s') {declarations others : List Declaration}
    (hchecks : declarations.forM Declaration.check = others.forM Declaration.check)
    (hsame : SameFound declarations others) :
    (∃ fault, s.enter declarations = .error fault ∧ s'.enter others = .error fault) ∨
      ∃ t t', s.enter declarations = .ok t ∧ s'.enter others = .ok t' ∧ t.Alike t' := by
  unfold Scopes.enter
  rw [hchecks]
  cases others.forM Declaration.check with
  | error fault => exact .inl ⟨fault, rfl, rfl⟩
  | ok _ => exact .inr ⟨_, _, rfl, rfl, .cons hsame h⟩

end Scopes

end Namespace

end ScopedXml
