import ScopedXml.Proofs.Content.Shape

/-!
# Progress within bounds

The progress of a model is a tree that follows the model, and `Progress.Within` walks down both at
once. However far the children have come, no particle has occurred more often than it may, and each
occurrence of a group has progress for all of its members and a cursor that points at one of them.
So whatever is looked up by its index is there.

* `Progress.Within`: which progress belongs to which particle.
* `Progress.Sound.accept`: one child keeps all counts and all indices within their bounds.
-/

namespace ScopedXml.Content

variable {L : Type}

/-- There is progress for each member, and the cursor points at one of them. -/
def Occurrence.Indexed (ms : List (Particle L)) : Occurrence → Prop
  | .mk cursor states => states.length = ms.length ∧ ∀ i ∈ cursor, i < ms.length

namespace Progress

open Particle

/-- `q` stands within `p`, or is `p`, and `r` is what the progress `s` of `p` holds for it. A group
without an occurrence under way holds for its members what another occurrence begins with. -/
inductive Within : Particle L → Progress → Particle L → Progress → Prop
  | self (p : Particle L) (s : Progress) : Within p s p s
  | member {c : Compositor} {ms : List (Particle L)} {o : Occurs} {s : Progress}
    {cursor : Option Nat} {states : List Progress} {q r : Particle L} {s₁ s₂ : Progress} :
    s.current.getD (.fresh ms) = .mk cursor states → (q, s₁) ∈ ms.zip states →
    Within q s₁ r s₂ → Within (.group c ms o) s r s₂

theorem Within.part {p q : Particle L} {s r : Progress} (h : Within p s q r) : Part p q := by
  induction h with
  | self p s => exact .self p
  | member _ hmem _ ih => exact .member (List.of_mem_zip hmem).1 ih

/-- The progress `r` is one that the particle `q` can have. Of a group, both the occurrence under
way and one that begins can be looked up. -/
structure InBounds (q : Particle L) (r : Progress) : Prop where
  count_le : ∀ m ∈ q.occurs.most, r.count ≤ m
  leaf : ∀ t o, q = .leaf t o → r.current = none
  group : ∀ c ms o, q = .group c ms o → ∀ occurrence,
    r.current = some occurrence ∨ occurrence = .fresh ms → occurrence.Indexed ms

/-- All progress within the model is in bounds. -/
def Sound (p : Particle L) (s : Progress) : Prop := ∀ q r, Within p s q r → InBounds q r

/-! ## The start -/

theorem indexed_fresh (ms : List (Particle L)) : (Occurrence.fresh ms).Indexed ms :=
  ⟨List.length_map _, nofun⟩

theorem inBounds_fresh (q : Particle L) : InBounds q fresh where
  count_le _ _ := Nat.zero_le _
  leaf _ _ _ := rfl
  group := by
    rintro c ms o rfl _ (h | rfl)
    · cases h
    · exact indexed_fresh ms

theorem sound_fresh (p : Particle L) : Sound p fresh := by
  induction p using Particle.induction with
  | leaf t o =>
    rintro q r ⟨⟩
    exact inBounds_fresh _
  | group c ms o ih =>
    rintro q r (_ | ⟨hstates, hmem, hwithin⟩)
    · exact inBounds_fresh _
    · cases hstates
      obtain ⟨hq, hs⟩ := List.of_mem_zip hmem
      obtain ⟨_, -, rfl⟩ := List.mem_map.mp hs
      exact ih _ hq _ _ hwithin

theorem each_sound_fresh (ms : List (Particle L)) : (Occurrence.fresh ms).Each Sound ms := by
  refine ⟨?_, nofun⟩
  rw [List.forall₂_map_right_iff]
  exact List.forall₂_same.mpr fun q _ => sound_fresh q

/-! ## Leaves and groups -/

theorem sound_leaf_iff {t : L} {o : Occurs} {s : Progress} :
    Sound (.leaf t o) s ↔ (∀ m ∈ o.most, s.count ≤ m) ∧ s.current = none := by
  constructor
  · intro h
    have hself := h _ _ (.self _ _)
    exact ⟨hself.count_le, hself.leaf t o rfl⟩
  · rintro ⟨hcount, hcurrent⟩ _ _ ⟨⟩
    exact ⟨hcount, fun _ _ _ => hcurrent, nofun⟩

theorem sound_group_iff {c : Compositor} {ms : List (Particle L)} {o : Occurs} {s : Progress} :
    Sound (.group c ms o) s ↔
      (∀ m ∈ o.most, s.count ≤ m) ∧ ∀ occurrence ∈ s.current, occurrence.Each Sound ms := by
  constructor
  · intro h
    have hself := h _ _ (.self _ _)
    refine ⟨hself.count_le, ?_⟩
    rintro ⟨cursor, states⟩ hcurrent
    obtain ⟨hlength, hcursor⟩ := hself.group c ms o rfl _ (Or.inl hcurrent)
    refine ⟨List.forall₂_iff_zip.mpr ⟨hlength.symm, fun hmem q r hwithin => ?_⟩, hcursor⟩
    have hstates : s.current.getD (.fresh ms) = .mk cursor states := by rw [hcurrent]; rfl
    exact h q r (.member hstates hmem hwithin)
  · rintro ⟨hcount, heach⟩ q r (_ | ⟨hstates, hmem, hwithin⟩)
    · refine ⟨hcount, nofun, ?_⟩
      rintro _ _ _ ⟨⟩ ⟨cursor, states⟩ (hcurrent | hfresh)
      · obtain ⟨hsound, hcursor⟩ := heach _ hcurrent
        exact ⟨hsound.length_eq.symm, hcursor⟩
      · rw [hfresh]
        exact indexed_fresh ms
    · have hsound : (s.current.getD (.fresh ms)).Each Sound ms := by
        cases hcurrent : s.current with
        | none => exact each_sound_fresh ms
        | some occurrence => exact heach _ hcurrent
      rw [hstates] at hsound
      exact (List.forall₂_iff_zip.mp hsound.1).2 hmem q r hwithin

theorem Sound.shaped {p : Particle L} {s : Progress} (hs : Sound p s) : Shaped p s := by
  induction p using Particle.induction generalizing s with
  | leaf t o => exact trivial
  | group c ms o ih =>
    refine shaped_group_iff.mpr fun occurrence hcurrent => shapedGroup_iff.mpr ?_
    exact ((sound_group_iff.mp hs).2 occurrence hcurrent).imp fun q hq _ => ih q hq

/-! ## One child -/

theorem Sound.accept {fits : L → Bool} {p : Particle L} {s s' : Progress} {t : L}
    (hs : Sound p s) (hacc : accept fits p s = some (t, s')) : Sound p s' := by
  induction p using Particle.induction generalizing s s' t with
  | leaf t' o =>
    rw [accept_leaf] at hacc
    split at hacc
    · rename_i hroom
      cases hacc
      rw [Bool.and_eq_true, Occurs.roomAfter_iff] at hroom
      exact sound_leaf_iff.mpr ⟨hroom.1, rfl⟩
    · cases hacc
  | group c ms o ih =>
    have hkeep : ∀ q ∈ ms, ∀ s t s', Sound q s → Progress.accept fits q s = some (t, s') →
        Sound q s' := fun q hq _ _ _ => ih q hq
    obtain ⟨hcount, heach⟩ := sound_group_iff.mp hs
    rcases accept_group_eq_some_iff.mp hacc with
      ⟨occurrence, next, hcurrent, hnext, rfl⟩ | ⟨-, hroom, next, hnext, rfl⟩
    · refine sound_group_iff.mpr ⟨hcount, ?_⟩
      rintro _ ⟨⟩
      exact each_of_acceptGroup hkeep (heach _ hcurrent) hnext
    · -- Another occurrence is counted only where there is room for it.
      refine sound_group_iff.mpr ⟨Occurs.roomAfter_iff.mp hroom, ?_⟩
      rintro _ ⟨⟩
      exact each_of_acceptGroup hkeep (each_sound_fresh ms) hnext

end Progress

end ScopedXml.Content
