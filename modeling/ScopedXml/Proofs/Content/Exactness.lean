import ScopedXml.Proofs.Content.Unsettled

/-!
# Which words are matched

Children are matched one by one, and nothing is ever taken back. Whatever is matched that way is a
word of the model; this file settles when all words are matched.

* `Progress.matching_exact`: matching is sound for all models, and complete for those with the
  bounds `?`, `1`, `*` and `+` in which a name fits one leaf only.
* `Progress.matches_all_iff_settled`: with other bounds, a model in which a name fits one leaf only
  is matched in full exactly if it is settled.
* `Progress.not_plain_matches_all`: not all such models are.
-/

namespace ScopedXml.Content

variable {A L : Type}

/-- One of the bounds `0..1`, `1..1`, `0..unbounded` and `1..unbounded`. -/
def Occurs.Simple (o : Occurs) : Prop := o.least ≤ 1 ∧ (o.most = some 1 ∨ o.most = none)

theorem Occurs.Simple.sane {o : Occurs} (h : o.Simple) : o.Sane := by
  intro m hm
  rcases h.2 with hmost | hmost
  · rw [hmost] at hm
    cases hm
    exact h.1
  · rw [hmost] at hm
    cases hm

namespace Progress

open Particle

/-- **Exactness.** Whatever is matched is a word of the model; and all words are matched when the
bounds are simple, members stand in sequences and choices, and no name fits two leaves. -/
theorem matching_exact (fits : A → L → Bool) (p : Particle L) :
    (p.Bounded → ∀ w, Matches fits p w → w ∈ p.language fits) ∧
    (p.Ordered → (∀ q, Part p q → q.occurs.Simple) → p.Attributed fits →
      ∀ w ∈ p.language fits, Matches fits p w) := by
  refine ⟨fun hb w h => mem_language_of_matches hb h, fun hordered hsimple hattributed w hw => ?_⟩
  have hb : p.Bounded := fun q hq => (hsimple q hq).sane
  exact matches_of_mem_language ⟨hb, hordered, hattributed⟩
    (settled_of_enough fun q hq => Or.inl (hsimple q hq).1) hw

/-- A title, and then any number of persons and dates. -/
def notice : Particle Nat :=
  .group .sequence
    [.leaf 0 ⟨0, some 1⟩, .group .choice [.leaf 1 ⟨1, none⟩, .leaf 2 .once] ⟨0, none⟩] .once

theorem matching_exact_notice :
    [0, 1, 1, 2] ∈ notice.language (fun a t => a == t) ∧
      Matches (fun a t => a == t) notice [0, 1, 1, 2] := by
  have hb : notice.Bounded := by
    intro q hq
    simp only [notice, part_group_iff, part_leaf_iff, List.mem_cons, List.not_mem_nil, or_false,
      exists_eq_or_imp, exists_eq_left] at hq
    rcases hq with rfl | rfl | rfl | rfl | rfl <;> intro m hm <;> cases hm <;> decide
  have hsimple : ∀ q, Part notice q → q.occurs.Simple := by
    intro q hq
    simp only [notice, part_group_iff, part_leaf_iff, List.mem_cons, List.not_mem_nil, or_false,
      exists_eq_or_imp, exists_eq_left] at hq
    rcases hq with rfl | rfl | rfl | rfl | rfl <;> refine ⟨by decide, ?_⟩ <;> decide
  have hordered : notice.Ordered := by
    intro ms o h
    simp [notice, part_group_iff, part_leaf_iff] at h
  have hattributed : notice.Attributed fun a t => a == t := by
    simp [notice, Attributed, leaves, leavesOf]
  have hmatch : Matches (fun a t => a == t) notice [0, 1, 1, 2] := ⟨_, rfl, rfl⟩
  have hmem := (matching_exact _ notice).1 hb _ hmatch
  exact ⟨hmem, (matching_exact _ notice).2 hordered hsimple hattributed _ hmem⟩

/-- **All bounds.** A model of sequences and choices in which no name fits two leaves is matched in
full exactly if it is settled. -/
theorem matches_all_iff_settled {fits : A → L → Bool} {p : Particle L} (hp : Plain fits p) :
    (∀ w ∈ p.language fits, Matches fits p w) ↔ Settled fits p := by
  refine ⟨fun h => ?_, fun hset w hw => matches_of_mem_language hp hset hw⟩
  rcases settled_or_stranded hp with hset | hstranded
  · exact hset
  · obtain ⟨w, hw, hnot⟩ := hstranded.exists_not_matches
    exact absurd (h w hw) hnot

/-- Groups of one or two, as often as the bounds say. -/
def pairs (o : Occurs) : Particle Nat := .group .sequence [.leaf 0 ⟨1, some 2⟩] o

theorem plain_pairs {o : Occurs} (ho : o.Sane) : Plain (fun a t => a == t) (pairs o) where
  bounded := by
    intro q hq
    simp only [pairs, part_group_iff, part_leaf_iff, List.mem_singleton, exists_eq_left] at hq
    rcases hq with rfl | rfl
    · exact ho
    · intro m hm
      cases hm
      decide
  ordered := by
    intro ms o' h
    simp [pairs, part_group_iff, part_leaf_iff] at h
  attributed := by simp [pairs, Attributed, leaves, leavesOf]

theorem mem_language_pairs {n : Nat} (hn : n ≤ 2) :
    [0, 0] ∈ (pairs ⟨n, some 2⟩).language (fun a t => a == t) := by
  have hletter : [0] ∈ letter (fun a t => a == t) 0 := ⟨0, rfl, rfl⟩
  have hleaf : power [0] 1 ∈
      Particle.language (fun a t => a == t) (Particle.leaf 0 ⟨1, some 2⟩) :=
    power_mem_language ⟨Nat.le_refl 1, by simp [occurs]⟩ hletter
  have hone : [0] ∈ groupLanguage (fun a t => a == t) .sequence [Particle.leaf 0 ⟨1, some 2⟩] := by
    simpa [groupLanguage, inSequence, power] using hleaf
  rw [pairs, language_group]
  exact ⟨2, ⟨hn, by simp⟩, power_mem_pow hone 2⟩

theorem matches_all_pairs :
    Settled (fun a t => a == t) (pairs ⟨1, some 2⟩) ∧
      Matches (fun a t => a == t) (pairs ⟨1, some 2⟩) [0, 0] := by
  have hsane : Occurs.Sane ⟨1, some 2⟩ := by
    intro m hm
    cases hm
    decide
  have hsettled : Settled (fun a t => a == t) (pairs ⟨1, some 2⟩) := by
    refine settled_of_enough fun q hq => ?_
    simp only [pairs, part_group_iff, part_leaf_iff, List.mem_singleton, exists_eq_left] at hq
    rcases hq with rfl | rfl <;> exact Or.inl (Nat.le_refl 1)
  have hmem : [0, 0] ∈ (pairs ⟨1, some 2⟩).language (fun a t => a == t) :=
    mem_language_pairs (by omega)
  exact ⟨hsettled, (matches_all_iff_settled (plain_pairs hsane)).mpr hsettled _ hmem⟩

/-- When there must be two groups, the first takes both children of the shortest word, and none is
left for the second. -/
theorem not_plain_matches_all :
    ¬ ∀ p : Particle Nat, Plain (fun a t => a == t) p →
      ∀ w ∈ p.language (fun a t => a == t), Matches (fun a t => a == t) p w := by
  intro h
  have hsane : Occurs.Sane ⟨2, some 2⟩ := by
    intro m hm
    cases hm
    exact Nat.le_refl 2
  obtain ⟨s, hrun, hsat⟩ := h _ (plain_pairs hsane) _ (mem_language_pairs (Nat.le_refl 2))
  cases hrun
  cases hsat

end Progress

end ScopedXml.Content
