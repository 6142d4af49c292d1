import ScopedXml.Proofs.Content.InPlace

/-!
# What is lacking

When the children of an element end, `Progress.missing` alone decides whether they may. It does not
follow `Progress.satisfied` on its way: a group that has not begun is told by an occurrence that
begins, one that is under way by that occurrence, and one that has not occurred often enough by its
count. At any point that children can lead to, both agree (`Progress.missing_exact`).

* `Progress.exists_of_missing`: too few occurrences are told of a particle of the model, with its own
  bounds and its own count.
-/

namespace ScopedXml.Content.Progress

variable {A L : Type}

open Particle

/-! ## Whose occurrences are too few -/

/-- What is lacking in `p` is a choice without a member, or a particle that has not occurred often
enough. -/
def TellsWhose (name : L → String) (p : Particle L) : Prop :=
  ∀ s shortage, missing name p s = some shortage →
    (∃ options, shortage = .oneOf options) ∨
      ∃ q r, Within p s q r ∧ r.count < q.occurs.least ∧
        shortage = .tooFew (q.label name) q.occurs r.count

section Members

variable {name : L → String} {ms : List (Particle L)} {ss : List Progress} {shortage : Shortage}

theorem exists_of_missingFrom {skip : Nat} (h : missingFrom name ms ss skip = some shortage) :
    ∃ q s, (q, s) ∈ ms.zip ss ∧ missing name q s = some shortage := by
  induction ms generalizing ss skip with
  | nil => simp [missingFrom] at h
  | cons p ps ih =>
    cases ss with
    | nil => simp [missingFrom] at h
    | cons s ss =>
      have hlater : ∀ {k}, missingFrom name ps ss k = some shortage →
          ∃ q r, (q, r) ∈ (p :: ps).zip (s :: ss) ∧ missing name q r = some shortage := by
        intro k hk
        obtain ⟨q, r, hmem, hr⟩ := ih hk
        exact ⟨q, r, List.mem_cons_of_mem _ hmem, hr⟩
      cases skip with
      | zero =>
        rw [missingFrom] at h
        split at h
        · rename_i hs
          cases h
          exact ⟨p, s, List.mem_cons_self, hs⟩
        · exact hlater h
      | succ skip => exact hlater h

theorem exists_of_missingAt {index : Nat} (h : missingAt name ms ss index = some shortage) :
    ∃ q s, (q, s) ∈ ms.zip ss ∧ missing name q s = some shortage := by
  induction ms generalizing ss index with
  | nil => simp [missingAt] at h
  | cons p ps ih =>
    cases ss with
    | nil => simp [missingAt] at h
    | cons s ss =>
      cases index with
      | zero => exact ⟨p, s, List.mem_cons_self, h⟩
      | succ index =>
        obtain ⟨q, r, hmem, hr⟩ := ih h
        exact ⟨q, r, List.mem_cons_of_mem _ hmem, hr⟩

/-- What is lacking in an occurrence is lacking in one of its members, unless none was chosen. -/
theorem exists_of_missingGroup {c : Compositor} {cursor : Option Nat}
    (h : missingGroup name c ms (.mk cursor ss) = some shortage) :
    (∃ options, shortage = .oneOf options) ∨
      ∃ q s, (q, s) ∈ ms.zip ss ∧ missing name q s = some shortage := by
  cases c with
  | sequence => exact Or.inr (exists_of_missingFrom h)
  | choice =>
    cases cursor with
    | none =>
      cases h
      exact Or.inl ⟨_, rfl⟩
    | some index => exact Or.inr (exists_of_missingAt h)
  | all => exact Or.inr (exists_of_missingFrom h)

/-- What is lacking in the occurrence that a group holds is told as it is of the member. -/
theorem tellsWhose_of_missingGroup (hms : ∀ q ∈ ms, TellsWhose name q) {c : Compositor}
    {o : Occurs} {s : Progress}
    (h : missingGroup name c ms (s.current.getD (.fresh ms)) = some shortage) :
    (∃ options, shortage = .oneOf options) ∨
      ∃ q r, Within (.group c ms o) s q r ∧ r.count < q.occurs.least ∧
        shortage = .tooFew (q.label name) q.occurs r.count := by
  cases hstates : s.current.getD (.fresh ms) with
  | mk cursor states =>
    rw [hstates] at h
    rcases exists_of_missingGroup h with hone | ⟨q, s₁, hmem, hs₁⟩
    · exact Or.inl hone
    · refine (hms q (List.of_mem_zip hmem).1 s₁ shortage hs₁).imp_right ?_
      rintro ⟨q', r, hwithin, hfew, rfl⟩
      exact ⟨q', r, .member hstates hmem hwithin, hfew, rfl⟩

end Members

theorem exists_of_missing (name : L → String) (p : Particle L) : TellsWhose name p := by
  induction p using Particle.induction with
  | leaf t o =>
    intro s shortage h
    rw [missing] at h
    split at h
    · cases h
    · rename_i hfew
      cases h
      have hcount : ¬ o.least ≤ s.count := fun hle => hfew (decide_eq_true hle)
      exact Or.inr ⟨_, s, .self _ s, Nat.lt_of_not_le hcount, rfl⟩
  | group c ms o ih =>
    intro s shortage h
    rw [missing_group] at h
    split at h
    · cases h
    · rename_i hsat
      cases hcurrent : s.current with
      | none =>
        rw [hcurrent] at h
        refine tellsWhose_of_missingGroup ih ?_
        rw [hcurrent]
        exact h
      | some occurrence =>
        rw [hcurrent] at h
        dsimp only at h
        split at h
        · -- The occurrence may end, so only the count can keep the group from being satisfied.
          rename_i hend
          cases h
          rw [satisfied_group, hcurrent, Option.all_some, hend, Bool.true_and, Bool.or_eq_true,
            decide_eq_true_iff] at hsat
          have hcount : ¬ o.least ≤ s.count := fun hle => hsat (Or.inl hle)
          exact Or.inr ⟨_, s, .self _ s, Nat.lt_of_not_le hcount, rfl⟩
        · refine tellsWhose_of_missingGroup ih ?_
          rw [hcurrent]
          exact h

/-! ## The end of the children -/

/-- **What is lacking.** Behind any children, taken or not, all counts and all indices are within
their bounds. Nothing is lacking exactly where the children may end; and if too few occurrences are
told of, they are those of a particle of the model, told with its bounds and its count, which is
below the lower one. -/
theorem missing_exact (fits : A → L → Bool) (name : L → String) (p : Particle L) (w : List A) :
    (∀ q r, Within p (feed fits p fresh w) q r → InBounds q r) ∧
    (missing name p (feed fits p fresh w) = none ↔ satisfied p (feed fits p fresh w) = true) ∧
    ∀ label bounds found,
      missing name p (feed fits p fresh w) = some (.tooFew label bounds found) →
        ∃ q r, Part p q ∧ Within p (feed fits p fresh w) q r ∧
          label = q.label name ∧ bounds = q.occurs ∧ found = r.count ∧ found < q.occurs.least := by
  have hsound : Sound p (feed fits p fresh w) := (sound_fresh p).feed w
  refine ⟨hsound, missing_eq_none_iff name hsound.shaped, fun label bounds found h => ?_⟩
  rcases exists_of_missing name p _ _ h with ⟨options, hone⟩ | ⟨q, r, hwithin, hfew, heq⟩
  · cases hone
  · cases heq
    exact ⟨q, r, hwithin.part, hwithin, rfl, rfl, rfl, hfew⟩

/-- A name, and then two tracks or more, of one point each. -/
def tour : Particle String :=
  .group .sequence
    [.leaf "name" .once, .group .sequence [.leaf "point" .once] ⟨2, none⟩] .once

/-- The second track is lacking, whatever note is turned down behind the first. -/
theorem missing_exact_tour :
    missing id tour (feed (· == ·) tour fresh ["name", "point", "note"]) =
      some (.tooFew "xs:sequence" ⟨2, none⟩ 1) ∧
    ∃ q r, Part tour q ∧ Within tour (feed (· == ·) tour fresh ["name", "point", "note"]) q r ∧
      "xs:sequence" = q.label id ∧ ⟨2, none⟩ = q.occurs ∧ 1 = r.count ∧ 1 < q.occurs.least := by
  have hmissing : missing id tour (feed (· == ·) tour fresh ["name", "point", "note"]) =
      some (.tooFew "xs:sequence" ⟨2, none⟩ 1) := rfl
  exact ⟨hmissing, (missing_exact (· == ·) id tour _).2.2 _ _ _ hmissing⟩

end ScopedXml.Content.Progress
