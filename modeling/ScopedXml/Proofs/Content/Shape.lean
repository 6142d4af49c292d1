import ScopedXml.Proofs.Content.Residual

/-!
# The shape of progress

Wherever a group has an occurrence under way, there is progress for each of its members, and the
member that has been reached or chosen is one of them. Every child that is taken keeps it that way,
so that nothing is ever looked up in vain.

* `Progress.Shaped.accept`: one child keeps the shape.
* `Progress.missing_eq_none_iff`: something is lacking exactly where the children may not end.
-/

namespace ScopedXml.Content.Progress

open Particle

variable {L : Type}

mutual

/-- The shape of the progress of a particle, all members included. -/
def Shaped : Particle L → Progress → Prop
  | .leaf _ _, _ => True
  | .group _ ms _, s =>
    match s.current with
    | none => True
    | some (.mk cursor states) => ShapedAll ms states ∧ ∀ i ∈ cursor, i < ms.length
termination_by structural p => p

def ShapedAll : List (Particle L) → List Progress → Prop
  | [], [] => True
  | p :: ps, s :: ss => Shaped p s ∧ ShapedAll ps ss
  | _, _ => False
termination_by structural ps => ps

end

def ShapedGroup (ms : List (Particle L)) : Occurrence → Prop
  | .mk cursor states => ShapedAll ms states ∧ ∀ i ∈ cursor, i < ms.length

theorem shaped_group_iff {c : Compositor} {ms : List (Particle L)} {o : Occurs} {s : Progress} :
    Shaped (.group c ms o) s ↔ ∀ occurrence ∈ s.current, ShapedGroup ms occurrence := by
  rcases s with ⟨n, _ | ⟨cursor, states⟩⟩ <;> simp [Shaped, ShapedGroup]

theorem shapedAll_iff {ms : List (Particle L)} {ss : List Progress} :
    ShapedAll ms ss ↔ List.Forall₂ Shaped ms ss := by
  induction ms generalizing ss with
  | nil => cases ss <;> simp [ShapedAll]
  | cons p ps ih => cases ss <;> simp [ShapedAll, ih]

theorem shapedGroup_iff {ms : List (Particle L)} {occurrence : Occurrence} :
    ShapedGroup ms occurrence ↔ occurrence.Each Shaped ms := by
  rcases occurrence with ⟨cursor, states⟩
  rw [ShapedGroup, shapedAll_iff]
  rfl

theorem shaped_fresh (p : Particle L) : Shaped p fresh := by
  cases p with
  | leaf t o => exact trivial
  | group c ms o => exact trivial

theorem shapedAll_fresh (ms : List (Particle L)) : ShapedAll ms (ms.map fun _ => fresh) := by
  induction ms with
  | nil => exact trivial
  | cons p ps ih => exact ⟨shaped_fresh p, ih⟩

theorem shapedGroup_fresh (ms : List (Particle L)) : ShapedGroup ms (.fresh ms) :=
  ⟨shapedAll_fresh ms, nofun⟩

/-! ## One child -/

/-- A child that the particle takes keeps the shape. -/
def KeepsShape (fits : L → Bool) (q : Particle L) : Prop :=
  ∀ s t s', Shaped q s → accept fits q s = some (t, s') → Shaped q s'

theorem shapedGroup_of_acceptGroup {fits : L → Bool} {ms : List (Particle L)} {t : L}
    (h : ∀ q ∈ ms, KeepsShape fits q) {c : Compositor} {occurrence next : Occurrence}
    (hocc : ShapedGroup ms occurrence)
    (hacc : acceptGroup fits c ms occurrence = some (t, next)) : ShapedGroup ms next :=
  shapedGroup_iff.mpr (each_of_acceptGroup h (shapedGroup_iff.mp hocc) hacc)

theorem keepsShape (fits : L → Bool) (p : Particle L) : KeepsShape fits p := by
  induction p using Particle.induction with
  | leaf t o => exact fun _ _ _ _ _ => trivial
  | group c ms o ih =>
    intro s t s' hs hacc
    rw [shaped_group_iff] at hs ⊢
    rcases accept_group_eq_some_iff.mp hacc with
      ⟨occurrence, next, hcur, hnext, rfl⟩ | ⟨-, -, next, hnext, rfl⟩
    · rintro _ ⟨⟩
      exact shapedGroup_of_acceptGroup ih (hs occurrence hcur) hnext
    · rintro _ ⟨⟩
      exact shapedGroup_of_acceptGroup ih (shapedGroup_fresh ms) hnext

theorem Shaped.accept {fits : L → Bool} {p : Particle L} {s s' : Progress} {t : L}
    (hs : Shaped p s) (hacc : accept fits p s = some (t, s')) : Shaped p s' :=
  keepsShape fits p s t s' hs hacc

/-! ## What is lacking -/

/-- What is lacking in one occurrence of a group. -/
def missingGroup (name : L → String) (c : Compositor) (ms : List (Particle L)) :
    Occurrence → Option Shortage
  | .mk cursor states =>
    match c, cursor with
    | .sequence, _ => missingFrom name ms states (cursor.getD 0)
    | .choice, some index => missingAt name ms states index
    | .choice, none => some (.oneOf (addExpectedEach name ms states []))
    | .all, _ => missingFrom name ms states 0

theorem missing_group (name : L → String) (c : Compositor) (ms : List (Particle L)) (o : Occurs)
    (s : Progress) :
    missing name (.group c ms o) s =
      if satisfied (.group c ms o) s then none
      else
        match s.current with
        | none => missingGroup name c ms (.fresh ms)
        | some occurrence =>
          if satisfiedGroup c ms occurrence then some (.tooFew c.label o s.count)
          else missingGroup name c ms occurrence := by
  rcases s with ⟨n, _ | ⟨cursor, states⟩⟩
  · cases c <;> rfl
  · cases c <;> cases cursor <;> rfl

section Members

variable {name : L → String} {ms : List (Particle L)} {ss : List Progress}

/-- When nothing is lacking, the children may end. -/
def TellsShortage (name : L → String) (q : Particle L) : Prop :=
  ∀ s, Shaped q s → missing name q s = none → satisfied q s = true

theorem satisfiedFrom_of_missingFrom (h : ∀ q ∈ ms, TellsShortage name q) (hss : ShapedAll ms ss)
    {skip : Nat} (hnone : missingFrom name ms ss skip = none) :
    satisfiedFrom ms ss skip = true := by
  induction ms generalizing ss skip with
  | nil => cases ss <;> rfl
  | cons p ps ih =>
    obtain ⟨hp, hps⟩ := List.forall_mem_cons.mp h
    cases ss with
    | nil => exact hss.elim
    | cons s ss =>
      cases skip with
      | zero =>
        rw [missingFrom] at hnone
        split at hnone
        · cases hnone
        · rename_i hs
          rw [satisfiedFrom, hp s hss.1 hs, ih hps hss.2 hnone]
          rfl
      | succ skip => exact ih hps hss.2 hnone

theorem satisfiedAt_of_missingAt (h : ∀ q ∈ ms, TellsShortage name q) (hss : ShapedAll ms ss)
    {i : Nat} (hi : i < ms.length) (hnone : missingAt name ms ss i = none) :
    satisfiedAt ms ss i = true := by
  induction ms generalizing ss i with
  | nil => cases hi
  | cons p ps ih =>
    obtain ⟨hp, hps⟩ := List.forall_mem_cons.mp h
    cases ss with
    | nil => exact hss.elim
    | cons s ss =>
      cases i with
      | zero => exact hp s hss.1 hnone
      | succ i => exact ih hps hss.2 (Nat.lt_of_succ_lt_succ hi) hnone

theorem satisfiedGroup_of_missingGroup (h : ∀ q ∈ ms, TellsShortage name q) {c : Compositor}
    {occurrence : Occurrence} (hocc : ShapedGroup ms occurrence)
    (hnone : missingGroup name c ms occurrence = none) :
    satisfiedGroup c ms occurrence = true := by
  rcases occurrence with ⟨cursor, states⟩
  obtain ⟨hss, hcursor⟩ := hocc
  cases c with
  | sequence => exact satisfiedFrom_of_missingFrom h hss hnone
  | choice =>
    cases cursor with
    | none => cases hnone
    | some i => exact satisfiedAt_of_missingAt h hss (hcursor i rfl) hnone
  | all => exact satisfiedFrom_of_missingFrom h hss hnone

end Members

theorem tellsShortage (name : L → String) (p : Particle L) : TellsShortage name p := by
  induction p using Particle.induction with
  | leaf t o =>
    intro s _ hnone
    rw [missing] at hnone
    split at hnone
    · assumption
    · cases hnone
  | group c ms o ih =>
    intro s hs hnone
    rw [shaped_group_iff] at hs
    rw [missing_group] at hnone
    split at hnone
    · assumption
    · rename_i hsat
      rw [satisfied_group] at hsat
      cases hcur : s.current with
      | none =>
        rw [hcur] at hnone hsat
        have hfresh := satisfiedGroup_of_missingGroup ih (shapedGroup_fresh ms) hnone
        rw [satisfiedGroup_fresh] at hfresh
        simp [hfresh] at hsat
      | some occurrence =>
        rw [hcur] at hnone
        dsimp only at hnone
        split at hnone
        · cases hnone
        · rename_i hend
          exact absurd (satisfiedGroup_of_missingGroup ih (hs occurrence hcur) hnone) hend

/-- Something is lacking exactly where the children may not end. -/
theorem missing_eq_none_iff (name : L → String) {p : Particle L} {s : Progress}
    (hs : Shaped p s) : missing name p s = none ↔ satisfied p s = true := by
  refine ⟨tellsShortage name p s hs, fun hsat => ?_⟩
  cases p with
  | leaf t o => rw [missing, if_pos hsat]
  | group c ms o => rw [missing_group, if_pos hsat]

end ScopedXml.Content.Progress
