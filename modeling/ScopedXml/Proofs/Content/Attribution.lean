import ScopedXml.Proofs.Content.Residual

/-!
# To which leaf a child belongs

In a model whose leaves take different names, a name belongs to one member of a group at most, so a
group can only take a child where that member stands (`Occurrence.reaching`). Three properties go
together here (`Particle.Plain`): bounds make sense, members are not in any order, and no name fits
two leaves.

* `Particle.cons_mem_groupLanguage`: the member in which a word of a group begins.
* `Progress.accept_eq_none`: a particle refuses the names that none of its leaves takes.
* `Progress.acceptFrom_pass`: members that refuse a child and may end are passed over.
-/

namespace ScopedXml.Content

variable {A L : Type}

namespace Particle

/-! ## Names -/

/-- Some leaf takes a child of this name. -/
def Names (fits : A → L → Bool) (p : Particle L) (a : A) : Prop := ∃ t ∈ p.leaves, fits a t = true

/-- No name fits two leaves. -/
def Attributed (fits : A → L → Bool) (p : Particle L) : Prop :=
  p.leaves.Pairwise fun t u => ∀ a, ¬ (fits a t = true ∧ fits a u = true)

theorem mem_leavesOf {ms : List (Particle L)} {t : L} :
    t ∈ leavesOf ms ↔ ∃ q ∈ ms, t ∈ q.leaves := by
  induction ms with
  | nil => simp [leavesOf]
  | cons p ps ih => simp [leavesOf, ih]

theorem names_leaf {fits : A → L → Bool} {t : L} {o : Occurs} {a : A} :
    Names fits (.leaf t o) a ↔ fits a t = true := by
  simp [Names, leaves]

theorem names_group {fits : A → L → Bool} {c : Compositor} {ms : List (Particle L)} {o : Occurs}
    {a : A} : Names fits (.group c ms o) a ↔ ∃ q ∈ ms, Names fits q a := by
  simp only [Names, leaves, mem_leavesOf]
  constructor
  · rintro ⟨t, ⟨q, hq, ht⟩, h⟩
    exact ⟨q, hq, t, ht, h⟩
  · rintro ⟨q, hq, t, ht, h⟩
    exact ⟨t, ⟨q, hq, ht⟩, h⟩

theorem leavesOf_append (ms ns : List (Particle L)) :
    leavesOf (ms ++ ns) = leavesOf ms ++ leavesOf ns := by
  induction ms with
  | nil => rfl
  | cons p ps ih => rw [List.cons_append, leavesOf, leavesOf, ih, List.append_assoc]

section Split

variable {fits : A → L → Bool} {c : Compositor} {before after : List (Particle L)}
  {q : Particle L} {o : Occurs}

theorem Attributed.member (h : Attributed fits (.group c (before ++ q :: after) o)) :
    Attributed fits q := by
  rw [Attributed, leaves, leavesOf_append, leavesOf] at h
  exact (List.pairwise_append.mp (List.pairwise_append.mp h).2.1).1

theorem Attributed.not_names (h : Attributed fits (.group c (before ++ q :: after) o)) {a : A}
    (ha : Names fits q a) :
    (∀ r ∈ before, ¬ Names fits r a) ∧ ∀ r ∈ after, ¬ Names fits r a := by
  rw [Attributed, leaves, leavesOf_append, leavesOf, List.pairwise_append,
    List.pairwise_append] at h
  obtain ⟨-, ⟨-, -, hafter⟩, hbefore⟩ := h
  obtain ⟨t, ht, hfits⟩ := ha
  constructor
  · rintro r hr ⟨u, hu, hfits'⟩
    exact hbefore u (mem_leavesOf.mpr ⟨r, hr, hu⟩) t (List.mem_append_left _ ht) a
      ⟨hfits', hfits⟩
  · rintro r hr ⟨u, hu, hfits'⟩
    exact hafter t ht u (mem_leavesOf.mpr ⟨r, hr, hu⟩) a ⟨hfits, hfits'⟩

end Split

/-- Sane bounds, sequences and choices only, and no name that fits two leaves. -/
structure Plain (fits : A → L → Bool) (p : Particle L) : Prop where
  bounded : p.Bounded
  ordered : p.Ordered
  attributed : p.Attributed fits

theorem Plain.member {fits : A → L → Bool} {c : Compositor} {ms : List (Particle L)} {o : Occurs}
    (h : Plain fits (.group c ms o)) {q : Particle L} (hq : q ∈ ms) : Plain fits q := by
  obtain ⟨before, after, rfl⟩ := List.append_of_mem hq
  exact ⟨h.bounded.member hq, h.ordered.member hq, h.attributed.member⟩

theorem Plain.ne_all {fits : A → L → Bool} {c : Compositor} {ms : List (Particle L)} {o : Occurs}
    (h : Plain fits (.group c ms o)) : c ≠ .all := h.ordered.ne_all

theorem Plain.members_bounded {fits : A → L → Bool} {c : Compositor} {ms : List (Particle L)}
    {o : Occurs} (h : Plain fits (.group c ms o)) : ∀ q ∈ ms, q.Bounded :=
  fun _ hq => h.bounded.member hq

theorem Plain.split_unique {fits : A → L → Bool} {c : Compositor}
    {before after before' after' : List (Particle L)} {q q' : Particle L} {o : Occurs} {a : A}
    (h : Plain fits (.group c (before ++ q :: after) o)) (ha : Names fits q a)
    (heq : before ++ q :: after = before' ++ q' :: after') (ha' : Names fits q' a) :
    before = before' ∧ q = q' ∧ after = after' := by
  have hbefore := (h.attributed.not_names ha).1
  have hbefore' := ((heq ▸ h).attributed.not_names ha').1
  clear h
  induction before generalizing before' with
  | nil =>
    cases before' with
    | nil =>
      cases heq
      exact ⟨rfl, rfl, rfl⟩
    | cons r rs =>
      cases heq
      exact absurd ha (hbefore' _ List.mem_cons_self)
  | cons r rs ih =>
    cases before' with
    | nil =>
      cases heq
      exact absurd ha' (hbefore _ List.mem_cons_self)
    | cons r' rs' =>
      obtain ⟨rfl, htail⟩ := List.cons.inj heq
      obtain ⟨rfl, rfl, rfl⟩ := ih htail (fun x hx => hbefore x (List.mem_cons_of_mem _ hx))
        fun x hx => hbefore' x (List.mem_cons_of_mem _ hx)
      exact ⟨rfl, rfl, rfl⟩

/-! ## The names in a word -/

theorem spelled_language (fits : A → L → Bool) (p : Particle L) :
    Spelled (Names fits p) (p.language fits) := by
  induction p using Particle.induction with
  | leaf t o =>
    refine Spelled.repeats ?_ o
    rintro _ ⟨b, rfl, hb⟩ a ha
    rw [List.mem_singleton.mp ha]
    exact names_leaf.mpr hb
  | group c ms o ih =>
    rw [language_group]
    refine Spelled.repeats (Spelled.mono ?_ fun a => names_group.mpr) o
    cases c with
    | sequence =>
      change Spelled _ (inSequence fits ms)
      induction ms with
      | nil => exact .one _
      | cons p ps ihps =>
        obtain ⟨hp, hps⟩ := List.forall_mem_cons.mp ih
        exact (hp.mono fun a h => ⟨p, List.mem_cons_self, h⟩).mul
          ((ihps hps).mono fun a ⟨q, hq, h⟩ => ⟨q, List.mem_cons_of_mem _ hq, h⟩)
    | choice =>
      intro w hw a ha
      obtain ⟨q, hq, hw⟩ := mem_inChoice.mp hw
      exact ⟨q, hq, ih q hq w hw a ha⟩
    | all =>
      change Spelled _ (inAnyOrder fits ms)
      induction ms with
      | nil => exact .one _
      | cons p ps ihps =>
        obtain ⟨hp, hps⟩ := List.forall_mem_cons.mp ih
        exact (hp.mono fun a h => ⟨p, List.mem_cons_self, h⟩).interleave
          ((ihps hps).mono fun a ⟨q, hq, h⟩ => ⟨q, List.mem_cons_of_mem _ hq, h⟩)

theorem names_of_cons_mem_language {fits : A → L → Bool} {p : Particle L} {a : A} {w : List A}
    (h : a :: w ∈ p.language fits) : Names fits p a :=
  spelled_language fits p _ h a List.mem_cons_self

/-- Some child can belong to the particle. -/
def Live (fits : A → L → Bool) (p : Particle L) : Prop := ∃ a w, a :: w ∈ p.language fits

/-! ## Where a name belongs within a group -/

/-- What comes behind a member within the same occurrence. -/
def beyond (fits : A → L → Bool) (c : Compositor) (after : List (Particle L)) : Language A :=
  match c with
  | .sequence => inSequence fits after
  | _ => 1

theorem nil_mem_beyond {fits : A → L → Bool} {c : Compositor} {after : List (Particle L)} :
    [] ∈ beyond fits c after ↔ (c = .sequence → ∀ r ∈ after, [] ∈ r.language fits) := by
  cases c <;> simp [beyond, nil_mem_inSequence]

theorem cons_mem_inSequence {fits : A → L → Bool} {ms : List (Particle L)} {a : A} {w : List A}
    (h : a :: w ∈ inSequence fits ms) :
    ∃ before q after u v, ms = before ++ q :: after ∧ w = u ++ v ∧ a :: u ∈ q.language fits ∧
      v ∈ inSequence fits after ∧ ∀ r ∈ before, [] ∈ r.language fits := by
  induction ms with
  | nil => cases (Language.mem_one _).mp h
  | cons p ps ih =>
    rcases cons_mem_mul.mp h with ⟨u, v, rfl, hu, hv⟩ | ⟨hnil, h⟩
    · exact ⟨[], p, ps, u, v, rfl, rfl, hu, hv, by simp⟩
    · obtain ⟨before, q, after, u, v, rfl, rfl, hu, hv, hbefore⟩ := ih h
      exact ⟨p :: before, q, after, u, v, rfl, rfl, hu, hv,
        List.forall_mem_cons.mpr ⟨hnil, hbefore⟩⟩

/-- A word of a group begins within a member, and in a sequence the members before it are empty. -/
theorem cons_mem_groupLanguage {fits : A → L → Bool} {c : Compositor} (hc : c ≠ .all)
    {ms : List (Particle L)} {a : A} {w : List A} (h : a :: w ∈ groupLanguage fits c ms) :
    ∃ before q after u v, ms = before ++ q :: after ∧ w = u ++ v ∧ a :: u ∈ q.language fits ∧
      v ∈ beyond fits c after ∧ (c = .sequence → ∀ r ∈ before, [] ∈ r.language fits) := by
  cases c with
  | sequence =>
    obtain ⟨before, q, after, u, v, hms, hw, hu, hv, hbefore⟩ := cons_mem_inSequence h
    exact ⟨before, q, after, u, v, hms, hw, hu, hv, fun _ => hbefore⟩
  | choice =>
    obtain ⟨q, hq, hw⟩ := mem_inChoice.mp h
    obtain ⟨before, after, rfl⟩ := List.append_of_mem hq
    exact ⟨before, q, after, w, [], rfl, (List.append_nil w).symm, hw, Language.nil_mem_one,
      nofun⟩
  | all => exact absurd rfl hc

/-- A member with empty members around it makes up a word of the group alone. -/
theorem append_mem_groupLanguage {fits : A → L → Bool} {c : Compositor} (hc : c ≠ .all)
    {before after : List (Particle L)} {q : Particle L} {u v : List A}
    (hu : u ∈ q.language fits) (hv : v ∈ beyond fits c after)
    (hbefore : c = .sequence → ∀ r ∈ before, [] ∈ r.language fits) :
    u ++ v ∈ groupLanguage fits c (before ++ q :: after) := by
  cases c with
  | sequence =>
    rw [groupLanguage, inSequence_append]
    have hnil : [] ∈ inSequence fits before := nil_mem_inSequence.mpr (hbefore rfl)
    have huv := Language.append_mem_mul hu hv
    exact Language.mem_mul.mpr ⟨[], hnil, u ++ v, huv, rfl⟩
  | choice =>
    rw [(Language.mem_one v).mp hv, List.append_nil]
    exact mem_inChoice.mpr ⟨q, by simp, hu⟩
  | all => exact absurd rfl hc

end Particle

/-- An occurrence whose last child went to the member behind those that `ss` belongs to. -/
def Occurrence.reaching (ss : List Progress) (s : Progress) (after : List (Particle L)) :
    Occurrence := .mk (some ss.length) (ss ++ s :: after.map fun _ => .fresh)

namespace Progress

open Particle

/-! ## Refusal -/

section Refusal

variable {fits : L → Bool} {ms : List (Particle L)}

/-- The particle refuses the child at any point. -/
def Refuses (fits : L → Bool) (q : Particle L) : Prop := ∀ s, accept fits q s = none

theorem acceptFrom_eq_none (h : ∀ q ∈ ms, Refuses fits q) (ss : List Progress) (skip : Nat) :
    acceptFrom fits ms ss skip = none := by
  induction ms generalizing ss skip with
  | nil => cases ss <;> rfl
  | cons p ps ih =>
    obtain ⟨hp, hps⟩ := List.forall_mem_cons.mp h
    cases ss with
    | nil => rfl
    | cons s ss => cases skip <;> simp [acceptFrom, hp s, ih hps]

theorem acceptAt_eq_none (h : ∀ q ∈ ms, Refuses fits q) (ss : List Progress) (i : Nat) :
    acceptAt fits ms ss i = none := by
  induction ms generalizing ss i with
  | nil => cases ss <;> rfl
  | cons p ps ih =>
    obtain ⟨hp, hps⟩ := List.forall_mem_cons.mp h
    cases ss with
    | nil => rfl
    | cons s ss => cases i <;> simp [acceptAt, hp s, ih hps]

theorem acceptAny_eq_none (h : ∀ q ∈ ms, Refuses fits q) (ss : List Progress) :
    acceptAny fits ms ss = none := by
  induction ms generalizing ss with
  | nil => cases ss <;> rfl
  | cons p ps ih =>
    obtain ⟨hp, hps⟩ := List.forall_mem_cons.mp h
    cases ss with
    | nil => rfl
    | cons s ss => simp [acceptAny, hp s, ih hps]

theorem acceptGroup_eq_none (h : ∀ q ∈ ms, Refuses fits q) (c : Compositor)
    (occurrence : Occurrence) : acceptGroup fits c ms occurrence = none := by
  rcases occurrence with ⟨_ | i, states⟩ <;> cases c <;>
    simp [acceptGroup, acceptFrom_eq_none h, acceptAt_eq_none h, acceptAny_eq_none h]

end Refusal

theorem accept_eq_none {fits : A → L → Bool} {p : Particle L} {a : A} (h : ¬ Names fits p a) :
    Refuses (fits a) p := by
  induction p using Particle.induction with
  | leaf t o =>
    intro s
    rw [names_leaf] at h
    simp [accept_leaf, h]
  | group c ms o ih =>
    intro s
    have hms : ∀ q ∈ ms, Refuses (fits a) q := fun q hq =>
      ih q hq fun hn => h (names_group.mpr ⟨q, hq, hn⟩)
    rw [Option.eq_none_iff_forall_not_mem]
    rintro ⟨t, s'⟩ hacc
    rcases accept_group_eq_some_iff.mp hacc with ⟨_, _, -, hnext, -⟩ | ⟨-, -, _, hnext, -⟩ <;>
    · rw [acceptGroup_eq_none hms] at hnext
      cases hnext

theorem names_of_accept {fits : A → L → Bool} {p : Particle L} {a : A} {s s' : Progress} {t : L}
    (h : accept (fits a) p s = some (t, s')) : Names fits p a := by
  by_contra hn
  rw [accept_eq_none hn s] at h
  cases h

/-! ## Passing over members -/

section Passing

variable {fits : L → Bool} {before ms : List (Particle L)} {ss ss' : List Progress}

theorem satisfiedFrom_append (hlen : ss.length = before.length) (skip : Nat) :
    satisfiedFrom (before ++ ms) (ss ++ ss') (ss.length + skip) = satisfiedFrom ms ss' skip := by
  induction before generalizing ss with
  | nil =>
    obtain rfl := List.length_eq_zero_iff.mp hlen
    simp
  | cons p ps ih =>
    cases ss with
    | nil => cases hlen
    | cons s ss =>
      rw [List.cons_append, List.cons_append, List.length_cons, Nat.add_right_comm]
      exact ih (Nat.succ.inj hlen)

theorem satisfiedFrom_length (hlen : ss.length = before.length) :
    satisfiedFrom before ss ss.length = true := by
  have := @satisfiedFrom_append L before [] ss [] hlen 0
  simpa [satisfiedFrom] using this

theorem acceptFrom_pass (hlen : ss.length = before.length) {skip : Nat}
    (h : ∀ r ∈ before.drop skip, Refuses fits r) (hskip : skip ≤ ss.length)
    (hsat : satisfiedFrom before ss skip = true) :
    acceptFrom fits (before ++ ms) (ss ++ ss') skip =
      (acceptFrom fits ms ss' 0).map fun (t, i, states) => (t, ss.length + i, ss ++ states) := by
  induction before generalizing ss skip with
  | nil =>
    obtain rfl := List.length_eq_zero_iff.mp hlen
    obtain rfl : skip = 0 := by simpa using hskip
    rw [List.nil_append, List.nil_append]
    cases acceptFrom fits ms ss' 0 <;> simp
  | cons p ps ih =>
    cases ss with
    | nil => cases hlen
    | cons s ss =>
      have hlen' : ss.length = ps.length := Nat.succ.inj hlen
      cases skip with
      | zero =>
        obtain ⟨hp, hps⟩ := List.forall_mem_cons.mp h
        rw [satisfiedFrom, Bool.and_eq_true] at hsat
        rw [List.cons_append, List.cons_append, acceptFrom, hp s]
        simp only [hsat.1, if_true]
        have hdrop : ∀ r ∈ ps.drop 0, Refuses fits r := hps
        rw [ih hlen' hdrop (Nat.zero_le _) hsat.2]
        cases acceptFrom fits ms ss' 0 <;> simp [Nat.add_right_comm]
      | succ skip =>
        rw [satisfiedFrom] at hsat
        rw [List.cons_append, List.cons_append, acceptFrom,
          ih hlen' h (Nat.le_of_succ_le_succ hskip) hsat]
        cases acceptFrom fits ms ss' 0 <;> simp [Nat.add_right_comm]

theorem acceptFrom_append (hlen : ss.length = before.length) :
    acceptFrom fits (before ++ ms) (ss ++ ss') ss.length =
      (acceptFrom fits ms ss' 0).map fun (t, i, states) => (t, ss.length + i, ss ++ states) :=
  acceptFrom_pass hlen (by simp [hlen]) (Nat.le_refl _) (satisfiedFrom_length hlen)

theorem acceptAny_pass (hlen : ss.length = before.length) (h : ∀ r ∈ before, Refuses fits r) :
    acceptAny fits (before ++ ms) (ss ++ ss') =
      (acceptAny fits ms ss').map fun (t, i, states) => (t, ss.length + i, ss ++ states) := by
  induction before generalizing ss with
  | nil =>
    obtain rfl := List.length_eq_zero_iff.mp hlen
    rw [List.nil_append, List.nil_append]
    cases acceptAny fits ms ss' <;> simp
  | cons p ps ih =>
    obtain ⟨hp, hps⟩ := List.forall_mem_cons.mp h
    cases ss with
    | nil => cases hlen
    | cons s ss =>
      rw [List.cons_append, List.cons_append, acceptAny, hp s]
      dsimp only
      rw [ih (Nat.succ.inj hlen) hps]
      cases acceptAny fits ms ss' <;> simp [Nat.add_right_comm]

theorem acceptAt_append (hlen : ss.length = before.length) (i : Nat) :
    acceptAt fits (before ++ ms) (ss ++ ss') (ss.length + i) =
      (acceptAt fits ms ss' i).map fun (t, states) => (t, ss ++ states) := by
  induction before generalizing ss with
  | nil =>
    obtain rfl := List.length_eq_zero_iff.mp hlen
    rw [List.nil_append, List.nil_append, List.length_nil, Nat.zero_add]
    cases acceptAt fits ms ss' i <;> simp
  | cons p ps ih =>
    cases ss with
    | nil => cases hlen
    | cons s ss =>
      rw [List.cons_append, List.cons_append, List.length_cons, Nat.add_right_comm, acceptAt,
        ih (Nat.succ.inj hlen)]
      cases acceptAt fits ms ss' i <;> simp

theorem satisfiedAt_append (hlen : ss.length = before.length) (i : Nat) :
    satisfiedAt (before ++ ms) (ss ++ ss') (ss.length + i) = satisfiedAt ms ss' i := by
  induction before generalizing ss with
  | nil =>
    obtain rfl := List.length_eq_zero_iff.mp hlen
    simp
  | cons p ps ih =>
    cases ss with
    | nil => cases hlen
    | cons s ss =>
      rw [List.cons_append, List.cons_append, List.length_cons, Nat.add_right_comm]
      exact ih (Nat.succ.inj hlen)

end Passing

end Progress

end ScopedXml.Content
