import ScopedXml.Proofs.Content.Attribution

/-!
# Progress that can be reached

Behind at least one child, a group of sequences and choices has an occurrence under way that has
reached one of the members, while the members behind that one are untouched. All that can happen to
such an occurrence is told by two lemmas, one for each place from which a child can be taken.

* `Progress.acceptGroup_fresh_cases`, `Progress.acceptGroup_reaching_cases`: the member that takes a
  child, and those that were passed over.
* `Progress.Reached.group_cases`: the shape of the progress of a group.
* `Progress.accept_fresh`: a particle takes every name with which one of its words begins, and loses
  none of these words.
-/

namespace ScopedXml.Content

variable {A L : Type}

namespace Progress

open Particle

/-! ## From a fresh occurrence -/

section Fresh

variable {fits : L → Bool} {c : Compositor} {before after : List (Particle L)} {q : Particle L}
  {s : Progress} {t : L}

/-- The progress of members that no child has reached. -/
def untouched (ms : List (Particle L)) : List Progress := ms.map fun _ => fresh

@[simp] theorem length_untouched (ms : List (Particle L)) : (untouched ms).length = ms.length := by
  simp [untouched]

theorem untouched_append (ms ns : List (Particle L)) :
    untouched (ms ++ ns) = untouched ms ++ untouched ns := List.map_append

theorem untouched_cons (q : Particle L) (ms : List (Particle L)) :
    untouched (q :: ms) = fresh :: untouched ms := rfl

theorem acceptFrom_untouched_cases {ms : List (Particle L)} {i : Nat} {states : List Progress}
    (h : acceptFrom fits ms (untouched ms) 0 = some (t, i, states)) :
    ∃ before q after s, ms = before ++ q :: after ∧ i = before.length ∧
      states = untouched before ++ s :: untouched after ∧ accept fits q fresh = some (t, s) ∧
      emptiableAll before = true := by
  induction ms generalizing i states with
  | nil => simp [acceptFrom] at h
  | cons p ps ih =>
    rw [untouched_cons, acceptFrom] at h
    split at h
    · rename_i t' s' hs
      cases h
      exact ⟨[], p, ps, s', rfl, rfl, rfl, hs, rfl⟩
    · split at h
      · rename_i hsat
        rw [Option.map_eq_some_iff] at h
        obtain ⟨⟨_, j, ss⟩, h, heq⟩ := h
        cases heq
        obtain ⟨before, q, after, s, rfl, rfl, rfl, hs, hempty⟩ := ih h
        rw [satisfied_fresh] at hsat
        exact ⟨p :: before, q, after, s, rfl, rfl, rfl, hs, by rw [emptiableAll, hsat, hempty]; rfl⟩
      · cases h

theorem acceptAny_untouched_cases {ms : List (Particle L)} {i : Nat} {states : List Progress}
    (h : acceptAny fits ms (untouched ms) = some (t, i, states)) :
    ∃ before q after s, ms = before ++ q :: after ∧ i = before.length ∧
      states = untouched before ++ s :: untouched after ∧ accept fits q fresh = some (t, s) := by
  induction ms generalizing i states with
  | nil => simp [acceptAny] at h
  | cons p ps ih =>
    rw [untouched_cons, acceptAny] at h
    split at h
    · rename_i t' s' hs
      cases h
      exact ⟨[], p, ps, s', rfl, rfl, rfl, hs⟩
    · rw [Option.map_eq_some_iff] at h
      obtain ⟨⟨_, j, ss⟩, h, heq⟩ := h
      cases heq
      obtain ⟨before, q, after, s, rfl, rfl, rfl, hs⟩ := ih h
      exact ⟨p :: before, q, after, s, rfl, rfl, rfl, hs⟩

theorem acceptGroup_fresh_cases (hc : c ≠ .all) {ms : List (Particle L)} {next : Occurrence}
    (h : acceptGroup fits c ms (.fresh ms) = some (t, next)) :
    ∃ before q after s, ms = before ++ q :: after ∧ accept fits q fresh = some (t, s) ∧
      next = .reaching (untouched before) s after ∧
      (c = .sequence → emptiableAll before = true) := by
  cases c with
  | sequence =>
    rw [Occurrence.fresh, acceptGroup, Option.map_eq_some_iff] at h
    obtain ⟨⟨_, i, states⟩, h, heq⟩ := h
    cases heq
    obtain ⟨before, q, after, s, rfl, rfl, rfl, hs, hempty⟩ := acceptFrom_untouched_cases h
    refine ⟨before, q, after, s, rfl, hs, ?_, fun _ => hempty⟩
    rw [Occurrence.reaching, length_untouched]
    rfl
  | choice =>
    rw [Occurrence.fresh, acceptGroup, Option.map_eq_some_iff] at h
    obtain ⟨⟨_, i, states⟩, h, heq⟩ := h
    cases heq
    obtain ⟨before, q, after, s, rfl, rfl, rfl, hs⟩ := acceptAny_untouched_cases h
    refine ⟨before, q, after, s, rfl, hs, ?_, fun hc => by cases hc⟩
    rw [Occurrence.reaching, length_untouched]
    rfl
  | all => exact absurd rfl hc

theorem acceptGroup_fresh (hc : c ≠ .all) (hbefore : ∀ r ∈ before, Refuses fits r)
    (hempty : c = .sequence → emptiableAll before = true)
    (h : accept fits q fresh = some (t, s)) :
    acceptGroup fits c (before ++ q :: after) (.fresh (before ++ q :: after)) =
      some (t, .reaching (untouched before) s after) := by
  have hlen := length_untouched before
  cases c with
  | sequence =>
    have hsat : satisfiedFrom before (untouched before) 0 = true :=
      (satisfiedFrom_fresh before).trans (hempty rfl)
    have hpass := @acceptFrom_pass L fits before (q :: after) (untouched before)
      (untouched (q :: after)) hlen 0 hbefore (Nat.zero_le _) hsat
    rw [Occurrence.fresh, acceptGroup]
    change (acceptFrom fits (before ++ q :: after) (untouched (before ++ q :: after)) 0).map _ = _
    rw [untouched_append, hpass, untouched_cons, acceptFrom, h]
    rfl
  | choice =>
    have hpass := @acceptAny_pass L fits before (q :: after) (untouched before)
      (untouched (q :: after)) hlen hbefore
    rw [Occurrence.fresh, acceptGroup]
    change (acceptAny fits (before ++ q :: after) (untouched (before ++ q :: after))).map _ = _
    rw [untouched_append, hpass, untouched_cons, acceptAny, h]
    rfl
  | all => exact absurd rfl hc

end Fresh

/-! ## From a member on -/

section Reaching

variable {fits : L → Bool} {c : Compositor} {before after : List (Particle L)} {q : Particle L}
  {ss : List Progress} {s s' : Progress} {t : L}

theorem acceptGroup_reaching (hc : c ≠ .all) (hlen : ss.length = before.length)
    (h : accept fits q s = some (t, s')) :
    acceptGroup fits c (before ++ q :: after) (.reaching ss s after) =
      some (t, .reaching ss s' after) := by
  cases c with
  | sequence =>
    rw [Occurrence.reaching, acceptGroup, Option.getD_some, acceptFrom_append hlen, acceptFrom, h]
    rfl
  | choice =>
    have happ := @acceptAt_append L fits before (q :: after) ss (s :: untouched after) hlen 0
    rw [Nat.add_zero, acceptAt, h] at happ
    rw [Occurrence.reaching, acceptGroup]
    change (acceptAt fits (before ++ q :: after) (ss ++ s :: untouched after) ss.length).map _ = _
    rw [happ]
    rfl
  | all => exact absurd rfl hc

/-- All that can happen to a child from a member on: the member takes it, or in a sequence the
member may end, and a later one takes it. -/
theorem acceptGroup_reaching_cases (hc : c ≠ .all) (hlen : ss.length = before.length)
    {next : Occurrence}
    (h : acceptGroup fits c (before ++ q :: after) (.reaching ss s after) = some (t, next)) :
    (∃ s', accept fits q s = some (t, s') ∧ next = .reaching ss s' after) ∨
    (c = .sequence ∧ accept fits q s = none ∧ satisfied q s = true ∧
      ∃ between r later s', after = between ++ r :: later ∧ emptiableAll between = true ∧
        accept fits r fresh = some (t, s') ∧
        next = .reaching (ss ++ s :: untouched between) s' later) := by
  cases c with
  | sequence =>
    rw [Occurrence.reaching, acceptGroup, Option.getD_some, acceptFrom_append hlen, acceptFrom] at h
    split at h
    · rename_i t' s' hs
      cases h
      exact Or.inl ⟨s', hs, rfl⟩
    · rename_i hs
      split at h
      · rename_i hsat
        simp only [Option.map_map, Option.map_eq_some_iff] at h
        obtain ⟨⟨_, i, states⟩, h, heq⟩ := h
        cases heq
        obtain ⟨between, r, later, s', rfl, rfl, rfl, hr, hempty⟩ := acceptFrom_untouched_cases h
        refine Or.inr ⟨rfl, hs, hsat, between, r, later, s', rfl, hempty, hr, ?_⟩
        simp [Occurrence.reaching, untouched]
      · cases h
  | choice =>
    have happ := @acceptAt_append L fits before (q :: after) ss (s :: untouched after) hlen 0
    rw [Nat.add_zero, acceptAt] at happ
    rw [Occurrence.reaching, acceptGroup] at h
    change (acceptAt fits (before ++ q :: after) (ss ++ s :: untouched after) ss.length).map _ = _
      at h
    rw [happ, Option.map_map, Option.map_map, Option.map_eq_some_iff] at h
    obtain ⟨⟨_, s'⟩, h, heq⟩ := h
    cases heq
    exact Or.inl ⟨s', h, rfl⟩
  | all => exact absurd rfl hc

theorem acceptGroup_reaching_later {between later : List (Particle L)} {r : Particle L}
    (hlen : ss.length = before.length) (hq : accept fits q s = none)
    (hsat : satisfied q s = true) (hbetween : ∀ x ∈ between, Refuses fits x)
    (hempty : emptiableAll between = true) (h : accept fits r fresh = some (t, s')) :
    acceptGroup fits .sequence (before ++ q :: (between ++ r :: later))
        (.reaching ss s (between ++ r :: later)) =
      some (t, .reaching (ss ++ s :: untouched between) s' later) := by
  have hpass := @acceptFrom_pass L fits between (r :: later) (untouched between)
    (untouched (r :: later)) (length_untouched between) 0 hbetween (Nat.zero_le _)
    ((satisfiedFrom_fresh between).trans hempty)
  have htail : (between ++ r :: later).map (fun _ => fresh) =
      untouched between ++ untouched (r :: later) := untouched_append _ _
  rw [Occurrence.reaching, acceptGroup, Option.getD_some, acceptFrom_append hlen, acceptFrom, hq]
  simp only [hsat, if_true, htail, hpass]
  rw [untouched_cons, acceptFrom, h]
  simp [Occurrence.reaching, untouched]

/-- When the member that has been reached refuses a child, the group can only take it in a later
member, and not at all before the member may end. -/
theorem acceptGroup_reaching_eq_none (hc : c ≠ .all) (hlen : ss.length = before.length)
    (h : accept fits q s = none) (hstop : satisfied q s = false ∨ ∀ r ∈ after, Refuses fits r) :
    acceptGroup fits c (before ++ q :: after) (.reaching ss s after) = none := by
  rw [Option.eq_none_iff_forall_not_mem]
  rintro ⟨t, next⟩ hnext
  rcases acceptGroup_reaching_cases hc hlen hnext with
    ⟨s', hs, -⟩ | ⟨-, -, hsat, between, r, later, s', rfl, -, hr, -⟩
  · rw [h] at hs
    cases hs
  · rcases hstop with hstop | hstop
    · rw [hsat] at hstop
      cases hstop
    · rw [hstop r (by simp)] at hr
      cases hr

theorem satisfiedGroup_reaching (hc : c ≠ .all) (hlen : ss.length = before.length) :
    satisfiedGroup c (before ++ q :: after) (.reaching ss s after) = true ↔
      satisfied q s = true ∧ (c = .sequence → emptiableAll after = true) := by
  cases c with
  | sequence =>
    have happ := @satisfiedFrom_append L before (q :: after) ss (s :: untouched after) hlen 0
    rw [Nat.add_zero, satisfiedFrom, untouched, satisfiedFrom_fresh] at happ
    rw [Occurrence.reaching, satisfiedGroup, Option.getD_some, happ, Bool.and_eq_true]
    simp
  | choice =>
    have happ := @satisfiedAt_append L before (q :: after) ss (s :: untouched after) hlen 0
    rw [Nat.add_zero, satisfiedAt] at happ
    rw [Occurrence.reaching, satisfiedGroup]
    simpa [untouched] using congrArg (· = true) happ
  | all => exact absurd rfl hc

theorem restGroup_reaching (fits : A → L → Bool) (hc : c ≠ .all)
    (hlen : ss.length = before.length) :
    restGroup fits c (before ++ q :: after) (.reaching ss s after) =
      rest fits q s * beyond fits c after := by
  cases c with
  | sequence =>
    rw [Occurrence.reaching, restGroup, Option.getD_some, beyond, ← restFrom_fresh]
    induction before generalizing ss with
    | nil =>
      obtain rfl := List.length_eq_zero_iff.mp hlen
      rfl
    | cons p ps ih =>
      cases ss with
      | nil => cases hlen
      | cons s ss => exact ih (Nat.succ.inj hlen)
  | choice =>
    rw [Occurrence.reaching, restGroup, beyond, mul_one]
    swap
    · intro h
      cases h
    induction before generalizing ss with
    | nil =>
      obtain rfl := List.length_eq_zero_iff.mp hlen
      rfl
    | cons p ps ih =>
      cases ss with
      | nil => cases hlen
      | cons s ss => exact ih (Nat.succ.inj hlen)
  | all => exact absurd rfl hc

end Reaching

/-! ## Reached progress -/

/-- The progress behind some children, one at least. -/
def Reached (fits : A → L → Bool) (p : Particle L) (s : Progress) : Prop :=
  ∃ w, w ≠ [] ∧ run fits p fresh w = some s

theorem run_concat_eq_some_iff {fits : A → L → Bool} {p : Particle L} {s s' : Progress}
    {w : List A} {a : A} :
    run fits p s (w ++ [a]) = some s' ↔
      ∃ s₁ t, run fits p s w = some s₁ ∧ accept (fits a) p s₁ = some (t, s') := by
  rw [run_append_eq_some_iff]
  constructor
  · rintro ⟨s₁, hw, ha⟩
    obtain ⟨t, s₂, hacc, hnil⟩ := run_cons_eq_some_iff.mp ha
    cases hnil
    exact ⟨s₁, t, hw, hacc⟩
  · rintro ⟨s₁, t, hw, hacc⟩
    exact ⟨s₁, hw, run_cons_eq_some_iff.mpr ⟨t, s', hacc, rfl⟩⟩

theorem reached_of_accept_fresh {fits : A → L → Bool} {p : Particle L} {s : Progress} {a : A}
    {t : L} (h : accept (fits a) p fresh = some (t, s)) : Reached fits p s :=
  ⟨[a], nofun, run_cons_eq_some_iff.mpr ⟨t, s, h, rfl⟩⟩

namespace Reached

variable {fits : A → L → Bool} {p : Particle L} {s : Progress}

theorem accept {s' : Progress} (h : Reached fits p s) {a : A} {t : L}
    (hacc : accept (fits a) p s = some (t, s')) : Reached fits p s' := by
  obtain ⟨w, -, hw⟩ := h
  exact ⟨w ++ [a], by simp, run_concat_eq_some_iff.mpr ⟨s, t, hw, hacc⟩⟩

theorem leaf_cases {t : L} {o : Occurs} (h : Reached fits (.leaf t o) s) :
    ∃ n, s = mk (n + 1) none := by
  obtain ⟨w, hne, hw⟩ := h
  obtain ⟨u, a, rfl⟩ := (List.eq_nil_or_concat' w).resolve_left hne
  obtain ⟨s₁, t', -, hacc⟩ := run_concat_eq_some_iff.mp hw
  rw [accept_leaf] at hacc
  split at hacc
  · cases hacc
    exact ⟨s₁.count, rfl⟩
  · cases hacc

/-- **Shape.** The occurrence under way has reached one member of the group, which has itself been
reached, and the members behind it are untouched. -/
theorem group_cases {c : Compositor} (hc : c ≠ .all) {ms : List (Particle L)} {o : Occurs}
    (h : Reached fits (.group c ms o) s) :
    ∃ n before q after ss s', ms = before ++ q :: after ∧ ss.length = before.length ∧
      s = mk (n + 1) (some (.reaching ss s' after)) ∧ Reached fits q s' := by
  obtain ⟨w, hne, hw⟩ := h
  induction w using List.reverseRecOn generalizing s with
  | nil => exact absurd rfl hne
  | append_singleton w a ih =>
    obtain ⟨s₁, t, hrun, hacc⟩ := run_concat_eq_some_iff.mp hw
    rcases accept_group_eq_some_iff.mp hacc with
      ⟨occurrence, next, hcur, hnext, rfl⟩ | ⟨-, -, next, hnext, rfl⟩
    · have hw' : w ≠ [] := by
        rintro rfl
        cases hrun
        cases hcur
      obtain ⟨n, before, q, after, ss, s', rfl, hlen, rfl, hs'⟩ := ih hw' hrun
      cases hcur
      rcases acceptGroup_reaching_cases hc hlen hnext with
        ⟨s₂, hs₂, rfl⟩ | ⟨rfl, -, -, between, r, later, s₂, rfl, -, hs₂, rfl⟩
      · exact ⟨n, before, q, after, ss, s₂, rfl, hlen, rfl, hs'.accept hs₂⟩
      · refine ⟨n, before ++ q :: between, r, later, ss ++ s' :: untouched between, s₂, by simp, ?_,
          rfl, reached_of_accept_fresh hs₂⟩
        simp [hlen]
    · obtain ⟨before, q, after, s₂, rfl, hs₂, rfl, -⟩ := acceptGroup_fresh_cases hc hnext
      exact ⟨s₁.count, before, q, after, untouched before, s₂, rfl, length_untouched before, rfl,
        reached_of_accept_fresh hs₂⟩

end Reached

/-! ## The first child -/

theorem emptiableAll_iff {ms : List (Particle L)} :
    emptiableAll ms = true ↔ ∀ q ∈ ms, q.emptiable = true := by
  induction ms with
  | nil => simp [emptiableAll]
  | cons p ps ih => simp [emptiableAll, ih]

theorem emptiableAll_of_nil_mem {fits : A → L → Bool} {ms : List (Particle L)}
    (hb : ∀ q ∈ ms, q.Bounded) (h : ∀ q ∈ ms, [] ∈ q.language fits) : emptiableAll ms = true :=
  emptiableAll_iff.mpr fun q hq => (emptiable_iff_nil_mem_language (hb q hq)).mpr (h q hq)

theorem acceptGroup_fresh_of_cons_mem {fits : A → L → Bool} {c : Compositor}
    {ms : List (Particle L)} {o : Occurs} (hp : Plain fits (.group c ms o)) {a : A} {w : List A}
    (hms : ∀ q ∈ ms, ∀ u, a :: u ∈ q.language fits →
      ∃ t s, accept (fits a) q fresh = some (t, s) ∧ u ∈ rest fits q s)
    (h : a :: w ∈ groupLanguage fits c ms) :
    ∃ before q after t s, ms = before ++ q :: after ∧ accept (fits a) q fresh = some (t, s) ∧
      acceptGroup (fits a) c ms (.fresh ms) = some (t, .reaching (untouched before) s after) ∧
      w ∈ restGroup fits c ms (.reaching (untouched before) s after) ∧
      (c = .sequence → emptiableAll before = true) := by
  obtain ⟨before, q, after, u, v, rfl, rfl, hu, hv, hbefore⟩ := cons_mem_groupLanguage hp.ne_all h
  obtain ⟨t, s, hacc, hrest⟩ := hms q (by simp) u hu
  have hrefuse : ∀ r ∈ before, Refuses (fits a) r := fun r hr =>
    accept_eq_none ((hp.attributed.not_names (names_of_cons_mem_language hu)).1 r hr)
  have hempty : c = .sequence → emptiableAll before = true := fun hc =>
    emptiableAll_of_nil_mem (fun r hr => hp.members_bounded r (by simp [hr])) (hbefore hc)
  refine ⟨before, q, after, t, s, rfl, hacc,
    acceptGroup_fresh hp.ne_all hrefuse hempty hacc, ?_, hempty⟩
  rw [restGroup_reaching fits hp.ne_all (length_untouched before)]
  exact Language.append_mem_mul hrest hv

/-- **The first child.** A particle takes every name with which one of its words begins, and the
rest of the word may still come. -/
theorem accept_fresh {fits : A → L → Bool} {p : Particle L} (hp : Plain fits p) {a : A}
    {w : List A} (h : a :: w ∈ p.language fits) :
    ∃ t s, accept (fits a) p fresh = some (t, s) ∧ w ∈ rest fits p s := by
  induction p using Particle.induction generalizing w with
  | leaf t o =>
    rw [language_leaf, ← Occurs.after_zero o] at h
    obtain ⟨hroom, u, v, rfl, hu, hv⟩ := Occurs.cons_mem_repeats_after h
    obtain ⟨rfl, hfits⟩ := cons_mem_letter.mp hu
    refine ⟨t, mk 1 none, ?_, hv⟩
    simp [accept_leaf, hroom, hfits]
  | group c ms o ih =>
    rw [language_group, ← Occurs.after_zero o] at h
    obtain ⟨hroom, u, v, rfl, hu, hv⟩ := Occurs.cons_mem_repeats_after h
    obtain ⟨before, q, after, t, s, -, -, hnext, hrest, -⟩ :=
      acceptGroup_fresh_of_cons_mem hp (fun q hq w hw => ih q hq (hp.member hq) hw) hu
    refine ⟨t, mk 1 (some (.reaching (untouched before) s after)), ?_, ?_⟩
    · exact accept_group_eq_some_iff.mpr (Or.inr ⟨nofun, hroom, _, hnext, rfl⟩)
    · rw [rest_group]
      exact Language.append_mem_mul hrest hv

theorem acceptGroup_fresh_of_mem {fits : A → L → Bool} {c : Compositor} {ms : List (Particle L)}
    {o : Occurs} (hp : Plain fits (.group c ms o)) {a : A} {w : List A}
    (h : a :: w ∈ groupLanguage fits c ms) :
    ∃ t next, acceptGroup (fits a) c ms (.fresh ms) = some (t, next) ∧
      w ∈ restGroup fits c ms next := by
  obtain ⟨before, q, after, t, s, -, -, hnext, hrest, -⟩ :=
    acceptGroup_fresh_of_cons_mem hp (fun q hq u hu => accept_fresh (hp.member hq) hu) h
  exact ⟨t, _, hnext, hrest⟩

end Progress

end ScopedXml.Content
