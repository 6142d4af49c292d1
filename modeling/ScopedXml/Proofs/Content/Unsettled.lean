import ScopedXml.Proofs.Content.Stranding

/-!
# Models that are not settled

A model that is not settled has a word that gets stuck. A member that gets stuck makes its group get
stuck; and where the members are settled, there are three ways for a group not to be steady.

* `Progress.stranded_of_not_enough`: one occurrence swallows the next, but more than one is needed.
* `Progress.stranded_of_full`: one occurrence swallows half of the next.
* `Progress.stranded_of_member`: a member gets stuck in some occurrence.
* `Progress.settled_or_stranded`: there are no other models than settled ones and stranded ones.
-/

namespace ScopedXml.Content

variable {A L : Type}

namespace Particle

variable {fits : A → L → Bool} {c : Compositor} {ms : List (Particle L)} {o : Occurs}

theorem Plain.withOccurs (hp : Plain fits (.group c ms o)) {o' : Occurs} (ho : o'.Sane) :
    Plain fits (.group c ms o') where
  bounded := by
    intro q hq
    cases hq with
    | self _ => exact ho
    | member hq hr => exact hp.bounded _ (.member hq hr)
  ordered := by
    intro ns on hq
    cases hq with
    | self _ => exact hp.ordered _ o (.self _)
    | member hq hr => exact hp.ordered ns on (.member hq hr)
  attributed := hp.attributed

theorem nil_notMem_of_not_enough (hp : Bounded (.group c ms o))
    (hone : ¬ Enough fits (.group c ms o) 1) : [] ∉ Particle.language fits (.group c ms o) := by
  intro hnil
  rw [language_group, ← Occurs.after_zero o] at hnil
  exact hone (((Occurs.nil_mem_repeats_after hp.sane).mp hnil).imp_left fun h => by
    have : o.least ≤ 0 := h
    exact Nat.le_trans this (Nat.zero_le 1))

theorem exists_first {P : Particle L → Prop} (h : ¬ ∀ q ∈ ms, P q) :
    ∃ before q after, ms = before ++ q :: after ∧ (∀ r ∈ before, P r) ∧ ¬ P q := by
  induction ms with
  | nil => exact absurd (fun _ hq => nomatch hq) h
  | cons p ps ih =>
    by_cases hp : P p
    · obtain ⟨before, q, after, rfl, hbefore, hq⟩ := ih fun hps => h (List.forall_mem_cons.mpr
        ⟨hp, hps⟩)
      exact ⟨p :: before, q, after, rfl, List.forall_mem_cons.mpr ⟨hp, hbefore⟩, hq⟩
    · exact ⟨[], p, ps, rfl, nofun, hp⟩

end Particle

namespace Progress

open Particle

variable {fits : A → L → Bool}

/-! ## One occurrence swallows the next -/

theorem stranded_of_shortest {p : Particle L} (hp : p.Bounded) {P : A → Prop} {h : List A}
    (hh : Shortest P (p.language fits) h) (hnil : [] ∉ p.language fits) (hm : ¬ Matches fits p h) :
    Stranded fits p := by
  refine @stranded_of_run A L fits p fresh [] h hh.mem rfl fun v v' s hsplit hrun => ?_
  rw [Bool.eq_false_iff]
  intro hsat
  have hv := mem_language_of_matches hp ⟨s, hrun, hsat⟩
  have hne : v ≠ [] := by
    rintro rfl
    exact hnil hv
  have hle := hh.le v hv hne fun a ha => hh.spelled a (hsplit ▸ List.mem_append_left v' ha)
  rw [hsplit, List.length_append] at hle
  obtain rfl : v' = [] := List.length_eq_zero_iff.mp (by omega)
  rw [List.append_nil] at hsplit
  exact hm ⟨s, hsplit ▸ hrun, hsat⟩

/-- More than one occurrence is needed, but the first one goes on where the second should begin. -/
theorem stranded_of_not_enough {c : Compositor} {before after : List (Particle L)}
    {q r : Particle L} {o : Occurs} (hp : Plain fits (.group c (before ++ q :: after) o))
    (hone : ¬ Enough fits (.group c (before ++ q :: after) o) 1)
    (halone : Alone fits c before after) (hr : Fills fits q r) (hel : Elastic fits r) :
    Stranded fits (.group c (before ++ q :: after) o) := by
  obtain ⟨h, hh, hq⟩ := exists_shortest_stretches (hp.member (by simp)) hr hel
  have hP : ∀ a, Names fits r a → Names fits q a := fun a => names_of_part hr.part
  have hgroup := shortest_groupLanguage hp halone hP hh
  exact stranded_of_shortest hp.bounded (shortest_of_not_enough hp hone hgroup)
    (nil_notMem_of_not_enough hp.bounded hone) (not_matches_power hp hone hP hgroup hq)

/-! ## Occurrences that stop -/

section Group

variable {c : Compositor} {ms : List (Particle L)} {o : Occurs}

theorem runGroup_shape (hp : Plain fits (.group c ms o)) {w : List A} (hne : w ≠ [])
    {occurrence : Occurrence} (h : runGroup fits c ms (.fresh ms) w = some occurrence) :
    ∃ before q after ss s, ms = before ++ q :: after ∧ ss.length = before.length ∧
      occurrence = .reaching ss s after ∧ Reached fits q s := by
  have hs : Reached fits (.group c ms .once) (mk 1 (some occurrence)) :=
    ⟨w, hne, run_of_runGroup rfl hne h⟩
  obtain ⟨n, before, q, after, ss, s, hms, hlen, heq, hs'⟩ := hs.group_cases hp.ne_all
  cases heq
  exact ⟨before, q, after, ss, s, hms, hlen, rfl, hs'⟩

/-- In a steady group of which one occurrence is not enough, an occurrence that may end does not go
on where another could begin. -/
theorem acceptGroup_stops (hp : Plain fits (.group c ms o)) (hsteady : Steady fits (.group c ms o))
    (hone : ¬ Enough fits (.group c ms o) 1) (hroom : o.roomAfter 1 = true) {w : List A}
    (hne : w ≠ []) {occurrence : Occurrence}
    (hrun : runGroup fits c ms (.fresh ms) w = some occurrence)
    (hsat : satisfiedGroup c ms occurrence = true) {a : A} {u : List A}
    (hu : a :: u ∈ groupLanguage fits c ms) : acceptGroup (fits a) c ms occurrence = none := by
  obtain ⟨before, q, after, ss, s, rfl, hlen, rfl, hs⟩ := runGroup_shape hp hne hrun
  rw [Option.eq_none_iff_forall_not_mem]
  rintro ⟨t, next⟩ hnext
  exact hone (enough_of_acceptGroup hp hsteady hroom hlen hs hsat hu hnext)

theorem runGroup_of_settled (hp : Plain fits (.group c ms o))
    (hset : ∀ q ∈ ms, Settled fits q) {w : List A} (hne : w ≠ [])
    (hw : w ∈ groupLanguage fits c ms) :
    ∃ occurrence, runGroup fits c ms (.fresh ms) w = some occurrence ∧
      satisfiedGroup c ms occurrence = true := by
  have hplain : Plain fits (.group c ms .once) := hp.withOccurs fun m hm => by
    cases hm
    exact Nat.le_refl 1
  have hsettled : Settled fits (.group c ms .once) := by
    intro q hq
    cases hq with
    | self _ =>
      rintro c before q after o heq hroom
      cases heq
      cases hroom
    | member _ hq hr => exact hset _ hq _ hr
  have hone : w ∈ Particle.language fits (.group c ms .once) :=
    mem_language_of_term hplain.bounded rfl (Or.inl (Nat.le_refl 1)) hw
  obtain ⟨s, hrun, hsat⟩ := matches_of_mem_language hplain hsettled hone
  have hcount := (Reached.count_bounds ⟨w, hne, hrun⟩ : _).2 1 rfl
  obtain ⟨n, u, v, occurrence, rfl, hsplit, hu, -, hgroup⟩ :=
    run_cases hplain.members_bounded hne hrun
  obtain rfl : n = 0 := by
    rw [count_mk] at hcount
    omega
  obtain rfl := (Language.mem_one u).mp hu
  obtain rfl : w = v := hsplit
  exact ⟨occurrence, hgroup, ((satisfied_group_iff fits hplain.bounded rfl).mp hsat).1⟩

end Group

/-! ## One occurrence swallows half of the next -/

theorem run_leaf_power {t : L} {o : Occurs} {a : A} (ha : fits a t = true) {n : Nat}
    (hmost : ∀ m ∈ o.most, n ≤ m) :
    run fits (.leaf t o) fresh (power [a] n) = some (mk n none) := by
  induction n with
  | zero => rfl
  | succ n ih =>
    have hroom : o.roomAfter (mk n none).count = true := Occurs.roomAfter_iff.mpr hmost
    rw [power_succ']
    refine run_concat_eq_some_iff.mpr ⟨_, t, ih fun m hm => Nat.le_of_succ_le (hmost m hm), ?_⟩
    rw [accept_leaf, hroom, ha]
    rfl

/-- A settled particle of which one occurrence is not enough takes as many words as the bounds
allow, each in an occurrence of its own, and then no more. -/
theorem run_full {p : Particle L} (hp : Plain fits p) (hset : Settled fits p) (hlive : Live fits p)
    (hone : ¬ Enough fits p 1) {m : Nat} (hm : p.occurs.most = some m) {a : A} {w : List A}
    (hw : a :: w ∈ p.term fits) :
    ∃ s, run fits p fresh (power (a :: w) m) = some s ∧ satisfied p s = true ∧
      accept (fits a) p s = none := by
  have hleast : ¬ p.occurs.least ≤ 1 := fun h => hone (Or.inl h)
  have hsane := hp.bounded.sane m hm
  have hfull : p.occurs.roomAfter m = false := by
    rw [Occurs.roomAfter, hm]
    simp
  cases p with
  | leaf t o =>
    obtain ⟨rfl, ha⟩ := cons_mem_letter.mp hw
    have hrun := @run_leaf_power A L fits t o a ha m fun m' hm' => by
      cases hm.symm.trans hm'
      exact Nat.le_refl m
    refine ⟨mk m none, hrun, decide_eq_true hsane, ?_⟩
    have hfull' : o.roomAfter (mk m none).count = false := hfull
    rw [accept_leaf, hfull']
    rfl
  | group c ms o =>
    have hroom : o.roomAfter 1 = true := Occurs.roomAfter_iff.mpr fun m' hm' => by
      cases hm.symm.trans hm'
      exact (Nat.lt_of_not_le hleast).trans_le hsane
    obtain ⟨occurrence, hrun, hsat⟩ := runGroup_of_settled hp (fun q hq => hset.member hlive hq)
      (List.cons_ne_nil a w) hw
    have hstop := acceptGroup_stops hp hset.steady hone hroom (List.cons_ne_nil a w) hrun hsat hw
    obtain ⟨n, rfl⟩ : ∃ n, m = n + 1 := ⟨m - 1, by omega⟩
    refine ⟨_, run_power hrun hsat hstop fun m' hm' => ?_,
      (satisfied_group_iff fits hp.bounded rfl).mpr ⟨hsat, Or.inl hsane⟩, ?_⟩
    · cases hm.symm.trans hm'
      exact Nat.le_refl _
    · have hfull' : o.roomAfter (n + 1) = false := hfull
      rw [accept_group]
      simp [hstop, hsat, acceptAnew, hfull']

section Within

variable {p r : Particle L}

/-- In a settled model, only groups that occur once are filled by an elastic particle that needs
more than one occurrence and cannot go on forever. -/
theorem no_room_of_fills {c : Compositor} {before after : List (Particle L)} {q : Particle L}
    {o : Occurs} (hset : Settled fits (.group c (before ++ q :: after) o))
    (halone : Alone fits c before after) (hr : Fills fits q r) (hel : Elastic fits r)
    (hbad : ¬ (Enough fits r 1 ∨ r.occurs.most = none)) : o.roomAfter 1 = false := by
  rw [Bool.eq_false_iff]
  intro hroom
  exact hbad (hset.steady c before q after o rfl hroom halone r hr hel).2

theorem enough_of_no_room {p : Particle L} (hp : p.Bounded) (h : p.occurs.roomAfter 1 = false) :
    Enough fits p 1 := by
  cases hmost : p.occurs.most with
  | none =>
    rw [Occurs.roomAfter, hmost] at h
    cases h
  | some m =>
    have hm : m ≤ 1 := by simpa [Occurs.roomAfter, hmost] using h
    exact Or.inl ((hp.sane m hmost).trans hm)

theorem mem_language_of_fills (hp : Plain fits p) (hset : Settled fits p) (hr : Fills fits p r)
    (hel : Elastic fits r) (hbad : ¬ (Enough fits r 1 ∨ r.occurs.most = none)) {w : List A}
    (hw : w ∈ r.language fits) : w ∈ p.language fits := by
  induction hr with
  | self _ => exact hw
  | @member c before after o q r hlive halone hr ih =>
    have hq := ih (hp.member (by simp)) (hset.member hlive (by simp)) hel hbad hw
    obtain ⟨a, u, hau⟩ := hlive
    exact mem_language_of_term hp.bounded (exists_term_of_cons_mem hau).1
      (enough_of_no_room hp.bounded (no_room_of_fills hset halone hr hel hbad))
      (halone.mem_groupLanguage hp.ne_all hq)

theorem le_length_of_fills (hp : Plain fits p) (hr : Fills fits p r) {k : Nat}
    (h : ∀ w ∈ r.language fits, w ≠ [] → (∀ a ∈ w, Names fits r a) → k ≤ w.length) {w : List A}
    (hw : w ∈ p.language fits) (hne : w ≠ []) (hnames : ∀ a ∈ w, Names fits r a) :
    k ≤ w.length := by
  induction hr generalizing w with
  | self _ => exact h w hw hne hnames
  | @member c before after o q r hlive halone hr ih =>
    cases w with
    | nil => exact absurd rfl hne
    | cons a w =>
      obtain ⟨-, u, v, rfl, hu, -⟩ := exists_term_of_cons_mem hw
      have hau : ∀ b ∈ a :: u, Names fits r b := fun b hb => hnames b (List.mem_append_left v hb)
      have hq := mem_language_of_confined hp (List.cons_ne_nil a u)
        (fun b hb => names_of_part hr.part (hau b hb)) hu
      have := ih (hp.member (by simp)) h hq (List.cons_ne_nil a u) hau
      simp only [List.length_cons, List.length_append] at this ⊢
      omega

/-- Where a member can make up an occurrence of its group, the occurrence may end, and stops, where
the member may end and stops. -/
theorem runGroup_alone {c : Compositor} {before after : List (Particle L)} {q : Particle L}
    {o : Occurs} (hp : Plain fits (.group c (before ++ q :: after) o))
    (halone : Alone fits c before after) {w : List A} (hne : w ≠ []) {s : Progress}
    (hrun : run fits q fresh w = some s) (hsat : satisfied q s = true) {a : A}
    (ha : Names fits q a) (hstop : accept (fits a) q s = none) :
    ∃ ss, runGroup fits c (before ++ q :: after) (.fresh (before ++ q :: after)) w =
        some (.reaching ss s after) ∧
      satisfiedGroup c (before ++ q :: after) (.reaching ss s after) = true ∧
      acceptGroup (fits a) c (before ++ q :: after) (.reaching ss s after) = none := by
  have hb := hp.members_bounded
  have hempty : c = .sequence → emptiableAll before = true := fun hc =>
    emptiableAll_of_nil_mem (fun x hx => hb x (by simp [hx])) (halone hc).1
  have hempty' : c = .sequence → emptiableAll after = true := fun hc =>
    emptiableAll_of_nil_mem (fun x hx => hb x (by simp [hx])) (halone hc).2
  have hrefuse : ∀ x ∈ after, Refuses (fits a) x := fun x hx =>
    accept_eq_none ((hp.attributed.not_names ha).2 x hx)
  obtain ⟨ss, hlen, hgroup⟩ := runGroup_enter hp (Or.inl ⟨rfl, hempty⟩) hne hrun
  refine ⟨ss, hgroup, (satisfiedGroup_reaching hp.ne_all hlen).mpr ⟨hsat, hempty'⟩, ?_⟩
  exact acceptGroup_reaching_eq_none hp.ne_all hlen hstop (Or.inr hrefuse)

/-- What stops within a settled particle stops the particle. -/
theorem run_of_fills (hp : Plain fits p) (hset : Settled fits p) (hr : Fills fits p r)
    (hel : Elastic fits r) (hbad : ¬ (Enough fits r 1 ∨ r.occurs.most = none)) {w : List A}
    (hne : w ≠ []) {s : Progress} (hrun : run fits r fresh w = some s) (hsat : satisfied r s = true)
    {a : A} (ha : Names fits r a) (hstop : accept (fits a) r s = none) :
    ∃ s', run fits p fresh w = some s' ∧ satisfied p s' = true ∧ accept (fits a) p s' = none := by
  induction hr with
  | self _ => exact ⟨s, hrun, hsat, hstop⟩
  | @member c before after o q r hlive halone hr ih =>
    obtain ⟨s', hrun', hsat', hstop'⟩ := ih (hp.member (by simp)) (hset.member hlive (by simp)) hel
      hbad hrun hsat ha hstop
    have hnone := no_room_of_fills hset halone hr hel hbad
    have hq : Names fits q a := names_of_part hr.part ha
    obtain ⟨ss, hgroup, hsatG, hrefused⟩ := runGroup_alone hp halone hne hrun' hsat' hq hstop'
    obtain ⟨b, u, hbu⟩ := hlive
    refine ⟨_, run_of_runGroup (exists_term_of_cons_mem hbu).1 hne hgroup,
      (satisfied_group_iff fits hp.bounded rfl).mpr
        ⟨hsatG, enough_of_no_room hp.bounded hnone⟩, ?_⟩
    rw [accept_group]
    simp [hrefused, hsatG, acceptAnew, hnone]

end Within

theorem settled_of_fills {p r : Particle L} (hp : Plain fits p) (hset : Settled fits p)
    (hr : Fills fits p r) : Plain fits r ∧ Settled fits r ∧ Live fits r := by
  induction hr with
  | self hlive => exact ⟨hp, hset, hlive⟩
  | member hlive _ _ ih => exact ih (hp.member (by simp)) (hset.member hlive (by simp))

/-- The words of a particle of which one occurrence is not enough are as long as the occurrences
that are needed. -/
theorem le_length_of_not_enough {p : Particle L} (hone : ¬ Enough fits p 1) {P : A → Prop}
    {g w : List A} (hg : Shortest P (p.term fits) g) (hw : w ∈ p.language fits)
    (hP : ∀ a ∈ w, P a) : p.occurs.least * g.length ≤ w.length := by
  rw [language_eq] at hw
  obtain ⟨n, ⟨hn, -⟩, hw⟩ := hw
  have hle := hg.le_length_of_mem_pow (fun h => hone (Or.inr h)) hw hP
  exact (Nat.mul_le_mul_right _ hn).trans hle

theorem exists_shortest_term {p : Particle L} (hlive : Live fits p) :
    ∃ a z, Shortest (Names fits p) (p.term fits) (a :: z) := by
  obtain ⟨b, w, hbw⟩ := hlive
  obtain ⟨-, u, v, rfl, hu, -⟩ := exists_term_of_cons_mem hbw
  obtain ⟨g, hg⟩ := Shortest.exists_of_mem hu (List.cons_ne_nil b u) fun a ha =>
    spelled_language fits p _ hbw a (List.mem_append_left v ha)
  obtain ⟨a, z, rfl⟩ := List.exists_cons_of_ne_nil hg.ne_nil
  exact ⟨a, z, hg⟩

/-- An elastic particle of which one occurrence is not enough can do with fewer occurrences than its
bounds allow. -/
theorem exists_fewer_of_elastic {r : Particle L} (hel : Elastic fits r) (hone : ¬ Enough fits r 1)
    {m : Nat} (hm : r.occurs.most = some m) : ∃ m', m = m' + 1 ∧ r.occurs.least ≤ m' := by
  obtain ⟨n, -, hn | hn, hroom⟩ := hel
  · have hlt : n < m := Occurs.roomAfter_iff.mp hroom m hm
    exact ⟨m - 1, by omega, by omega⟩
  · exact absurd (Or.inr hn) hone

section Full

variable {c : Compositor} {before after : List (Particle L)} {q r : Particle L} {o : Occurs}

/-- Where the second occurrence begins, what is still to come is as long as the occurrences of the
filling particle that are needed. -/
theorem le_length_of_begun (hp : Plain fits (.group c (before ++ q :: after) o))
    (hr : Fills fits q r) (hone : ¬ Enough fits r 1) {g : List A}
    (hg : Shortest (Names fits r) (r.term fits) g) {a : A} {t : L} {next : Occurrence}
    (hnext : acceptGroup (fits a) c (before ++ q :: after) (.fresh (before ++ q :: after)) =
      some (t, next)) {n : Nat} {v : List A} {s : Progress}
    (hrun : run fits (.group c (before ++ q :: after) o) (mk n (some next)) v = some s)
    (hsat : satisfied (.group c (before ++ q :: after) o) s = true)
    (hnames : ∀ b ∈ a :: v, Names fits r b) : r.occurs.least * g.length ≤ v.length + 1 := by
  have hrest := append_mem_rest_of_run hp.bounded hrun
    ((satisfied_iff_nil_mem_rest hp.bounded s).mp hsat)
  rw [List.append_nil, rest_group] at hrest
  obtain ⟨x, hx, y, -, rfl⟩ := Language.mem_mul.mp hrest
  have hax := leads_of_acceptGroup hp.members_bounded hnext x hx
  rw [restGroup_fresh] at hax
  have hnamesx : ∀ b ∈ a :: x, Names fits r b := fun b hb => by
    refine hnames b ?_
    rw [← List.cons_append]
    exact List.mem_append_left y hb
  have hq := mem_language_of_confined hp (List.cons_ne_nil a x)
    (fun b hb => names_of_part hr.part (hnamesx b hb)) hax
  have hle := le_length_of_fills (hp.member (by simp)) hr
    (fun w hw _ hw' => le_length_of_not_enough hone hg hw hw') hq (List.cons_ne_nil a x) hnamesx
  rw [List.length_cons] at hle
  rw [List.length_append]
  omega

/-- A group that may be repeated, but that is filled by a particle which needs more than one
occurrence: the particle takes all that the bounds allow, and too little is left for the next. -/
theorem stranded_of_full (hp : Plain fits (.group c (before ++ q :: after) o)) (hq : Settled fits q)
    (hone : Enough fits (.group c (before ++ q :: after) o) 1) (hroom : o.roomAfter 1 = true)
    (halone : Alone fits c before after) (hr : Fills fits q r) (hel : Elastic fits r)
    (hbad : ¬ (Enough fits r 1 ∨ r.occurs.most = none)) :
    Stranded fits (.group c (before ++ q :: after) o) := by
  have hpq : Plain fits q := hp.member (by simp)
  obtain ⟨hpr, hsetr, hliver⟩ := settled_of_fills hpq hq hr
  have hone' : ¬ Enough fits r 1 := fun h => hbad (Or.inl h)
  obtain ⟨m, hm⟩ := Option.ne_none_iff_exists'.mp fun h => hbad (Or.inr h)
  obtain ⟨m', rfl, hm'⟩ := exists_fewer_of_elastic hel hone' hm
  -- One occurrence of `r`, as short as can be.
  obtain ⟨a, z, hg⟩ := exists_shortest_term hliver
  have ha : Names fits r a := hg.spelled a List.mem_cons_self
  have hleast : ¬ r.occurs.least ≤ 1 := fun h => hone' (Or.inl h)
  obtain ⟨k, hk⟩ : ∃ k, r.occurs.least = k + 2 := ⟨r.occurs.least - 2, by omega⟩
  have hmem : ∀ n, r.occurs.least ≤ n → n ≤ m' + 1 →
      power (a :: z) n ∈ groupLanguage fits c (before ++ q :: after) := fun n hn hn' => by
    have hpower : power (a :: z) n ∈ r.language fits :=
      power_mem_language ⟨hn, fun m hm'' => by
        cases hm.symm.trans hm''
        exact hn'⟩ hg.mem
    exact halone.mem_groupLanguage hp.ne_all (mem_language_of_fills hpq hq hr hel hbad hpower)
  have hfew := hmem m' hm' (Nat.le_succ m')
  have hneeded := hmem (k + 2) hk.le (by omega)
  -- The first occurrence takes as many as the bounds of `r` allow.
  obtain ⟨s, hrun, hsat, hstop⟩ := run_full hpr hsetr hliver hone' hm hg.mem
  have hne : power (a :: z) (m' + 1) ≠ [] := power_ne_nil (Nat.succ_pos m') (List.cons_ne_nil a z)
  obtain ⟨s', hrun', hsat', hstop'⟩ := run_of_fills hpq hq hr hel hbad hne hrun hsat ha hstop
  obtain ⟨ss, hgroup, hsatG, hrefused⟩ :=
    runGroup_alone hp halone hne hrun' hsat' (names_of_part hr.part ha) hstop'
  have hroom₀ : o.roomAfter 0 = true := Occurs.roomAfter_iff.mpr fun m hm =>
    Nat.lt_of_succ_lt (Occurs.roomAfter_iff.mp hroom m hm)
  have hfirst := run_of_runGroup hroom₀ hne hgroup
  -- The second one has begun.
  obtain ⟨t, next, hnext, -⟩ := acceptGroup_fresh_of_mem hp hneeded
  have hacc : accept (fits a) (.group c (before ++ q :: after) o)
      (mk 1 (some (.reaching ss s' after))) = some (t, mk 2 (some next)) := by
    refine accept_group_eq_some_iff.mpr (Or.inr ⟨?_, hroom, next, hnext, rfl⟩)
    rintro _ ⟨⟩
    exact ⟨hrefused, hsatG⟩
  have hsecond := run_concat_eq_some_iff.mpr ⟨_, t, hfirst, hacc⟩
  refine @stranded_of_run A L fits _ _ _ (z ++ power (a :: z) k) ?_ hsecond
    fun v v' s₃ hsplit hrun₃ => ?_
  · rw [power_cut, language_group, ← Occurs.after_zero o]
    have htwo := Language.append_mem_mul hfew hneeded
    rw [← pow_two] at htwo
    exact Occurs.mem_repeats_of_le hp.bounded.sane htwo (hone.imp_left Nat.le_succ_of_le)
      fun m hm => Occurs.roomAfter_iff.mp hroom m hm
  · rw [Bool.eq_false_iff]
    intro hsat₃
    have hnames : ∀ b ∈ a :: v, Names fits r b := by
      refine List.forall_mem_cons.mpr ⟨ha, fun b hb => ?_⟩
      have hbz : b ∈ z ++ power (a :: z) k := hsplit ▸ List.mem_append_left v' hb
      rcases List.mem_append.mp hbz with hb | hb
      · exact hg.spelled b (List.mem_cons_of_mem a hb)
      · exact hg.spelled b (mem_of_mem_power hb)
    have hle := le_length_of_begun hp hr hone' hg hnext hrun₃ hsat₃ hnames
    have hlength := congrArg List.length hsplit
    simp only [List.length_append, List.length_cons, length_power] at hlength hle
    rw [hk, Nat.add_mul, Nat.succ_mul] at hle
    omega

end Full

/-! ## A member gets stuck -/

/-- The first child of a word is always taken. -/
theorem Stranded.exists_ne_nil {p : Particle L} (hp : Plain fits p) (h : Stranded fits p) :
    ∃ u v s, u ≠ [] ∧ u ++ v ∈ p.language fits ∧ run fits p fresh u = some s ∧
      satisfied p s = false ∧ ∀ b ∈ v.head?, accept (fits b) p s = none := by
  obtain ⟨u, v, s, hmem, hrun, hsat, hstuck⟩ := h
  refine ⟨u, v, s, ?_, hmem, hrun, hsat, hstuck⟩
  rintro rfl
  cases hrun
  cases v with
  | nil =>
    rw [satisfied_fresh, (emptiable_iff_nil_mem_language hp.bounded).mpr hmem] at hsat
    cases hsat
  | cons b v =>
    obtain ⟨t, s', hacc, -⟩ := accept_fresh hp hmem
    rw [hstuck b rfl] at hacc
    cases hacc

section Group

variable {c : Compositor} {before after : List (Particle L)} {q : Particle L} {o : Occurs}

/-- Around the words of a member there are words of the others that make up an occurrence. -/
theorem exists_passes (hp : Plain fits (.group c (before ++ q :: after) o))
    (hset : ∀ r ∈ before, Settled fits r)
    (hlive : Live fits (.group c (before ++ q :: after) o)) :
    ∃ x y, Passes fits c before (q :: after) x ∧ y ∈ beyond fits c after ∧
      ∀ w ∈ q.language fits, x ++ w ++ y ∈ groupLanguage fits c (before ++ q :: after) := by
  cases c with
  | sequence =>
    obtain ⟨a, w, haw⟩ := hlive
    obtain ⟨-, u, -, -, hu, -⟩ := exists_term_of_cons_mem haw
    have hu : a :: u ∈ inSequence fits before * inSequence fits (q :: after) :=
      inSequence_append fits before (q :: after) ▸ hu
    obtain ⟨x, hx, v, hv, -⟩ := Language.mem_mul.mp hu
    obtain ⟨-, -, y, hy, -⟩ := Language.mem_mul.mp hv
    refine ⟨x, y, passes_of_mem_inSequence hp (fun r hr w hw => ?_) hx, hy, fun w hw => ?_⟩
    · exact matches_of_mem_language (hp.member (by simp [hr])) (hset r hr) hw
    · have hwy := Language.append_mem_mul hw hy
      rw [groupLanguage, inSequence_append, List.append_assoc]
      exact Language.append_mem_mul hx hwy
  | choice =>
    refine ⟨[], [], Or.inl ⟨rfl, fun hc => (by cases hc)⟩, Language.nil_mem_one, fun w hw => ?_⟩
    rw [List.nil_append, List.append_nil]
    exact mem_inChoice.mpr ⟨q, by simp, hw⟩
  | all => exact absurd rfl hp.ne_all

/-- A group is stuck where the member that has been reached is. -/
theorem stuck_of_member (hp : Plain fits (.group c (before ++ q :: after) o)) {ss : List Progress}
    {s : Progress} (hlen : ss.length = before.length) (hsat : satisfied q s = false) {v y : List A}
    (hstuck : ∀ b ∈ v.head?, accept (fits b) q s = none) (hy : y ∈ beyond fits c after) (n : Nat) :
    satisfied (.group c (before ++ q :: after) o) (mk n (some (.reaching ss s after))) = false ∧
      ∀ b ∈ (v ++ y).head?, accept (fits b) (.group c (before ++ q :: after) o)
        (mk n (some (.reaching ss s after))) = none := by
  have hsatG : satisfiedGroup c (before ++ q :: after) (.reaching ss s after) = false := by
    rw [Bool.eq_false_iff]
    intro h
    rw [((satisfiedGroup_reaching hp.ne_all hlen).mp h).1] at hsat
    cases hsat
  have hrefuse : ∀ b ∈ (v ++ y).head?, accept (fits b) q s = none := by
    cases v with
    | cons a v => exact hstuck
    | nil =>
      -- What comes behind the member does not belong to it.
      cases y with
      | nil => nofun
      | cons a y =>
        rintro _ ⟨⟩
        cases c with
        | sequence =>
          obtain ⟨between, r, later, x, z, hafter, -, hx, -⟩ := cons_mem_inSequence hy
          refine accept_eq_none (fun ha => ?_) s
          have hr : r ∈ after := by simp [hafter]
          exact (hp.attributed.not_names ha).2 r hr (names_of_cons_mem_language hx)
        | choice => cases (Language.mem_one _).mp hy
        | all => exact absurd rfl hp.ne_all
  refine ⟨?_, fun b hb => ?_⟩
  · rw [satisfied_group, current_mk, Option.all_some, hsatG]
    rfl
  · have hnone : acceptGroup (fits b) c (before ++ q :: after) (.reaching ss s after) = none :=
      acceptGroup_reaching_eq_none hp.ne_all hlen (hrefuse b hb) (Or.inl hsat)
    rw [accept_group, current_mk]
    simp [hnone, hsatG]

/-- A member gets stuck in an occurrence that begins behind some others. -/
theorem stranded_of_member (hp : Plain fits (.group c (before ++ q :: after) o))
    (hset : ∀ r ∈ before, Settled fits r) (hlive : Live fits (.group c (before ++ q :: after) o))
    (hq : Stranded fits q) {w : List A} {s₀ : Progress}
    (hrun : run fits (.group c (before ++ q :: after) o) fresh w = some s₀)
    (hroom : o.roomAfter s₀.count = true)
    (hend : ∀ occurrence ∈ s₀.current,
      satisfiedGroup c (before ++ q :: after) occurrence = true ∧
        ∀ a u, a :: u ∈ groupLanguage fits c (before ++ q :: after) →
          acceptGroup (fits a) c (before ++ q :: after) occurrence = none)
    (hmem : ∀ u ∈ groupLanguage fits c (before ++ q :: after),
      w ++ u ∈ Particle.language fits (.group c (before ++ q :: after) o)) :
    Stranded fits (.group c (before ++ q :: after) o) := by
  obtain ⟨x, y, hpass, hy, hgroup⟩ := exists_passes hp hset hlive
  obtain ⟨u, v, s, hne, huv, hu, hsat, hstuck⟩ := hq.exists_ne_nil (hp.member (by simp))
  obtain ⟨ss, hlen, hxu⟩ := runGroup_enter hp hpass hne hu
  have hword : x ++ u ++ (v ++ y) ∈ groupLanguage fits c (before ++ q :: after) := by
    have := hgroup (u ++ v) huv
    simpa using this
  obtain ⟨hunsat, hrefuse⟩ := stuck_of_member hp hlen hsat hstuck hy (s₀.count + 1)
  refine ⟨w ++ (x ++ u), v ++ y, _, ?_, run_append_eq_some_iff.mpr ⟨s₀, hrun, ?_⟩, hunsat, hrefuse⟩
  · rw [List.append_assoc]
    exact hmem _ hword
  · obtain ⟨b, z, hbz⟩ := List.exists_cons_of_ne_nil
      (show x ++ u ≠ [] from fun h => hne (List.append_eq_nil_iff.mp h).2)
    rw [hbz] at hxu hword ⊢
    exact run_anew hroom (fun occurrence hcur =>
      ⟨(hend occurrence hcur).2 b _ hword, (hend occurrence hcur).1⟩) hxu

/-- Either an occurrence of the group ends somewhere and others of its kind can follow it, so that
the one in which the member gets stuck comes last; or no occurrence ever ends. -/
theorem stranded_of_steady (hp : Plain fits (.group c (before ++ q :: after) o))
    (hset : ∀ r ∈ before, Settled fits r) (hlive : Live fits (.group c (before ++ q :: after) o))
    (hq : Stranded fits q) (hsteady : Steady fits (.group c (before ++ q :: after) o))
    (hone : ¬ Enough fits (.group c (before ++ q :: after) o) 1) :
    Stranded fits (.group c (before ++ q :: after) o) := by
  have hleast : ¬ o.least ≤ 1 := fun h => hone (Or.inl h)
  have hsane : o.Sane := hp.bounded.sane
  have hroom : ∀ n, n < o.least → o.roomAfter n = true := fun n hn =>
    Occurs.roomAfter_iff.mpr fun m hm => hn.trans_le (hsane m hm)
  obtain ⟨a, w, haw⟩ := hlive
  by_cases hends : ∃ v occurrence, v ≠ [] ∧ runGroup fits c (before ++ q :: after)
      (.fresh (before ++ q :: after)) v = some occurrence ∧
      satisfiedGroup c (before ++ q :: after) occurrence = true
  · obtain ⟨v, occurrence, hne, hrun, hsat⟩ := hends
    obtain ⟨b, z, rfl⟩ := List.exists_cons_of_ne_nil hne
    have hmem := mem_groupLanguage_of_runGroup hp.members_bounded hrun hsat
    have hstops : ∀ d u, d :: u ∈ groupLanguage fits c (before ++ q :: after) →
        acceptGroup (fits d) c (before ++ q :: after) occurrence = none := fun d u hu =>
      acceptGroup_stops hp hsteady hone (hroom 1 (by omega)) hne hrun hsat hu
    obtain ⟨k, hk⟩ : ∃ k, o.least = k + 2 := ⟨o.least - 2, by omega⟩
    refine stranded_of_member hp hset ⟨a, w, haw⟩ hq
      (run_power hrun hsat (hstops b z hmem) fun m hm => ?_) (hroom (k + 1) (by omega)) ?_
      fun u hu => ?_
    · have := hsane m hm
      omega
    · rintro _ ⟨⟩
      exact ⟨hsat, hstops⟩
    · rw [language_group]
      refine ⟨k + 2, ⟨hk.le, fun m hm => hk ▸ hsane m hm⟩, ?_⟩
      rw [pow_succ]
      exact Language.append_mem_mul (power_mem_pow hmem (k + 1)) hu
  · refine @stranded_of_run A L fits _ fresh [] (a :: w) haw rfl fun v v' s hsplit hrun => ?_
    rw [Bool.eq_false_iff]
    intro hsat
    have hmem := mem_language_of_matches hp.bounded ⟨s, hrun, hsat⟩
    have hne : v ≠ [] := by
      rintro rfl
      exact nil_notMem_of_not_enough hp.bounded hone hmem
    obtain ⟨n, u, x, occurrence, rfl, -, -, hx, hgroup⟩ := run_cases hp.members_bounded hne hrun
    exact hends ⟨x, occurrence, hx, hgroup, ((satisfied_group_iff fits hp.bounded rfl).mp hsat).1⟩

end Group

/-! ## Every model -/

/-- A group that is not live is settled, since no child ever comes to what is in it. -/
theorem settled_of_not_live {c : Compositor} {ms : List (Particle L)} {o : Occurs}
    (hp : Plain fits (.group c ms o)) (hlive : ¬ Live fits (.group c ms o)) :
    Settled fits (.group c ms o) := by
  intro q hq
  cases hq with
  | member h _ _ => exact absurd h hlive
  | self _ =>
    rintro c before q after o heq hroom halone r hr -
    cases heq
    obtain ⟨a, w, haw⟩ := hr.live
    have hmem := halone.mem_groupLanguage hp.ne_all haw
    have hsane : o.Sane := hp.bounded.sane
    refine absurd ?_ hlive
    have hpower : power (a :: w) (max 1 o.least) ∈
        Particle.language fits (.group c (before ++ q :: after) o) :=
      power_mem_language ⟨le_max_right 1 o.least, fun m hm =>
        max_le (Occurs.roomAfter_iff.mp hroom m hm).le (hsane m hm)⟩ hmem
    obtain ⟨k, hk⟩ : ∃ k, max 1 o.least = k + 1 := ⟨max 1 o.least - 1, by omega⟩
    rw [hk] at hpower
    exact ⟨a, w ++ power (a :: w) k, hpower⟩

/-- **No third kind.** A model is settled, or some word of it gets stuck. -/
theorem settled_or_stranded {p : Particle L} (hp : Plain fits p) :
    Settled fits p ∨ Stranded fits p := by
  induction p using Particle.induction with
  | leaf t o =>
    refine Or.inl fun q hq => ?_
    cases hq
    rintro c before q after o heq
    cases heq
  | group c ms o ih =>
    by_cases hlive : Live fits (.group c ms o)
    · by_cases hms : ∀ q ∈ ms, Settled fits q
      · by_cases hsteady : Steady fits (.group c ms o)
        · refine Or.inl fun q hq => ?_
          cases hq with
          | self _ => exact hsteady
          | member _ hq hr => exact hms _ hq _ hr
        · rw [Steady] at hsteady
          push Not at hsteady
          obtain ⟨c, before, q, after, o, heq, hroom, halone, r, hr, hel, hbad⟩ := hsteady
          cases heq
          by_cases hone : Enough fits (.group c (before ++ q :: after) o) 1
          · exact Or.inr (stranded_of_full hp (hms q (by simp)) hone hroom halone hr hel
              (by simpa using hbad hone))
          · exact Or.inr (stranded_of_not_enough hp hone halone hr hel)
      · obtain ⟨before, q, after, rfl, hset, hq⟩ := exists_first hms
        have hq' := (ih q (by simp) (hp.member (by simp))).resolve_left hq
        by_cases hone : Enough fits (.group c (before ++ q :: after) o) 1
        · obtain ⟨a, w, haw⟩ := hlive
          have hroom := (exists_term_of_cons_mem haw).1
          exact Or.inr (@stranded_of_member A L fits c before after q o hp hset ⟨a, w, haw⟩ hq' []
            fresh rfl hroom nofun fun u hu => mem_language_of_term hp.bounded hroom hone hu)
        · by_cases hsteady : Steady fits (.group c (before ++ q :: after) o)
          · exact Or.inr (stranded_of_steady hp hset hlive hq' hsteady hone)
          · rw [Steady] at hsteady
            push Not at hsteady
            obtain ⟨c', before', q', after', o', heq, -, halone, r, hr, hel, -⟩ := hsteady
            rw [heq] at hp hone ⊢
            exact Or.inr (stranded_of_not_enough hp hone halone hr hel)
    · exact Or.inl (settled_of_not_live hp hlive)

end Progress

end ScopedXml.Content
