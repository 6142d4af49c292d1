import ScopedXml.Proofs.Content.Reached

/-!
# Where going on does no harm

Where a child could both go on with the occurrence under way and begin another one, it always goes
on. That is harmless in a settled model: whatever would have gone into the other occurrence can
still come.

* `Particle.Fills`: a particle that can make up all of an occurrence of another one.
* `Particle.Settled`: every group that may be repeated can stand to be filled by a particle that
  goes on although it could end.
* `Progress.accept_of_cons_mem_rest`: in a settled model nothing that may still come is ever lost.
* `Progress.matches_of_mem_language`: a settled model matches all of its words.
-/

namespace ScopedXml.Content

variable {A L : Type}

/-! ## One occurrence or two -/

namespace Occurs

theorem mem_repeats_of_le {o : Occurs} {l : Language A} (hs : o.Sane) {n k : Nat} {w : List A}
    (hw : w ∈ l ^ k) (hleast : o.least ≤ k + n ∨ [] ∈ l) (hmost : ∀ m ∈ o.most, k ≤ m - n) :
    w ∈ (o.after n).repeats l := by
  rcases hleast with hleast | hnil
  · exact ⟨k, admits_after_iff.mpr ⟨hleast, hmost⟩, hw⟩
  · refine ⟨max k (o.least - n), admits_after_iff.mpr ⟨by omega, fun m hm => ?_⟩,
      mem_pow_of_le hnil (le_max_left _ _) hw⟩
    have := hs m hm
    have := hmost m hm
    omega

/-- When enough have been seen, one occurrence less makes no difference. -/
theorem mem_repeats_after_of_succ {o : Occurs} {l : Language A} (hs : o.Sane) {n : Nat}
    {w : List A} (h : o.least ≤ n ∨ [] ∈ l) (hw : w ∈ (o.after (n + 1)).repeats l) :
    w ∈ (o.after n).repeats l := by
  obtain ⟨k, hk, hw⟩ := hw
  obtain ⟨-, hk⟩ := admits_after_iff.mp hk
  refine mem_repeats_of_le hs hw (h.imp_left fun h => by omega) fun m hm => ?_
  have := hk m hm
  omega

/-- What may come behind one occurrence may also come behind many, if need be from the start
again. -/
theorem repeats_after_one_cases {o : Occurs} {l : Language A} (hs : o.Sane) {n : Nat} (hn : 1 ≤ n)
    (hmost : ∀ m ∈ o.most, n ≤ m)
    (hleast : (o.least ≤ 1 ∨ [] ∈ l) ∨ (o.most = none ∧ o.least ≤ n)) {w : List A}
    (hw : w ∈ (o.after 1).repeats l) :
    w ∈ (o.after n).repeats l ∨ w ∈ (o.after n).repeats l * o.repeats l := by
  obtain ⟨k, hk, hw⟩ := hw
  obtain ⟨-, hk⟩ := admits_after_iff.mp hk
  have hmany : o.least ≤ k + n ∨ [] ∈ l := by
    rcases hleast with (h | h) | ⟨-, h⟩
    · exact Or.inl (by omega)
    · exact Or.inr h
    · exact Or.inl (by omega)
  by_cases hroom : ∀ m ∈ o.most, k ≤ m - n
  · exact Or.inl (mem_repeats_of_le hs hw hmany hroom)
  · -- The bounds are used up, and what is left over begins from the start.
    push Not at hroom
    obtain ⟨m, hm, hlt⟩ := hroom
    have hnm := hmost m hm
    have hkm := hk m hm
    have honce : o.least ≤ 1 ∨ [] ∈ l := by
      rcases hleast with h | ⟨h, -⟩
      · exact h
      · rw [h] at hm
        cases hm
    obtain ⟨j, rfl⟩ := Nat.exists_eq_add_of_le hlt.le
    rw [pow_add] at hw
    obtain ⟨u, hu, v, hv, rfl⟩ := Language.mem_mul.mp hw
    have hsm := hs m hm
    refine Or.inr (Language.append_mem_mul ⟨m - n, ?_, hu⟩ ?_)
    · refine admits_after_iff.mpr ⟨by omega, fun m' hm' => ?_⟩
      cases hm.symm.trans hm'
      exact Nat.le_refl _
    · have hstart : v ∈ (o.after 0).repeats l := by
        refine mem_repeats_of_le hs hv ?_ fun m' hm' => ?_
        · exact honce.imp_left fun h => by omega
        · cases hm.symm.trans hm'
          omega
      rwa [after_zero] at hstart

theorem append_mem_after_one_cases {o : Occurs} {k l : Language A} (hs : o.Sane) {n : Nat}
    (hn : 1 ≤ n) (hmost : ∀ m ∈ o.most, n ≤ m)
    (hleast : (o.least ≤ 1 ∨ [] ∈ l) ∨ (o.most = none ∧ o.least ≤ n)) {u v : List A} (hu : u ∈ k)
    (hv : v ∈ (o.after 1).repeats l) :
    u ++ v ∈ k * (o.after n).repeats l ∨ u ++ v ∈ k * (o.after n).repeats l * o.repeats l := by
  rcases repeats_after_one_cases hs hn hmost hleast hv with hv | hv
  · exact Or.inl (Language.append_mem_mul hu hv)
  · rw [mul_assoc]
    exact Or.inr (Language.append_mem_mul hu hv)

end Occurs

namespace Particle

/-- The words of one occurrence of a particle. -/
def term (fits : A → L → Bool) : Particle L → Language A
  | .leaf t _ => letter fits t
  | .group c ms _ => groupLanguage fits c ms

theorem language_eq (fits : A → L → Bool) (p : Particle L) :
    p.language fits = p.occurs.repeats (p.term fits) := by
  cases p with
  | leaf t o => rfl
  | group c ms o => exact language_group fits c ms o

/-! ## Settled models -/

/-- Behind `n` occurrences the particle may end: there are enough, or the others may be empty. -/
def Enough (fits : A → L → Bool) (p : Particle L) (n : Nat) : Prop :=
  p.occurs.least ≤ n ∨ [] ∈ p.term fits

/-- Behind some occurrence the particle may end, and may also go on. -/
def Elastic (fits : A → L → Bool) (p : Particle L) : Prop :=
  ∃ n, 1 ≤ n ∧ Enough fits p n ∧ p.occurs.roomAfter n = true

/-- The members around one of a group can all be empty. -/
def Alone (fits : A → L → Bool) (c : Compositor) (before after : List (Particle L)) : Prop :=
  c = .sequence → (∀ r ∈ before, [] ∈ r.language fits) ∧ ∀ r ∈ after, [] ∈ r.language fits

/-- `r` stands within `p`, or is `p`, and can make up all of an occurrence of it. -/
inductive Fills (fits : A → L → Bool) : Particle L → Particle L → Prop
  | self {p : Particle L} : Live fits p → Fills fits p p
  | member {c : Compositor} {before after : List (Particle L)} {o : Occurs} {q r : Particle L} :
    Live fits (.group c (before ++ q :: after) o) → Alone fits c before after → Fills fits q r →
    Fills fits (.group c (before ++ q :: after) o) r

/-- When a group that may be repeated can be filled by a particle within it that is elastic, then
one occurrence of the group is enough, and so is one of the particle, unless that one can go on
forever. -/
def Steady (fits : A → L → Bool) (p : Particle L) : Prop :=
  ∀ c before q after o, p = .group c (before ++ q :: after) o → o.roomAfter 1 = true →
    Alone fits c before after → ∀ r, Fills fits q r → Elastic fits r →
      Enough fits p 1 ∧ (Enough fits r 1 ∨ r.occurs.most = none)

/-- `r` stands within `p` where children can come. -/
inductive LivePart (fits : A → L → Bool) : Particle L → Particle L → Prop
  | self (p : Particle L) : LivePart fits p p
  | member {c : Compositor} {ms : List (Particle L)} {o : Occurs} {q r : Particle L} :
    Live fits (.group c ms o) → q ∈ ms → LivePart fits q r → LivePart fits (.group c ms o) r

/-- All parts of the model are steady. -/
def Settled (fits : A → L → Bool) (p : Particle L) : Prop := ∀ q, LivePart fits p q → Steady fits q

section

variable {fits : A → L → Bool} {c : Compositor} {ms : List (Particle L)} {o : Occurs}
  {p q r : Particle L}

theorem Settled.steady (h : Settled fits p) : Steady fits p := h p (.self p)

theorem Settled.member (h : Settled fits (.group c ms o)) (hlive : Live fits (.group c ms o))
    (hq : q ∈ ms) : Settled fits q := fun r hr => h r (.member hlive hq hr)

theorem Fills.live (h : Fills fits p r) : Live fits p := by
  cases h with
  | self hlive => exact hlive
  | member hlive _ _ => exact hlive

theorem LivePart.part (h : LivePart fits p r) : Part p r := by
  induction h with
  | self p => exact .self p
  | member _ hq _ ih => exact .member hq ih

theorem Fills.part (h : Fills fits p r) : Part p r := by
  induction h with
  | self _ => exact .self _
  | member _ _ _ ih => exact .member (by simp) ih

theorem Part.trans (h : Part p q) (h' : Part q r) : Part p r := by
  induction h with
  | self _ => exact h'
  | member hq _ ih => exact .member hq (ih h')

theorem settled_of_enough (h : ∀ q, Part p q → Enough fits q 1) : Settled fits p := by
  rintro q hq c before r after o rfl - - f hf -
  exact ⟨h _ hq.part, Or.inl (h f (hq.part.trans (.member (by simp) hf.part)))⟩

end

end Particle

namespace Progress

open Particle

variable {fits : A → L → Bool}

/-! ## Counts -/

theorem Reached.count_bounds {p : Particle L} {s : Progress} (h : Reached fits p s) :
    1 ≤ s.count ∧ ∀ m ∈ p.occurs.most, s.count ≤ m := by
  obtain ⟨w, hne, hw⟩ := h
  induction w using List.reverseRecOn generalizing s with
  | nil => exact absurd rfl hne
  | append_singleton w a ih =>
    obtain ⟨s₁, t, hrun, hacc⟩ := run_concat_eq_some_iff.mp hw
    cases p with
    | leaf t' o =>
      rw [accept_leaf] at hacc
      split at hacc
      · rename_i h
        cases hacc
        exact ⟨Nat.succ_pos _, Occurs.roomAfter_iff.mp (Bool.and_eq_true _ _ ▸ h).1⟩
      · cases hacc
    | group c ms o =>
      rcases accept_group_eq_some_iff.mp hacc with
        ⟨occurrence, next, hcur, -, rfl⟩ | ⟨-, hroom, next, -, rfl⟩
      · have hw' : w ≠ [] := by
          rintro rfl
          cases hrun
          cases hcur
        have hbefore := ih hw' hrun
        exact hbefore
      · exact ⟨Nat.succ_pos _, Occurs.roomAfter_iff.mp hroom⟩

theorem Reached.live {p : Particle L} {s : Progress} (h : Reached fits p s) (hp : p.Bounded)
    {w : List A} (hw : w ∈ rest fits p s) : Live fits p := by
  obtain ⟨u, hne, hu⟩ := h
  have := append_mem_rest_of_run hp hu hw
  rw [rest_fresh] at this
  cases u with
  | nil => exact absurd rfl hne
  | cons a u => exact ⟨a, u ++ w, this⟩

theorem satisfied_group_iff (fits : A → L → Bool) {p : Particle L} (hp : p.Bounded) {c : Compositor}
    {ms : List (Particle L)} {o : Occurs} (hgroup : p = .group c ms o) {n : Nat}
    {occurrence : Occurrence} :
    satisfied p (mk n (some occurrence)) = true ↔
      satisfiedGroup c ms occurrence = true ∧ Enough fits p n := by
  subst hgroup
  have hms : ∀ q ∈ ms, q.Bounded := fun q hq => hp.member hq
  rw [satisfied_group, Bool.and_eq_true, Bool.or_eq_true, decide_eq_true_iff,
    emptiableGroup_iff_nil_mem hms]
  rfl

/-! ## Where both are possible -/

section Both

variable {c : Compositor} {before after : List (Particle L)} {q : Particle L} {o : Occurs}
  {ss : List Progress} {s : Progress} {a : A} {t : L} {next : Occurrence} {u : List A}

/-- An occurrence that may end takes a child with which another could begin: either the member that
has been reached goes on and can make up an occurrence alone, or no member needs to occur at all. -/
theorem acceptGroup_reaching_both (hp : Plain fits (.group c (before ++ q :: after) o))
    (hlen : ss.length = before.length)
    (hsat : satisfiedGroup c (before ++ q :: after) (.reaching ss s after) = true)
    (hu : a :: u ∈ groupLanguage fits c (before ++ q :: after))
    (hacc : acceptGroup (fits a) c (before ++ q :: after) (.reaching ss s after) =
      some (t, next)) :
    (∃ s', accept (fits a) q s = some (t, s') ∧ next = .reaching ss s' after ∧
      Alone fits c before after ∧
      ∃ x v, u = x ++ v ∧ a :: x ∈ q.language fits ∧ v ∈ beyond fits c after) ∨
    ([] ∈ groupLanguage fits c (before ++ q :: after) ∧
      u ∈ restGroup fits c (before ++ q :: after) next) := by
  have hb := hp.members_bounded
  obtain ⟨-, hafter⟩ := (satisfiedGroup_reaching hp.ne_all hlen).mp hsat
  have hnil : c = .sequence → ∀ r ∈ after, [] ∈ r.language fits := fun hc r hr =>
    (emptiable_iff_nil_mem_language (hb r (by simp [hr]))).mp (emptiableAll_iff.mp (hafter hc) r hr)
  obtain ⟨before', q', after', x, v, hms, rfl, hx, hv, hbefore⟩ :=
    cons_mem_groupLanguage hp.ne_all hu
  have hq' := names_of_cons_mem_language hx
  rcases acceptGroup_reaching_cases hp.ne_all hlen hacc with
    ⟨s', hs', rfl⟩ | ⟨rfl, -, hsat', between, r, later, s', rfl, hempty, hr, rfl⟩
  · obtain ⟨rfl, rfl, rfl⟩ := hp.split_unique (names_of_accept hs') hms hq'
    exact Or.inl ⟨s', hs', rfl, fun hc => ⟨hbefore hc, hnil hc⟩, x, v, rfl, hx, hv⟩
  · have hassoc : before ++ q :: (between ++ r :: later) = (before ++ q :: between) ++ r :: later :=
      by simp
    rw [hassoc] at hp hms hb ⊢
    obtain ⟨rfl, rfl, rfl⟩ := hp.split_unique (names_of_accept hr) hms hq'
    refine Or.inr ⟨nil_mem_inSequence.mpr fun y hy => ?_, ?_⟩
    · rcases List.mem_append.mp hy with hy | hy
      · exact hbefore rfl y hy
      · exact hnil rfl y (List.mem_append_right between hy)
    · obtain ⟨_, _, hacc', hrest⟩ := accept_fresh (hp.member (by simp)) hx
      rw [hr] at hacc'
      cases hacc'
      rw [restGroup_reaching fits hp.ne_all (by simp [hlen])]
      exact Language.append_mem_mul hrest hv

end Both

/-- A particle that takes a child although it may end, and although one of its words begins with
that child, is filled by an elastic one, or can be empty. -/
theorem exists_elastic {p : Particle L} (hp : Plain fits p) {s s' : Progress} {a : A} {t : L}
    {w : List A} (hs : Reached fits p s) (hsat : satisfied p s = true)
    (hacc : accept (fits a) p s = some (t, s')) (hw : a :: w ∈ p.language fits)
    (hnil : [] ∉ p.language fits) : ∃ r, Fills fits p r ∧ Elastic fits r := by
  induction p using Particle.induction generalizing s s' w with
  | leaf t' o =>
    obtain ⟨n, rfl⟩ := hs.leaf_cases
    rw [accept_leaf] at hacc
    split at hacc
    · rename_i h
      have hleast : o.least ≤ n + 1 := of_decide_eq_true hsat
      exact ⟨_, .self ⟨a, w, hw⟩, n + 1, Nat.succ_pos n, Or.inl hleast,
        (Bool.and_eq_true _ _ ▸ h).1⟩
    · cases hacc
  | group c ms o ih =>
    obtain ⟨n, before, q, after, ss, s₁, rfl, hlen, rfl, hs₁⟩ := hs.group_cases hp.ne_all
    have hb := hp.members_bounded
    obtain ⟨hsatG, henough⟩ := (satisfied_group_iff fits hp.bounded rfl).mp hsat
    rcases accept_group_eq_some_iff.mp hacc with
      ⟨occurrence, next, hcur, hnext, rfl⟩ | ⟨-, hroom, -⟩
    · cases hcur
      have hnilG : [] ∉ groupLanguage fits c (before ++ q :: after) := fun h => hnil (by
        rw [language_group, ← Occurs.after_zero o]
        exact (Occurs.nil_mem_repeats_after hp.bounded.sane).mpr (Or.inr h))
      have hlive : Live fits (.group c (before ++ q :: after) o) := ⟨a, w, hw⟩
      rw [language_group, ← Occurs.after_zero o] at hw
      obtain ⟨-, u, v, rfl, hu, -⟩ := Occurs.cons_mem_repeats_after hw
      rcases acceptGroup_reaching_both hp hlen hsatG hu hnext with
        ⟨s₂, hs₂, -, halone, x, y, -, hx, hy⟩ | ⟨h, -⟩
      · have hsat₁ := ((satisfiedGroup_reaching hp.ne_all hlen).mp hsatG).1
        have hnilq : [] ∉ q.language fits := fun h => hnilG
          (append_mem_groupLanguage hp.ne_all h (nil_mem_beyond.mpr fun hc => (halone hc).2)
            fun hc => (halone hc).1)
        obtain ⟨r, hr, hel⟩ := ih q (by simp) (hp.member (by simp)) hs₁ hsat₁ hs₂ hx hnilq
        exact ⟨r, .member hlive halone hr, hel⟩
      · exact absurd h hnilG
    · exact ⟨_, .self ⟨a, w, hw⟩, n + 1, Nat.succ_pos n, henough, hroom⟩

section Both

variable {c : Compositor} {before after : List (Particle L)} {q : Particle L} {o : Occurs}
  {ss : List Progress} {s : Progress} {a : A} {t : L} {next : Occurrence} {u : List A}

/-- Where a steady group goes on although another occurrence could begin, one is enough. -/
theorem enough_of_acceptGroup (hp : Plain fits (.group c (before ++ q :: after) o))
    (hsteady : Steady fits (.group c (before ++ q :: after) o)) (hroom : o.roomAfter 1 = true)
    (hlen : ss.length = before.length) (hs : Reached fits q s)
    (hsat : satisfiedGroup c (before ++ q :: after) (.reaching ss s after) = true)
    (hu : a :: u ∈ groupLanguage fits c (before ++ q :: after))
    (hacc : acceptGroup (fits a) c (before ++ q :: after) (.reaching ss s after) =
      some (t, next)) :
    Enough fits (.group c (before ++ q :: after) o) 1 := by
  rcases acceptGroup_reaching_both hp hlen hsat hu hacc with
    ⟨s', hs', -, halone, x, v, -, hx, -⟩ | ⟨hnil, -⟩
  · by_cases hnil : [] ∈ q.language fits
    · exact Or.inr (append_mem_groupLanguage hp.ne_all hnil
        (nil_mem_beyond.mpr fun hc => (halone hc).2) fun hc => (halone hc).1)
    · have hsat' := ((satisfiedGroup_reaching hp.ne_all hlen).mp hsat).1
      obtain ⟨r, hr, hel⟩ := exists_elastic (hp.member (by simp)) hs hsat' hs' hx hnil
      exact (hsteady c before q after o rfl hroom halone r hr hel).1
  · exact Or.inr hnil

/-- What could come in another occurrence can come in the one under way, and if need be in one more
behind it. -/
theorem restGroup_both (hp : Plain fits (.group c (before ++ q :: after) o))
    (hlen : ss.length = before.length)
    (hsat : satisfiedGroup c (before ++ q :: after) (.reaching ss s after) = true)
    (hu : a :: u ∈ groupLanguage fits c (before ++ q :: after))
    (hacc : acceptGroup (fits a) c (before ++ q :: after) (.reaching ss s after) =
      some (t, next))
    (hq : Alone fits c before after → ∀ s' x, accept (fits a) q s = some (t, s') →
      a :: x ∈ q.language fits → x ∈ rest fits q s' ∨ x ∈ rest fits q s' * q.language fits) :
    u ∈ restGroup fits c (before ++ q :: after) next ∨
      u ∈ restGroup fits c (before ++ q :: after) next *
        groupLanguage fits c (before ++ q :: after) := by
  rcases acceptGroup_reaching_both hp hlen hsat hu hacc with
    ⟨s', hs', rfl, halone, x, v, rfl, hx, hv⟩ | ⟨-, h⟩
  · rw [restGroup_reaching fits hp.ne_all hlen]
    rcases hq halone s' x hs' hx with hx | hx
    · exact Or.inl (Language.append_mem_mul hx hv)
    · obtain ⟨y, hy, z, hz, rfl⟩ := Language.mem_mul.mp hx
      have hnil : [] ∈ beyond fits c after := nil_mem_beyond.mpr fun hc => (halone hc).2
      have hend : y ∈ rest fits q s' * beyond fits c after :=
        Language.mem_mul.mpr ⟨y, hy, [], hnil, List.append_nil y⟩
      have hzv := append_mem_groupLanguage hp.ne_all hz hv fun hc => (halone hc).1
      rw [List.append_assoc]
      exact Or.inr (Language.append_mem_mul hend hzv)
  · exact Or.inl h

end Both

/-- **Going on.** In a settled model the words that could follow a first child can still come when
the child is taken by an occurrence under way, if need be in one more occurrence of the particle. -/
theorem rest_both {p : Particle L} (hp : Plain fits p) (hset : Settled fits p) {s s' : Progress}
    {a : A} {t : L} {w : List A} (hs : Reached fits p s) (hsat : satisfied p s = true)
    (hfill : ∀ r, Fills fits p r → Elastic fits r → Enough fits r 1 ∨ r.occurs.most = none)
    (hacc : accept (fits a) p s = some (t, s')) (hw : a :: w ∈ p.language fits) :
    w ∈ rest fits p s' ∨ w ∈ rest fits p s' * p.language fits := by
  induction p using Particle.induction generalizing s s' w t with
  | leaf t' o =>
    obtain ⟨n, rfl⟩ := hs.leaf_cases
    rw [accept_leaf] at hacc
    split at hacc
    · rename_i h
      cases hacc
      have hroom : o.roomAfter (n + 1) = true := (Bool.and_eq_true _ _ ▸ h).1
      have hleast : o.least ≤ n + 1 := of_decide_eq_true hsat
      have hel := hfill _ (.self ⟨a, w, hw⟩) ⟨n + 1, Nat.succ_pos n, Or.inl hleast, hroom⟩
      rw [language_leaf, ← Occurs.after_zero o] at hw
      obtain ⟨-, u, v, rfl, hu, hv⟩ := Occurs.cons_mem_repeats_after hw
      obtain ⟨rfl, -⟩ := cons_mem_letter.mp hu
      refine Occurs.repeats_after_one_cases hp.bounded.sane (Nat.succ_pos (n + 1))
        (Occurs.roomAfter_iff.mp hroom) ?_ hv
      exact hel.imp_right fun h => ⟨h, Nat.le_succ_of_le hleast⟩
    · cases hacc
  | group c ms o ih =>
    obtain ⟨n, before, q, after, ss, s₁, rfl, hlen, rfl, hs₁⟩ := hs.group_cases hp.ne_all
    have hlive : Live fits (.group c (before ++ q :: after) o) := ⟨a, w, hw⟩
    have hcount := hs.count_bounds
    obtain ⟨hsatG, henough⟩ := (satisfied_group_iff fits hp.bounded rfl).mp hsat
    have hsane : o.Sane := hp.bounded.sane
    have hend : [] ∈ (o.after (n + 1)).repeats (groupLanguage fits c (before ++ q :: after)) :=
      (Occurs.nil_mem_repeats_after hsane).mpr henough
    rw [language_group, ← Occurs.after_zero o] at hw
    obtain ⟨hroom₀, u, v, rfl, hu, hv⟩ := Occurs.cons_mem_repeats_after hw
    rw [rest_group, language_group]
    rcases accept_group_eq_some_iff.mp hacc with
      ⟨occurrence, next, hcur, hnext, rfl⟩ | ⟨-, hroom, next, hnext, rfl⟩
    · cases hcur
      have hsat₁ := ((satisfiedGroup_reaching hp.ne_all hlen).mp hsatG).1
      have hboth := restGroup_both hp hlen hsatG hu hnext fun halone s₂ x hs₂ hx =>
        ih q (by simp) (hp.member (by simp)) (hset.member hlive (by simp)) hs₁ hsat₁
          (fun r hr => hfill r (.member hlive halone hr)) hs₂ hx
      rcases hboth with hu' | hu'
      · cases n with
        | zero => exact Or.inl (Language.append_mem_mul hu' hv)
        | succ n =>
          have hroom : o.roomAfter 1 = true := Occurs.roomAfter_iff.mpr fun m hm => by
            have : n + 1 + 1 ≤ m := hcount.2 m hm
            omega
          have hone := enough_of_acceptGroup hp hset.steady hroom hlen hs₁ hsatG hu hnext
          exact Occurs.append_mem_after_one_cases hsane hcount.1 hcount.2 (Or.inl hone) hu' hv
      · obtain ⟨x, hx, y, hy, rfl⟩ := Language.mem_mul.mp hu'
        have hyv := Occurs.append_mem_repeats_after hroom₀ hy hv
        rw [Occurs.after_zero] at hyv
        rw [List.append_assoc]
        refine Or.inr (Language.append_mem_mul ?_ hyv)
        exact Language.mem_mul.mpr ⟨x, hx, [], hend, List.append_nil x⟩
    · obtain ⟨_, _, hnext', hu'⟩ := acceptGroup_fresh_of_mem hp hu
      rw [hnext] at hnext'
      cases hnext'
      have hleast : (o.least ≤ 1 ∨ [] ∈ groupLanguage fits c (before ++ q :: after)) ∨
          (o.most = none ∧ o.least ≤ n + 1 + 1) := by
        rcases hfill _ (.self hlive) ⟨n + 1, Nat.succ_pos n, henough, hroom⟩ with hone | hmost
        · exact Or.inl hone
        · rcases henough with hn | hnil
          · exact Or.inr ⟨hmost, Nat.le_succ_of_le hn⟩
          · exact Or.inl (Or.inr hnil)
      exact Occurs.append_mem_after_one_cases hsane (Nat.succ_pos _) (Occurs.roomAfter_iff.mp hroom)
        hleast hu' hv

/-! ## The next child -/

section Step

variable {c : Compositor} {before after : List (Particle L)} {q : Particle L} {o : Occurs}
  {ss : List Progress} {s : Progress} {n : Nat} {a : A} {w : List A}

/-- The child goes on with the occurrence under way, if the member that has been reached takes what
it should. -/
theorem acceptGroup_of_cons_mem_restGroup (hp : Plain fits (.group c (before ++ q :: after) o))
    (hlen : ss.length = before.length)
    (hstep : ∀ x, a :: x ∈ rest fits q s →
      ∃ t s', accept (fits a) q s = some (t, s') ∧ x ∈ rest fits q s')
    (hw : a :: w ∈ restGroup fits c (before ++ q :: after) (.reaching ss s after)) :
    ∃ t next, acceptGroup (fits a) c (before ++ q :: after) (.reaching ss s after) =
      some (t, next) ∧ w ∈ restGroup fits c (before ++ q :: after) next := by
  have hb := hp.members_bounded
  rw [restGroup_reaching fits hp.ne_all hlen] at hw
  rcases cons_mem_mul.mp hw with ⟨x, y, rfl, hx, hy⟩ | ⟨hnil, hw⟩
  · obtain ⟨t, s', hs', hx'⟩ := hstep x hx
    refine ⟨t, _, acceptGroup_reaching hp.ne_all hlen hs', ?_⟩
    rw [restGroup_reaching fits hp.ne_all hlen]
    exact Language.append_mem_mul hx' hy
  · have hsat : satisfied q s = true := (satisfied_iff_nil_mem_rest (hb q (by simp)) s).mpr hnil
    cases c with
    | sequence =>
      obtain ⟨between, r, later, x, y, rfl, rfl, hx, hy, hbetween⟩ := cons_mem_inSequence hw
      have hassoc : before ++ q :: (between ++ r :: later) =
          (before ++ q :: between) ++ r :: later := by simp
      have hr : r ∈ before ++ q :: (between ++ r :: later) := by simp
      have hnames := ((hassoc ▸ hp).attributed.not_names (names_of_cons_mem_language hx)).1
      have hrefuse : ∀ z ∈ between, Refuses (fits a) z := fun z hz =>
        accept_eq_none (hnames z (by simp [hz]))
      have hempty := emptiableAll_of_nil_mem (fun z hz => hb z (by simp [hz])) hbetween
      obtain ⟨t, s', hs', hx'⟩ := accept_fresh (hp.member hr) hx
      refine ⟨t, _, acceptGroup_reaching_later hlen
        (accept_eq_none (hnames q (by simp)) s) hsat hrefuse hempty hs', ?_⟩
      rw [hassoc, restGroup_reaching fits hp.ne_all (by simp [hlen])]
      exact Language.append_mem_mul hx' hy
    | choice => cases (Language.mem_one _).mp hw
    | all => exact absurd rfl hp.ne_all

/-- The child could begin another occurrence. Where the one under way takes it instead, what would
have followed still can. -/
theorem accept_of_cons_mem_repeats (hp : Plain fits (.group c (before ++ q :: after) o))
    (hsteady : Steady fits (.group c (before ++ q :: after) o)) (hq : Settled fits q)
    (hlen : ss.length = before.length) (hs : Reached fits q s)
    (hsat : satisfiedGroup c (before ++ q :: after) (.reaching ss s after) = true)
    (hw : a :: w ∈ (o.after (n + 1)).repeats (groupLanguage fits c (before ++ q :: after))) :
    ∃ t s', accept (fits a) (.group c (before ++ q :: after) o)
        (mk (n + 1) (some (.reaching ss s after))) = some (t, s') ∧
      w ∈ rest fits (.group c (before ++ q :: after) o) s' := by
  obtain ⟨hroom, u, v, rfl, hu, hv⟩ := Occurs.cons_mem_repeats_after hw
  cases hnext : acceptGroup (fits a) c (before ++ q :: after) (.reaching ss s after) with
  | none =>
    obtain ⟨t, next, hnew, hu'⟩ := acceptGroup_fresh_of_mem hp hu
    refine ⟨t, mk (n + 1 + 1) (some next),
      accept_group_eq_some_iff.mpr (Or.inr ⟨?_, hroom, next, hnew, rfl⟩), ?_⟩
    · rintro _ ⟨⟩
      exact ⟨hnext, hsat⟩
    · rw [rest_group]
      exact Language.append_mem_mul hu' hv
  | some result =>
    obtain ⟨t, next⟩ := result
    have hroom₁ : o.roomAfter 1 = true := Occurs.roomAfter_iff.mpr fun m hm => by
      have : n + 1 < m := Occurs.roomAfter_iff.mp hroom m hm
      omega
    have hone := enough_of_acceptGroup hp hsteady hroom₁ hlen hs hsat hu hnext
    have hsat₁ := ((satisfiedGroup_reaching hp.ne_all hlen).mp hsat).1
    have hboth := restGroup_both hp hlen hsat hu hnext fun halone s' x hs' hx =>
      rest_both (hp.member (by simp)) hq hs hsat₁
        (fun r hr hel => (hsteady c before q after o rfl hroom₁ halone r hr hel).2) hs' hx
    refine ⟨t, mk (n + 1) (some next),
      accept_group_eq_some_iff.mpr (Or.inl ⟨_, next, rfl, hnext, rfl⟩), ?_⟩
    rw [rest_group]
    rcases hboth with hu' | hu'
    · refine Language.append_mem_mul hu' (Occurs.mem_repeats_after_of_succ hp.bounded.sane ?_ hv)
      exact hone.imp_left fun h => Nat.le_trans h (Nat.succ_pos n)
    · obtain ⟨x, hx, y, hy, rfl⟩ := Language.mem_mul.mp hu'
      rw [List.append_assoc]
      exact Language.append_mem_mul hx (Occurs.append_mem_repeats_after hroom hy hv)

end Step

/-- **One step.** In a settled model a child with which something that may still come begins is
taken, and the rest of it may still come. -/
theorem accept_of_cons_mem_rest {p : Particle L} (hp : Plain fits p) (hset : Settled fits p)
    {s : Progress} {a : A} {w : List A} (hs : Reached fits p s) (hw : a :: w ∈ rest fits p s) :
    ∃ t s', accept (fits a) p s = some (t, s') ∧ w ∈ rest fits p s' := by
  have hlive := hs.live hp.bounded hw
  induction p using Particle.induction generalizing s w with
  | leaf t o =>
    obtain ⟨n, rfl⟩ := hs.leaf_cases
    obtain ⟨hroom, u, v, rfl, hu, hv⟩ := Occurs.cons_mem_repeats_after hw
    obtain ⟨rfl, hfits⟩ := cons_mem_letter.mp hu
    refine ⟨t, mk (n + 1 + 1) none, ?_, hv⟩
    rw [accept_leaf, hroom, hfits]
    rfl
  | group c ms o ih =>
    obtain ⟨n, before, q, after, ss, s₁, rfl, hlen, rfl, hs₁⟩ := hs.group_cases hp.ne_all
    have hq : q ∈ before ++ q :: after := by simp
    have hb := hp.members_bounded
    have hsetq := hset.member hlive hq
    rw [rest_group] at hw
    rcases cons_mem_mul.mp hw with ⟨u, v, rfl, hu, hv⟩ | ⟨hnil, hw⟩
    · rw [current_mk, Option.elim_some] at hu
      obtain ⟨t, next, hnext, hu'⟩ := acceptGroup_of_cons_mem_restGroup hp hlen
        (fun x hx => ih q hq (hp.member hq) hsetq hs₁ hx (hs₁.live (hb q hq) hx)) hu
      refine ⟨t, mk (n + 1) (some next),
        accept_group_eq_some_iff.mpr (Or.inl ⟨_, next, rfl, hnext, rfl⟩), ?_⟩
      rw [rest_group]
      exact Language.append_mem_mul hu' hv
    · rw [current_mk, Option.elim_some] at hnil
      have hsat := (satisfiedGroup_iff_nil_mem_restGroup hb _).mpr hnil
      exact accept_of_cons_mem_repeats hp hset.steady hsetq hlen hs₁ hsat hw

/-! ## All children -/

/-- A run: in a settled model whatever may still come is taken to its end. -/
theorem run_of_mem_rest {p : Particle L} (hp : Plain fits p) (hset : Settled fits p) {s : Progress}
    {w : List A} (hs : Reached fits p s) (hw : w ∈ rest fits p s) :
    ∃ s', run fits p s w = some s' ∧ satisfied p s' = true := by
  induction w generalizing s with
  | nil => exact ⟨s, rfl, (satisfied_iff_nil_mem_rest hp.bounded s).mpr hw⟩
  | cons a w ih =>
    obtain ⟨t, s₁, hacc, hw₁⟩ := accept_of_cons_mem_rest hp hset hs hw
    obtain ⟨s', hrun, hsat⟩ := ih (hs.accept hacc) hw₁
    exact ⟨s', run_cons_eq_some_iff.mpr ⟨t, s₁, hacc, hrun⟩, hsat⟩

/-- **Completeness.** A settled model matches all of its words. -/
theorem matches_of_mem_language {p : Particle L} (hp : Plain fits p) (hset : Settled fits p)
    {w : List A} (hw : w ∈ p.language fits) : Matches fits p w := by
  cases w with
  | nil =>
    refine ⟨fresh, rfl, ?_⟩
    rw [satisfied_fresh]
    exact (emptiable_iff_nil_mem_language hp.bounded).mpr hw
  | cons a w =>
    obtain ⟨t, s, hacc, hrest⟩ := accept_fresh hp hw
    obtain ⟨s', hrun, hsat⟩ := run_of_mem_rest hp hset (reached_of_accept_fresh hacc) hrest
    exact ⟨s', run_cons_eq_some_iff.mpr ⟨t, s, hacc, hrun⟩, hsat⟩

end Progress

end ScopedXml.Content
