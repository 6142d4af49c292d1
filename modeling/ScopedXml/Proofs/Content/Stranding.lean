import ScopedXml.Proofs.Content.Splitting

/-!
# Where going on does harm

Outside settled models the children of some word get stuck. Always going on then uses up what a
later occurrence would have needed, and the shortest words show it: they leave nothing to spare.

* `Progress.Stranded`: the children of a word are stuck where they may not end.
* `Progress.Stretches`: behind its shortest words, a particle goes on rather than to end.
* `Progress.settled_or_stranded`: a model in which nothing is ever stranded is settled.
-/

namespace ScopedXml.Content

variable {A L : Type}

/-! ## Shortest words -/

/-- None of the words that are spelled with these letters and are not empty is shorter. -/
structure Shortest (P : A → Prop) (l : Language A) (h : List A) : Prop where
  mem : h ∈ l
  ne_nil : h ≠ []
  spelled : ∀ a ∈ h, P a
  le : ∀ w ∈ l, w ≠ [] → (∀ a ∈ w, P a) → h.length ≤ w.length

namespace Shortest

variable {P : A → Prop} {l : Language A} {h : List A}

theorem exists_of_mem {w : List A} (hw : w ∈ l) (hne : w ≠ []) (hP : ∀ a ∈ w, P a) :
    ∃ h, Shortest P l h := by
  classical
  have hex : ∃ n, ∃ w ∈ l, w ≠ [] ∧ (∀ a ∈ w, P a) ∧ w.length = n :=
    ⟨w.length, w, hw, hne, hP, rfl⟩
  obtain ⟨h, hmem, hne, hP, hlen⟩ := Nat.find_spec hex
  refine ⟨h, hmem, hne, hP, fun w hw hne hP => ?_⟩
  rw [hlen]
  exact Nat.find_min' hex ⟨w, hw, hne, hP, rfl⟩

theorem length_pos (hh : Shortest P l h) : 0 < h.length := List.length_pos_iff.mpr hh.ne_nil

theorem le_length_of_mem_pow (hh : Shortest P l h) (hnil : [] ∉ l) {n : Nat} {w : List A}
    (hw : w ∈ l ^ n) (hP : ∀ a ∈ w, P a) : n * h.length ≤ w.length := by
  refine Content.le_length_of_mem_pow (fun u hu hPu => hh.le u hu ?_ hPu) hw hP
  rintro rfl
  exact hnil hu

theorem le_length_of_mem_proper_pow (hh : Shortest P l h) {n : Nat} {w : List A}
    (hw : w ∈ proper l ^ n) (hP : ∀ a ∈ w, P a) : n * h.length ≤ w.length :=
  Content.le_length_of_mem_pow (fun u hu hPu => hh.le u hu.1 hu.2 hPu) hw hP

end Shortest

namespace Particle

variable {fits : A → L → Bool} {c : Compositor} {before after : List (Particle L)} {o : Occurs}
  {p q r : Particle L}

theorem names_of_part (h : Part p r) {a : A} (ha : Names fits r a) : Names fits p a := by
  induction h with
  | self _ => exact ha
  | member hq _ ih => exact names_group.mpr ⟨_, hq, ih ha⟩

theorem Alone.mem_groupLanguage (hc : c ≠ .all) (h : Alone fits c before after) {w : List A}
    (hw : w ∈ q.language fits) : w ∈ groupLanguage fits c (before ++ q :: after) := by
  have hnil : [] ∈ beyond fits c after := nil_mem_beyond.mpr fun hc => (h hc).2
  have := append_mem_groupLanguage hc hw hnil fun hc => (h hc).1
  rwa [List.append_nil] at this

theorem exists_term_of_cons_mem {a : A} {w : List A} (h : a :: w ∈ p.language fits) :
    p.occurs.roomAfter 0 = true ∧
      ∃ u v, w = u ++ v ∧ a :: u ∈ p.term fits ∧
        v ∈ (p.occurs.after 1).repeats (p.term fits) := by
  rw [language_eq, ← Occurs.after_zero p.occurs] at h
  exact Occurs.cons_mem_repeats_after h

theorem mem_language_of_term (hp : p.Bounded) (hroom : p.occurs.roomAfter 0 = true)
    (hone : Enough fits p 1) {w : List A} (hw : w ∈ p.term fits) : w ∈ p.language fits := by
  rw [language_eq, ← Occurs.after_zero p.occurs]
  refine Occurs.mem_repeats_of_le hp.sane ((pow_one (p.term fits)).symm ▸ hw) hone fun m hm => ?_
  exact Occurs.roomAfter_iff.mp hroom m hm

theorem power_mem_language {n : Nat} {w : List A} (hn : p.occurs.Admits n) (hw : w ∈ p.term fits) :
    power w n ∈ p.language fits := by
  rw [language_eq]
  exact ⟨n, hn, power_mem_pow hw n⟩

end Particle

namespace Progress

open Particle

variable {fits : A → L → Bool}

/-! ## Getting stuck -/

/-- The children have begun a word of the particle, and are stuck where they may not end. -/
def Stranded (fits : A → L → Bool) (p : Particle L) : Prop :=
  ∃ u v s, u ++ v ∈ p.language fits ∧ run fits p fresh u = some s ∧ satisfied p s = false ∧
    ∀ b ∈ v.head?, accept (fits b) p s = none

theorem Stranded.exists_not_matches {p : Particle L} (h : Stranded fits p) :
    ∃ w ∈ p.language fits, ¬ Matches fits p w := by
  obtain ⟨u, v, s, hmem, hrun, hsat, hstuck⟩ := h
  refine ⟨u ++ v, hmem, ?_⟩
  rintro ⟨s', hrun', hsat'⟩
  obtain ⟨s₁, hu, hv⟩ := run_append_eq_some_iff.mp hrun'
  cases hrun.symm.trans hu
  cases v with
  | nil =>
    cases hv
    rw [hsat] at hsat'
    cases hsat'
  | cons b v =>
    obtain ⟨t, s₂, hacc, -⟩ := run_cons_eq_some_iff.mp hv
    rw [hstuck b rfl] at hacc
    cases hacc

/-- A run goes on to the end of the word, or until a child is refused. -/
theorem run_stops (fits : A → L → Bool) (p : Particle L) (s : Progress) (w : List A) :
    ∃ u v s', w = u ++ v ∧ run fits p s u = some s' ∧
      ∀ b ∈ v.head?, accept (fits b) p s' = none := by
  induction w generalizing s with
  | nil => exact ⟨[], [], s, rfl, rfl, nofun⟩
  | cons a w ih =>
    cases hacc : accept (fits a) p s with
    | none =>
      refine ⟨[], a :: w, s, rfl, rfl, ?_⟩
      rintro _ ⟨⟩
      exact hacc
    | some r =>
      obtain ⟨t, s₁⟩ := r
      obtain ⟨u, v, s', rfl, hrun, hstuck⟩ := ih s₁
      exact ⟨a :: u, v, s', rfl, run_cons_eq_some_iff.mpr ⟨t, s₁, hacc, hrun⟩, hstuck⟩

/-- A word is stranded when, from somewhere on, its children may end nowhere. -/
theorem stranded_of_run {p : Particle L} {s : Progress} {u w : List A}
    (hmem : u ++ w ∈ p.language fits) (hrun : run fits p fresh u = some s)
    (h : ∀ v v' s', w = v ++ v' → run fits p s v = some s' → satisfied p s' = false) :
    Stranded fits p := by
  obtain ⟨v, v', s', rfl, hv, hstuck⟩ := run_stops fits p s w
  refine ⟨u ++ v, v', s', ?_, run_append_eq_some_iff.mpr ⟨s, hrun, hv⟩, h v v' s' rfl hv, hstuck⟩
  rwa [List.append_assoc]

/-! ## Going on behind shortest words -/

/-- Where the children of the word may end, its first name is taken once more. -/
def Stretches (fits : A → L → Bool) (p : Particle L) (h : List A) : Prop :=
  ∀ s, run fits p fresh h = some s → satisfied p s = true →
    ∀ b ∈ h.head?, accept (fits b) p s ≠ none

theorem accept_ne_none_of_room {p : Particle L} (hp : Plain fits p) {s : Progress} {b : A}
    {w : List A} (hsat : satisfied p s = true) (hroom : p.occurs.roomAfter s.count = true)
    (hw : b :: w ∈ p.language fits) : accept (fits b) p s ≠ none := by
  obtain ⟨-, u, v, -, hu, -⟩ := exists_term_of_cons_mem hw
  cases p with
  | leaf t o =>
    obtain ⟨-, hfits⟩ := cons_mem_letter.mp hu
    have hroom' : o.roomAfter s.count = true := hroom
    rw [accept_leaf, hroom', hfits]
    nofun
  | group c ms o =>
    obtain ⟨t, next, hnext, -⟩ := acceptGroup_fresh_of_mem hp hu
    rw [satisfied_group, Bool.and_eq_true] at hsat
    rw [accept_group]
    have hanew : acceptAnew (fits b) c ms o s.count = some (t, mk (s.count + 1) (some next)) :=
      acceptAnew_eq_some_iff.mpr ⟨hroom, next, hnext, rfl⟩
    cases hcur : s.current with
    | none => simp [hanew]
    | some occurrence =>
      have hend : satisfiedGroup c ms occurrence = true := by simpa [hcur] using hsat.1
      dsimp only
      cases acceptGroup (fits b) c ms occurrence <;> simp [hend, hanew]

/-- Behind a shortest word, an elastic particle goes on: it has not begun more occurrences than it
could end with. -/
theorem stretches_of_elastic {p : Particle L} (hp : Plain fits p) (hel : Elastic fits p)
    {h : List A} (hh : Shortest (Names fits p) (p.language fits) h) : Stretches fits p h := by
  intro s hrun hsat b hb
  obtain ⟨w, rfl⟩ : ∃ w, h = b :: w := by
    cases h with
    | nil => cases hb
    | cons a w =>
      cases hb
      exact ⟨w, rfl⟩
  refine accept_ne_none_of_room hp hsat ?_ hh.mem
  obtain ⟨n, hn, henough, hroom⟩ := hel
  obtain ⟨-, u, v, rfl, hu, -⟩ := exists_term_of_cons_mem hh.mem
  obtain ⟨g, hg⟩ := Shortest.exists_of_mem hu (List.cons_ne_nil b u) fun a ha =>
    hh.spelled a (List.mem_append_left v ha)
  have hroom' := Occurs.roomAfter_iff.mp hroom
  have hpower : power g n ∈ p.language fits := by
    rw [language_eq, ← Occurs.after_zero p.occurs]
    exact Occurs.mem_repeats_of_le hp.bounded.sane (power_mem_pow hg.mem n) henough
      fun m hm => (hroom' m hm).le
  have hle := hh.le _ hpower (power_ne_nil hn hg.ne_nil) fun a ha =>
    hg.spelled a (mem_of_mem_power ha)
  have hge := hg.le_length_of_mem_proper_pow (mem_pow_of_run hp.bounded hrun hsat) hh.spelled
  rw [length_power] at hle
  have hcount : s.count ≤ n := Nat.le_of_mul_le_mul_right (hge.trans hle) hg.length_pos
  exact Occurs.roomAfter_iff.mpr fun m hm => hcount.trans_lt (hroom' m hm)

section Members

variable {c : Compositor} {before after : List (Particle L)} {q : Particle L} {o : Occurs}
  {P : A → Prop} {h : List A}

/-- The shortest words of a member that can stand alone are shortest words of an occurrence. -/
theorem shortest_groupLanguage (hp : Plain fits (.group c (before ++ q :: after) o))
    (halone : Alone fits c before after) (hP : ∀ a, P a → Names fits q a)
    (hh : Shortest P (q.language fits) h) :
    Shortest P (groupLanguage fits c (before ++ q :: after)) h where
  mem := halone.mem_groupLanguage hp.ne_all hh.mem
  ne_nil := hh.ne_nil
  spelled := hh.spelled
  le _ hw hne hPw := hh.le _ (mem_language_of_confined hp hne (fun a ha => hP a (hPw a ha)) hw) hne
    hPw

theorem shortest_of_enough (hp : Plain fits (.group c (before ++ q :: after) o))
    (hroom : o.roomAfter 0 = true) (hone : Enough fits (.group c (before ++ q :: after) o) 1)
    (hh : Shortest P (groupLanguage fits c (before ++ q :: after)) h) :
    Shortest P (Particle.language fits (.group c (before ++ q :: after) o)) h where
  mem := mem_language_of_term hp.bounded hroom hone hh.mem
  ne_nil := hh.ne_nil
  spelled := hh.spelled
  le w hw hne hPw := by
    cases w with
    | nil => exact absurd rfl hne
    | cons a w =>
      obtain ⟨-, u, v, rfl, hu, -⟩ := exists_term_of_cons_mem hw
      have := hh.le _ hu (List.cons_ne_nil a u) fun b hb => hPw b (List.mem_append_left v hb)
      simp only [List.length_cons, List.length_append] at this ⊢
      omega

/-- Otherwise as many of them as are needed make up a shortest word of the group. -/
theorem shortest_of_not_enough (hp : Plain fits (.group c (before ++ q :: after) o))
    (hone : ¬ Enough fits (.group c (before ++ q :: after) o) 1)
    (hh : Shortest P (groupLanguage fits c (before ++ q :: after)) h) :
    Shortest P (Particle.language fits (.group c (before ++ q :: after) o)) (power h o.least) where
  mem := power_mem_language ⟨Nat.le_refl _, hp.bounded.sane⟩ hh.mem
  ne_nil := by
    have hleast : ¬ o.least ≤ 1 := fun h => hone (Or.inl h)
    exact power_ne_nil (Nat.zero_lt_of_lt (Nat.lt_of_not_le hleast)) hh.ne_nil
  spelled a ha := hh.spelled a (mem_of_mem_power ha)
  le w hw _ hPw := by
    have hnil : [] ∉ groupLanguage fits c (before ++ q :: after) := fun h => hone (Or.inr h)
    rw [language_group] at hw
    obtain ⟨n, ⟨hn, -⟩, hw⟩ := hw
    have := hh.le_length_of_mem_pow hnil hw hPw
    rw [length_power]
    exact (Nat.mul_le_mul_right _ hn).trans this

theorem run_shortest (hp : Plain fits (.group c (before ++ q :: after) o))
    (hP : ∀ a, P a → Names fits q a)
    (hh : Shortest P (groupLanguage fits c (before ++ q :: after)) h) {s : Progress}
    (hrun : run fits (.group c (before ++ q :: after) o) fresh h = some s) :
    ∃ s', s = mk 1 (some (.reaching (untouched before) s' after)) ∧
      run fits q fresh h = some s' := by
  obtain ⟨n, u, v, occurrence, rfl, hsplit, hu, hv, hgroup⟩ :=
    run_cases hp.members_bounded hh.ne_nil hrun
  have hle := hh.le_length_of_mem_proper_pow hu fun a ha =>
    hh.spelled a (hsplit ▸ List.mem_append_left v ha)
  have hpos := List.length_pos_iff.mpr hv
  have hlen := congrArg List.length hsplit
  rw [List.length_append] at hlen
  cases n with
  | zero =>
    obtain rfl := (Language.mem_one u).mp hu
    obtain rfl : h = v := hsplit
    obtain ⟨s', rfl, hs'⟩ := runGroup_confined hp (fun a ha => hP a (hh.spelled a ha)) hh.ne_nil
      hgroup
    exact ⟨s', rfl, hs'⟩
  | succ n =>
    rw [Nat.succ_mul] at hle
    omega

/-- A group goes on where its member does. -/
theorem stretches_group (hp : Plain fits (.group c (before ++ q :: after) o))
    (hP : ∀ a, P a → Names fits q a)
    (hh : Shortest P (groupLanguage fits c (before ++ q :: after)) h) (hq : Stretches fits q h) :
    Stretches fits (.group c (before ++ q :: after) o) h := by
  intro s hrun hsat b hb
  obtain ⟨s', rfl, hs'⟩ := run_shortest hp hP hh hrun
  have hlen := length_untouched before
  have hsatG := ((satisfied_group_iff fits hp.bounded rfl).mp hsat).1
  have hsat' := ((satisfiedGroup_reaching hp.ne_all hlen).mp hsatG).1
  obtain ⟨⟨t, s₂⟩, hacc⟩ := Option.ne_none_iff_exists'.mp (hq s' hs' hsat' b hb)
  rw [accept_group, current_mk]
  dsimp only
  rw [acceptGroup_reaching hp.ne_all hlen hacc]
  nofun

/-- When one occurrence is not enough, going on behind the first one leaves too little for the
others. -/
theorem not_matches_power (hp : Plain fits (.group c (before ++ q :: after) o))
    (hone : ¬ Enough fits (.group c (before ++ q :: after) o) 1) (hP : ∀ a, P a → Names fits q a)
    (hh : Shortest P (groupLanguage fits c (before ++ q :: after)) h) (hq : Stretches fits q h) :
    ¬ Matches fits (.group c (before ++ q :: after) o) (power h o.least) := by
  rintro ⟨s, hrun, hsat⟩
  have hleast : ¬ o.least ≤ 1 := fun h => hone (Or.inl h)
  have hnil : [] ∉ groupLanguage fits c (before ++ q :: after) := fun h => hone (Or.inr h)
  obtain ⟨k, hk⟩ : ∃ k, o.least = k + 2 := ⟨o.least - 2, by omega⟩
  have hlen := length_untouched before
  rw [hk, power, run_append_eq_some_iff] at hrun
  obtain ⟨s₁, hfirst, hrun⟩ := hrun
  obtain ⟨s', rfl, hs'⟩ := run_shortest hp hP hh hfirst
  cases hsplit : h with
  | nil => exact hh.ne_nil hsplit
  | cons b z =>
    have hb : b ∈ h.head? := by rw [hsplit, List.head?_cons, Option.mem_some_iff]
    rw [power, hsplit, List.cons_append, ← hsplit] at hrun
    obtain ⟨t, s₂, hacc, hrun⟩ := run_cons_eq_some_iff.mp hrun
    rcases accept_group_eq_some_iff.mp hacc with
      ⟨_, next, -, -, rfl⟩ | ⟨hend, -⟩
    · -- The first occurrence is longer than necessary, so what is left is too short.
      have hrest := append_mem_rest_of_run hp.bounded hrun
        ((satisfied_iff_nil_mem_rest hp.bounded s).mp hsat)
      rw [List.append_nil, rest_group] at hrest
      obtain ⟨x, -, y, ⟨m, hm, hy⟩, hxy⟩ := Language.mem_mul.mp hrest
      have hm := (Occurs.admits_after_iff.mp hm).1
      have hle := hh.le_length_of_mem_pow hnil hy fun a ha => by
        have : a ∈ z ++ power h k := hxy ▸ List.mem_append_right x ha
        rcases List.mem_append.mp this with ha | ha
        · exact hh.spelled a (hsplit ▸ List.mem_cons_of_mem b ha)
        · exact hh.spelled a (mem_of_mem_power ha)
      have hm' : (k + 1) * h.length ≤ m * h.length := Nat.mul_le_mul_right _ (by
        simp only [count_mk] at hm
        omega)
      have hlength := congrArg List.length hxy
      have hcons := congrArg List.length hsplit
      simp only [List.length_append, length_power, List.length_cons] at hlength hcons
      rw [Nat.succ_mul] at hm'
      omega
    · obtain ⟨hnone, hsatG⟩ := hend _ rfl
      have hsat' := ((satisfiedGroup_reaching hp.ne_all hlen).mp hsatG).1
      obtain ⟨⟨t', s₃⟩, hacc'⟩ := Option.ne_none_iff_exists'.mp (hq s' hs' hsat' b hb)
      rw [acceptGroup_reaching hp.ne_all hlen hacc'] at hnone
      cases hnone

end Members

/-- A particle that is filled by an elastic one goes on behind one of its shortest words. -/
theorem exists_shortest_stretches {p r : Particle L} (hp : Plain fits p) (hr : Fills fits p r)
    (hel : Elastic fits r) :
    ∃ h, Shortest (Names fits r) (p.language fits) h ∧ Stretches fits p h := by
  induction hr with
  | self hlive =>
    obtain ⟨a, w, hw⟩ := hlive
    obtain ⟨h, hh⟩ :=
      Shortest.exists_of_mem hw (List.cons_ne_nil a w) (spelled_language fits _ _ hw)
    exact ⟨h, hh, stretches_of_elastic hp hel hh⟩
  | @member c before after o q r hlive halone hr ih =>
    obtain ⟨h, hh, hq⟩ := ih (hp.member (by simp)) hel
    have hP : ∀ a, Names fits r a → Names fits q a := fun a => names_of_part hr.part
    have hgroup := shortest_groupLanguage hp halone hP hh
    by_cases hone : Enough fits (.group c (before ++ q :: after) o) 1
    · obtain ⟨a, w, hw⟩ := hlive
      exact ⟨h, shortest_of_enough hp (exists_term_of_cons_mem hw).1 hone hgroup,
        stretches_group hp hP hgroup hq⟩
    · refine ⟨power h o.least, shortest_of_not_enough hp hone hgroup, fun s hrun hsat => ?_⟩
      exact absurd ⟨s, hrun, hsat⟩ (not_matches_power hp hone hP hgroup hq)

end Progress

end ScopedXml.Content
