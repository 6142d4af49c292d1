import ScopedXml.Proofs.Content.Occurrence

/-!
# What may still come

`Progress.rest` is the language that progress within a particle leaves open: the words that finish
the occurrence under way, followed by as many more occurrences as the bounds still allow. At the
start it is the language of the particle (`rest_fresh`).

* `Progress.leads_of_accept`: behind a child, only words are left that the child could precede.
* `Progress.satisfied_iff_nil_mem_rest`: the children may end exactly where nothing is left open.
* `Progress.mem_language_of_matches`: whatever is matched is a word of the model. Nothing is asked
  of the model but that its bounds make sense.
-/

namespace ScopedXml.Content

variable {A L : Type}

/-- With `a` in front, every word of `l` is one of `m`. -/
def Leads (a : A) (m l : Language A) : Prop := ∀ w ∈ l, a :: w ∈ m

namespace Leads

theorem mul_right {a : A} {m l : Language A} (h : Leads a m l) (k : Language A) :
    Leads a (m * k) (l * k) := by
  intro w hw
  obtain ⟨u, hu, v, hv, rfl⟩ := Language.mem_mul.mp hw
  exact cons_mem_mul.mpr (Or.inl ⟨u, v, rfl, h u hu, hv⟩)

theorem mul_left {a : A} {m l k : Language A} (h : Leads a m l) (hnil : [] ∈ k) :
    Leads a (k * m) l := fun w hw => cons_mem_mul.mpr (Or.inr ⟨hnil, h w hw⟩)

theorem interleave_left {a : A} {m l : Language A} (h : Leads a m l) (k : Language A) :
    Leads a (interleave m k) (interleave l k) := by
  rintro w ⟨u, hu, v, hv, hw⟩
  exact ⟨a :: u, h u hu, v, hv, hw.left⟩

theorem interleave_right {a : A} {m l : Language A} (h : Leads a m l) (k : Language A) :
    Leads a (interleave k m) (interleave k l) := by
  rintro w ⟨u, hu, v, hv, hw⟩
  exact ⟨u, hu, a :: v, h v hv, hw.right⟩

theorem repeats {a : A} {m l : Language A} (h : Leads a m l) {o : Occurs} {n : Nat}
    (hroom : o.roomAfter n = true) :
    Leads a ((o.after n).repeats m) (l * (o.after (n + 1)).repeats m) := by
  intro w hw
  obtain ⟨u, hu, v, hv, rfl⟩ := Language.mem_mul.mp hw
  exact Occurs.append_mem_repeats_after hroom (h u hu) hv

end Leads

namespace Progress

open Particle

mutual

/-- The words that may still come. -/
def rest (fits : A → L → Bool) : Particle L → Progress → Language A
  | .leaf t o, s => (o.after s.count).repeats (letter fits t)
  | .group c ms o, s =>
    (match s.current with
      | none => 1
      | some (.mk cursor states) =>
        match c, cursor with
        | .sequence, _ => restFrom fits ms states (cursor.getD 0)
        | .choice, some index => restAt fits ms states index
        | .choice, none => restAny fits ms states
        | .all, _ => restAll fits ms states)
    * (o.after s.count).repeats (groupLanguage fits c ms)
termination_by structural p => p

def restFrom (fits : A → L → Bool) : List (Particle L) → List Progress → Nat → Language A
  | p :: ps, s :: ss, 0 => rest fits p s * restFrom fits ps ss 0
  | _ :: ps, _ :: ss, skip + 1 => restFrom fits ps ss skip
  | _, _, _ => 1
termination_by structural ps => ps

def restAt (fits : A → L → Bool) : List (Particle L) → List Progress → Nat → Language A
  | p :: _, s :: _, 0 => rest fits p s
  | _ :: ps, _ :: ss, index + 1 => restAt fits ps ss index
  | _, _, _ => 0
termination_by structural ps => ps

def restAny (fits : A → L → Bool) : List (Particle L) → List Progress → Language A
  | p :: ps, s :: ss => rest fits p s + restAny fits ps ss
  | _, _ => 0
termination_by structural ps => ps

def restAll (fits : A → L → Bool) : List (Particle L) → List Progress → Language A
  | p :: ps, s :: ss => interleave (rest fits p s) (restAll fits ps ss)
  | _, _ => 1
termination_by structural ps => ps

end

/-- The words that finish one occurrence of a group. -/
def restGroup (fits : A → L → Bool) (c : Compositor) (ms : List (Particle L)) :
    Occurrence → Language A
  | .mk cursor states =>
    match c, cursor with
    | .sequence, _ => restFrom fits ms states (cursor.getD 0)
    | .choice, some index => restAt fits ms states index
    | .choice, none => restAny fits ms states
    | .all, _ => restAll fits ms states

theorem rest_leaf (fits : A → L → Bool) (t : L) (o : Occurs) (s : Progress) :
    rest fits (.leaf t o) s = (o.after s.count).repeats (letter fits t) := rfl

theorem rest_group (fits : A → L → Bool) (c : Compositor) (ms : List (Particle L)) (o : Occurs)
    (s : Progress) :
    rest fits (.group c ms o) s =
      s.current.elim 1 (restGroup fits c ms)
        * (o.after s.count).repeats (groupLanguage fits c ms) := by
  rcases s with ⟨n, _ | ⟨cursor, states⟩⟩
  · rfl
  · cases c <;> cases cursor <;> rfl

/-! ## At the start -/

theorem rest_fresh (fits : A → L → Bool) (p : Particle L) :
    rest fits p fresh = p.language fits := by
  cases p with
  | leaf t o => rw [rest_leaf, language_leaf, count_fresh, Occurs.after_zero]
  | group c ms o => simp [rest_group, language_group]

theorem restFrom_fresh (fits : A → L → Bool) (ms : List (Particle L)) :
    restFrom fits ms (ms.map fun _ => fresh) 0 = inSequence fits ms := by
  induction ms with
  | nil => rfl
  | cons p ps ih => rw [List.map_cons, restFrom, rest_fresh, ih, inSequence]

theorem restAny_fresh (fits : A → L → Bool) (ms : List (Particle L)) :
    restAny fits ms (ms.map fun _ => fresh) = inChoice fits ms := by
  induction ms with
  | nil => rfl
  | cons p ps ih => rw [List.map_cons, restAny, rest_fresh, ih, inChoice]

theorem restAll_fresh (fits : A → L → Bool) (ms : List (Particle L)) :
    restAll fits ms (ms.map fun _ => fresh) = inAnyOrder fits ms := by
  induction ms with
  | nil => rfl
  | cons p ps ih => rw [List.map_cons, restAll, rest_fresh, ih, inAnyOrder]

theorem restGroup_fresh (fits : A → L → Bool) (c : Compositor) (ms : List (Particle L)) :
    restGroup fits c ms (.fresh ms) = groupLanguage fits c ms := by
  cases c with
  | sequence => exact restFrom_fresh fits ms
  | choice => exact restAny_fresh fits ms
  | all => exact restAll_fresh fits ms

/-! ## The end of the children -/

theorem satisfied_fresh (p : Particle L) : satisfied p fresh = p.emptiable := by
  cases p with
  | leaf t o => simp [satisfied, emptiable, Bool.beq_eq_decide_eq]
  | group c ms o =>
    rw [satisfied_group]
    cases c <;> simp [emptiable, emptiableGroup, Bool.beq_eq_decide_eq]

theorem satisfiedFrom_fresh (ms : List (Particle L)) :
    satisfiedFrom ms (ms.map fun _ => fresh) 0 = emptiableAll ms := by
  induction ms with
  | nil => rfl
  | cons p ps ih => rw [List.map_cons, satisfiedFrom, satisfied_fresh, ih, emptiableAll]

theorem satisfiedAny_fresh (ms : List (Particle L)) :
    satisfiedAny ms (ms.map fun _ => fresh) = emptiableAny ms := by
  induction ms with
  | nil => rfl
  | cons p ps ih => rw [List.map_cons, satisfiedAny, satisfied_fresh, ih, emptiableAny]

theorem satisfiedGroup_fresh (c : Compositor) (ms : List (Particle L)) :
    satisfiedGroup c ms (.fresh ms) = emptiableGroup c ms := by
  cases c with
  | sequence => exact satisfiedFrom_fresh ms
  | choice => exact satisfiedAny_fresh ms
  | all => exact satisfiedFrom_fresh ms

section Members

variable {fits : A → L → Bool} {ms : List (Particle L)}

/-- `satisfied` tells where the empty word may still come. -/
def TellsEnd (fits : A → L → Bool) (q : Particle L) : Prop :=
  ∀ s, satisfied q s = true ↔ [] ∈ rest fits q s

theorem satisfiedFrom_iff_nil_mem (h : ∀ q ∈ ms, TellsEnd fits q) (ss : List Progress)
    (skip : Nat) :
    satisfiedFrom ms ss skip = true ↔ [] ∈ restFrom fits ms ss skip := by
  induction ms generalizing ss skip with
  | nil => cases ss <;> simp [satisfiedFrom, restFrom]
  | cons p ps ih =>
    obtain ⟨hp, hps⟩ := List.forall_mem_cons.mp h
    cases ss with
    | nil => simp [satisfiedFrom, restFrom]
    | cons s ss =>
      cases skip with
      | zero => simp [satisfiedFrom, restFrom, hp s, ih hps]
      | succ skip => exact ih hps ss skip

theorem satisfiedAt_iff_nil_mem (h : ∀ q ∈ ms, TellsEnd fits q) (ss : List Progress) (i : Nat) :
    satisfiedAt ms ss i = true ↔ [] ∈ restAt fits ms ss i := by
  induction ms generalizing ss i with
  | nil => cases ss <;> simp [satisfiedAt, restAt, Language.notMem_zero]
  | cons p ps ih =>
    obtain ⟨hp, hps⟩ := List.forall_mem_cons.mp h
    cases ss with
    | nil => simp [satisfiedAt, restAt, Language.notMem_zero]
    | cons s ss =>
      cases i with
      | zero => exact hp s
      | succ i => exact ih hps ss i

theorem satisfiedAny_iff_nil_mem (h : ∀ q ∈ ms, TellsEnd fits q) (ss : List Progress) :
    satisfiedAny ms ss = true ↔ [] ∈ restAny fits ms ss := by
  induction ms generalizing ss with
  | nil => cases ss <;> simp [satisfiedAny, restAny, Language.notMem_zero]
  | cons p ps ih =>
    obtain ⟨hp, hps⟩ := List.forall_mem_cons.mp h
    cases ss with
    | nil => simp [satisfiedAny, restAny, Language.notMem_zero]
    | cons s ss => simp [satisfiedAny, restAny, Language.mem_add, hp s, ih hps]

theorem satisfiedFrom_iff_nil_mem_restAll (h : ∀ q ∈ ms, TellsEnd fits q) (ss : List Progress) :
    satisfiedFrom ms ss 0 = true ↔ [] ∈ restAll fits ms ss := by
  induction ms generalizing ss with
  | nil => cases ss <;> simp [satisfiedFrom, restAll]
  | cons p ps ih =>
    obtain ⟨hp, hps⟩ := List.forall_mem_cons.mp h
    cases ss with
    | nil => simp [satisfiedFrom, restAll]
    | cons s ss => simp [satisfiedFrom, restAll, nil_mem_interleave, hp s, ih hps]

theorem satisfiedGroup_iff_of_tellsEnd (h : ∀ q ∈ ms, TellsEnd fits q) (c : Compositor)
    (occurrence : Occurrence) :
    satisfiedGroup c ms occurrence = true ↔ [] ∈ restGroup fits c ms occurrence := by
  rcases occurrence with ⟨cursor, states⟩
  cases c with
  | sequence => exact satisfiedFrom_iff_nil_mem h states _
  | choice =>
    cases cursor with
    | none => exact satisfiedAny_iff_nil_mem h states
    | some i => exact satisfiedAt_iff_nil_mem h states i
  | all => exact satisfiedFrom_iff_nil_mem_restAll h states

theorem emptiableGroup_iff_of_tellsEnd (h : ∀ q ∈ ms, TellsEnd fits q) (c : Compositor) :
    emptiableGroup c ms = true ↔ [] ∈ groupLanguage fits c ms := by
  rw [← restGroup_fresh, ← satisfiedGroup_iff_of_tellsEnd h, satisfiedGroup_fresh]

end Members

/-- The children may end exactly where the empty word may still come. -/
theorem satisfied_iff_nil_mem_rest {fits : A → L → Bool} {p : Particle L} (hp : p.Bounded)
    (s : Progress) : satisfied p s = true ↔ [] ∈ rest fits p s := by
  induction p using Particle.induction generalizing s with
  | leaf t o =>
    have hs : o.Sane := hp.sane
    rw [rest_leaf, Occurs.nil_mem_repeats_after hs]
    simp [satisfied, nil_notMem_letter]
  | group c ms o ih =>
    have hms : ∀ q ∈ ms, TellsEnd fits q := fun q hq s => ih q hq (hp.member hq) s
    have hs : o.Sane := hp.sane
    rw [satisfied_group, rest_group, nil_mem_mul, Occurs.nil_mem_repeats_after hs,
      Bool.and_eq_true, Bool.or_eq_true, decide_eq_true_iff, emptiableGroup_iff_of_tellsEnd hms]
    cases s.current with
    | none => simp
    | some occurrence => simp [satisfiedGroup_iff_of_tellsEnd hms]

theorem satisfiedGroup_iff_nil_mem_restGroup {fits : A → L → Bool} {c : Compositor}
    {ms : List (Particle L)} (hms : ∀ q ∈ ms, q.Bounded) (occurrence : Occurrence) :
    satisfiedGroup c ms occurrence = true ↔ [] ∈ restGroup fits c ms occurrence :=
  satisfiedGroup_iff_of_tellsEnd (fun q hq s => satisfied_iff_nil_mem_rest (hms q hq) s) c
    occurrence

theorem emptiable_iff_nil_mem_language {fits : A → L → Bool} {p : Particle L} (hp : p.Bounded) :
    p.emptiable = true ↔ [] ∈ p.language fits := by
  rw [← satisfied_fresh, ← rest_fresh, satisfied_iff_nil_mem_rest hp]

theorem emptiableGroup_iff_nil_mem {fits : A → L → Bool} {c : Compositor}
    {ms : List (Particle L)} (hms : ∀ q ∈ ms, q.Bounded) :
    emptiableGroup c ms = true ↔ [] ∈ groupLanguage fits c ms :=
  emptiableGroup_iff_of_tellsEnd (fun q hq s => satisfied_iff_nil_mem_rest (hms q hq) s) c

/-! ## Behind a child -/

section Members

variable {fits : A → L → Bool} {a : A} {ms : List (Particle L)}

/-- What is left open behind `a` is what `a` could precede. -/
def LeadsOn (fits : A → L → Bool) (a : A) (q : Particle L) : Prop :=
  ∀ s t s', accept (fits a) q s = some (t, s') → Leads a (rest fits q s) (rest fits q s')

theorem leads_of_acceptFrom (hb : ∀ q ∈ ms, q.Bounded) (h : ∀ q ∈ ms, LeadsOn fits a q)
    {ss ss' : List Progress} {skip i : Nat} {t : L}
    (hacc : acceptFrom (fits a) ms ss skip = some (t, i, ss')) :
    Leads a (restFrom fits ms ss skip) (restFrom fits ms ss' i) := by
  induction ms generalizing ss ss' skip i with
  | nil => simp [acceptFrom] at hacc
  | cons p ps ih =>
    obtain ⟨hbp, hbps⟩ := List.forall_mem_cons.mp hb
    obtain ⟨hp, hps⟩ := List.forall_mem_cons.mp h
    cases ss with
    | nil => simp [acceptFrom] at hacc
    | cons s ss =>
      cases skip with
      | zero =>
        rw [acceptFrom] at hacc
        split at hacc
        · rename_i t' s' hs
          cases hacc
          exact (hp s _ s' hs).mul_right _
        · split at hacc
          · rename_i hsat
            rw [Option.map_eq_some_iff] at hacc
            obtain ⟨⟨_, j, ss₁⟩, hacc, h⟩ := hacc
            cases h
            -- The member is passed over, so nothing of the word belongs to it.
            have hnil : [] ∈ rest fits p s := (satisfied_iff_nil_mem_rest hbp s).mp hsat
            exact (ih hbps hps hacc).mul_left hnil
          · cases hacc
      | succ skip =>
        rw [acceptFrom, Option.map_eq_some_iff] at hacc
        obtain ⟨⟨_, j, ss₁⟩, hacc, h⟩ := hacc
        cases h
        exact ih hbps hps hacc

theorem leads_of_acceptAt (h : ∀ q ∈ ms, LeadsOn fits a q) {ss ss' : List Progress} {i : Nat}
    {t : L} (hacc : acceptAt (fits a) ms ss i = some (t, ss')) :
    Leads a (restAt fits ms ss i) (restAt fits ms ss' i) := by
  induction ms generalizing ss ss' i with
  | nil => simp [acceptAt] at hacc
  | cons p ps ih =>
    obtain ⟨hp, hps⟩ := List.forall_mem_cons.mp h
    cases ss with
    | nil => simp [acceptAt] at hacc
    | cons s ss =>
      cases i with
      | zero =>
        rw [acceptAt, Option.map_eq_some_iff] at hacc
        obtain ⟨⟨_, s'⟩, hacc, h⟩ := hacc
        cases h
        exact hp s _ s' hacc
      | succ i =>
        rw [acceptAt, Option.map_eq_some_iff] at hacc
        obtain ⟨⟨_, ss₁⟩, hacc, h⟩ := hacc
        cases h
        exact ih hps hacc

theorem leads_of_acceptAny (h : ∀ q ∈ ms, LeadsOn fits a q) {ss ss' : List Progress} {i : Nat}
    {t : L} (hacc : acceptAny (fits a) ms ss = some (t, i, ss')) :
    Leads a (restAny fits ms ss) (restAt fits ms ss' i) ∧
      Leads a (restAll fits ms ss) (restAll fits ms ss') := by
  induction ms generalizing ss ss' i with
  | nil => simp [acceptAny] at hacc
  | cons p ps ih =>
    obtain ⟨hp, hps⟩ := List.forall_mem_cons.mp h
    cases ss with
    | nil => simp [acceptAny] at hacc
    | cons s ss =>
      rw [acceptAny] at hacc
      split at hacc
      · rename_i t' s' hs
        cases hacc
        have hlead := hp s _ s' hs
        exact ⟨fun w hw => (Language.mem_add _ _ _).mpr (Or.inl (hlead w hw)),
          hlead.interleave_left _⟩
      · rw [Option.map_eq_some_iff] at hacc
        obtain ⟨⟨_, j, ss₁⟩, hacc, h⟩ := hacc
        cases h
        obtain ⟨hany, hall⟩ := ih hps hacc
        exact ⟨fun w hw => (Language.mem_add _ _ _).mpr (Or.inr (hany w hw)),
          hall.interleave_right _⟩

theorem leads_of_acceptGroup_of_leadsOn (hb : ∀ q ∈ ms, q.Bounded)
    (h : ∀ q ∈ ms, LeadsOn fits a q) {c : Compositor} {occurrence next : Occurrence} {t : L}
    (hacc : acceptGroup (fits a) c ms occurrence = some (t, next)) :
    Leads a (restGroup fits c ms occurrence) (restGroup fits c ms next) := by
  rcases occurrence with ⟨cursor, states⟩
  cases c with
  | sequence =>
    rw [acceptGroup, Option.map_eq_some_iff] at hacc
    obtain ⟨⟨_, i, ss⟩, hacc, h'⟩ := hacc
    cases h'
    exact leads_of_acceptFrom hb h hacc
  | choice =>
    cases cursor with
    | none =>
      rw [acceptGroup, Option.map_eq_some_iff] at hacc
      obtain ⟨⟨_, i, ss⟩, hacc, h'⟩ := hacc
      cases h'
      exact (leads_of_acceptAny h hacc).1
    | some i =>
      rw [acceptGroup, Option.map_eq_some_iff] at hacc
      obtain ⟨⟨_, ss⟩, hacc, h'⟩ := hacc
      cases h'
      exact leads_of_acceptAt h hacc
  | all =>
    rw [acceptGroup, Option.map_eq_some_iff] at hacc
    obtain ⟨⟨_, i, ss⟩, hacc, h'⟩ := hacc
    cases h'
    exact (leads_of_acceptAny h hacc).2

end Members

/-- One step: behind a child, only words are left that the child could precede. -/
theorem leads_of_accept {fits : A → L → Bool} {a : A} {p : Particle L} (hp : p.Bounded) :
    LeadsOn fits a p := by
  induction p using Particle.induction with
  | leaf t o =>
    intro s t' s' hacc
    rw [accept_leaf] at hacc
    split at hacc
    · rename_i h
      cases hacc
      rw [Bool.and_eq_true] at h
      intro w hw
      have hletter : [a] ∈ letter fits t := ⟨a, rfl, h.2⟩
      exact Occurs.append_mem_repeats_after h.1 hletter hw
    · cases hacc
  | group c ms o ih =>
    intro s t s' hacc
    have hb : ∀ q ∈ ms, q.Bounded := fun q hq => hp.member hq
    have hms : ∀ q ∈ ms, LeadsOn fits a q := fun q hq => ih q hq (hb q hq)
    rw [rest_group, rest_group]
    rcases accept_group_eq_some_iff.mp hacc with
      ⟨occurrence, next, hcur, hnext, rfl⟩ | ⟨hend, hroom, next, hnext, rfl⟩
    · rw [hcur]
      exact (leads_of_acceptGroup_of_leadsOn hb hms hnext).mul_right _
    · have hlead := leads_of_acceptGroup_of_leadsOn hb hms hnext
      rw [restGroup_fresh] at hlead
      refine (hlead.repeats hroom).mul_left ?_
      cases hcur : s.current with
      | none => exact Language.nil_mem_one
      | some occurrence =>
        exact (satisfiedGroup_iff_nil_mem_restGroup hb occurrence).mp (hend occurrence hcur).2

theorem leads_of_acceptGroup {fits : A → L → Bool} {a : A} {c : Compositor}
    {ms : List (Particle L)} (hb : ∀ q ∈ ms, q.Bounded) {occurrence next : Occurrence} {t : L}
    (hacc : acceptGroup (fits a) c ms occurrence = some (t, next)) :
    Leads a (restGroup fits c ms occurrence) (restGroup fits c ms next) :=
  leads_of_acceptGroup_of_leadsOn hb (fun q hq => leads_of_accept (hb q hq)) hacc

/-! ## Runs -/

/-- A run: behind a word, only words are left that the whole word could precede. -/
theorem append_mem_rest_of_run {fits : A → L → Bool} {p : Particle L} (hp : p.Bounded)
    {s s' : Progress} {u v : List A} (hrun : run fits p s u = some s') (hv : v ∈ rest fits p s') :
    u ++ v ∈ rest fits p s := by
  induction u generalizing s with
  | nil =>
    cases hrun
    exact hv
  | cons a u ih =>
    obtain ⟨t, s₁, hacc, hrun⟩ := run_cons_eq_some_iff.mp hrun
    exact leads_of_accept hp s t s₁ hacc _ (ih hrun)

theorem append_mem_restGroup_of_runGroup {fits : A → L → Bool} {c : Compositor}
    {ms : List (Particle L)} (hb : ∀ q ∈ ms, q.Bounded) {occurrence next : Occurrence}
    {u v : List A} (hrun : runGroup fits c ms occurrence u = some next)
    (hv : v ∈ restGroup fits c ms next) : u ++ v ∈ restGroup fits c ms occurrence := by
  induction u generalizing occurrence with
  | nil =>
    cases hrun
    exact hv
  | cons a u ih =>
    rw [runGroup_cons, Option.bind_eq_some_iff] at hrun
    obtain ⟨⟨t, between⟩, hacc, hrun⟩ := hrun
    exact leads_of_acceptGroup hb hacc _ (ih hrun)

/-- **Soundness.** Whatever is matched is a word of the model. -/
theorem mem_language_of_matches {fits : A → L → Bool} {p : Particle L} (hp : p.Bounded)
    {w : List A} (h : Matches fits p w) : w ∈ p.language fits := by
  obtain ⟨s, hrun, hsat⟩ := h
  have hnil : [] ∈ rest fits p s := (satisfied_iff_nil_mem_rest hp s).mp hsat
  have := append_mem_rest_of_run hp hrun hnil
  rwa [List.append_nil, rest_fresh] at this

theorem mem_groupLanguage_of_runGroup {fits : A → L → Bool} {c : Compositor}
    {ms : List (Particle L)} (hb : ∀ q ∈ ms, q.Bounded) {w : List A} {next : Occurrence}
    (hrun : runGroup fits c ms (.fresh ms) w = some next)
    (hsat : satisfiedGroup c ms next = true) : w ∈ groupLanguage fits c ms := by
  have hnil : [] ∈ restGroup fits c ms next :=
    (satisfiedGroup_iff_nil_mem_restGroup hb next).mp hsat
  have := append_mem_restGroup_of_runGroup hb hrun hnil
  rwa [List.append_nil, restGroup_fresh] at this

end Progress

end ScopedXml.Content
