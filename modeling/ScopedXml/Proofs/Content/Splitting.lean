import ScopedXml.Proofs.Content.Steadiness

/-!
# The occurrences in a run

A run through a group splits the word into the occurrences that the group has begun, and the last
one is a run through the members.

* `Progress.run_cases`: the occurrences of a run, each of them a word that is not empty.
* `Progress.run_anew`, `Progress.run_power`: runs that begin another occurrence, once or many times.
* `Progress.runGroup_confined`: names that belong to one member leave the others untouched.
* `Progress.runGroup_enter`: a run that passes some members and then enters the next.
-/

namespace ScopedXml.Content

variable {A L : Type}

/-! ## Words that are not empty -/

/-- The words of a language except the empty one. -/
def proper (l : Language A) : Language A := {w | w ∈ l ∧ w ≠ []}

theorem le_length_of_mem_pow {P : A → Prop} {l : Language A} {k : Nat}
    (h : ∀ w ∈ l, (∀ a ∈ w, P a) → k ≤ w.length) {n : Nat} {w : List A} (hw : w ∈ l ^ n)
    (hP : ∀ a ∈ w, P a) : n * k ≤ w.length := by
  induction n generalizing w with
  | zero => simp
  | succ n ih =>
    rw [pow_succ] at hw
    obtain ⟨u, hu, v, hv, rfl⟩ := Language.mem_mul.mp hw
    have hu' := ih hu fun a ha => hP a (List.mem_append_left v ha)
    have hv' := h v hv fun a ha => hP a (List.mem_append_right u ha)
    rw [List.length_append, Nat.succ_mul]
    omega

/-- A word again and again. -/
def power (w : List A) : Nat → List A
  | 0 => []
  | n + 1 => w ++ power w n

theorem power_succ' (w : List A) (n : Nat) : power w (n + 1) = power w n ++ w := by
  induction n with
  | zero => simp [power]
  | succ n ih =>
    change w ++ power w (n + 1) = w ++ power w n ++ w
    rw [ih, List.append_assoc]

theorem power_add (w : List A) (n m : Nat) : power w (n + m) = power w n ++ power w m := by
  induction n with
  | zero => simp [power]
  | succ n ih => rw [Nat.succ_add, power, ih, power, List.append_assoc]

theorem power_cut (a : A) (z : List A) (n k : Nat) :
    power (a :: z) (n + 1) ++ [a] ++ (z ++ power (a :: z) k) =
      power (a :: z) n ++ power (a :: z) (k + 2) := by
  calc power (a :: z) (n + 1) ++ [a] ++ (z ++ power (a :: z) k)
      = power (a :: z) (n + 1) ++ power (a :: z) (k + 1) := by
        rw [List.append_assoc]
        rfl
    _ = power (a :: z) n ++ power (a :: z) (k + 2) := by
        rw [← power_add, ← power_add, Nat.add_assoc, Nat.add_comm 1]

@[simp] theorem length_power (w : List A) (n : Nat) : (power w n).length = n * w.length := by
  induction n with
  | zero => simp [power]
  | succ n ih => rw [power, List.length_append, ih, Nat.succ_mul, Nat.add_comm]

theorem power_ne_nil {w : List A} {n : Nat} (hn : 0 < n) (h : w ≠ []) : power w n ≠ [] := by
  rw [← List.length_pos_iff, length_power]
  exact Nat.mul_pos hn (List.length_pos_iff.mpr h)

theorem mem_of_mem_power {w : List A} {n : Nat} {a : A} (h : a ∈ power w n) : a ∈ w := by
  induction n with
  | zero => cases h
  | succ n ih => exact (List.mem_append.mp h).elim id ih

theorem power_mem_pow {l : Language A} {w : List A} (h : w ∈ l) (n : Nat) : power w n ∈ l ^ n := by
  induction n with
  | zero => exact Language.nil_mem_one
  | succ n ih =>
    rw [pow_succ']
    exact Language.append_mem_mul h ih

namespace Progress

open Particle

variable {fits : A → L → Bool} {c : Compositor} {ms : List (Particle L)} {o : Occurs}

/-! ## Splitting a run -/

theorem runGroup_singleton_eq_some_iff {occurrence next : Occurrence} {a : A} :
    runGroup fits c ms occurrence [a] = some next ↔
      ∃ t, acceptGroup (fits a) c ms occurrence = some (t, next) := by
  rw [runGroup_cons]
  cases acceptGroup (fits a) c ms occurrence <;> simp [Prod.ext_iff]

theorem runGroup_concat_eq_some_iff {occurrence next : Occurrence} {w : List A} {a : A} :
    runGroup fits c ms occurrence (w ++ [a]) = some next ↔
      ∃ between t, runGroup fits c ms occurrence w = some between ∧
        acceptGroup (fits a) c ms between = some (t, next) := by
  rw [runGroup_append_eq_some_iff]
  constructor
  · rintro ⟨between, hw, ha⟩
    obtain ⟨t, hacc⟩ := runGroup_singleton_eq_some_iff.mp ha
    exact ⟨between, t, hw, hacc⟩
  · rintro ⟨between, t, hw, hacc⟩
    exact ⟨between, hw, runGroup_singleton_eq_some_iff.mpr ⟨t, hacc⟩⟩

/-- The occurrences of a run: those that have come to an end, and the one under way. -/
theorem run_cases (hb : ∀ q ∈ ms, q.Bounded) {s : Progress} {w : List A} (hne : w ≠ [])
    (h : run fits (.group c ms o) fresh w = some s) :
    ∃ n u v occurrence, s = mk (n + 1) (some occurrence) ∧ w = u ++ v ∧
      u ∈ proper (groupLanguage fits c ms) ^ n ∧ v ≠ [] ∧
      runGroup fits c ms (.fresh ms) v = some occurrence := by
  induction w using List.reverseRecOn generalizing s with
  | nil => exact absurd rfl hne
  | append_singleton w a ih =>
    obtain ⟨s₁, t, hrun, hacc⟩ := run_concat_eq_some_iff.mp h
    cases w with
    | nil =>
      cases hrun
      rcases accept_group_eq_some_iff.mp hacc with
        ⟨_, _, hcur, -, -⟩ | ⟨-, -, next, hnext, rfl⟩
      · cases hcur
      · exact ⟨0, [], [a], next, rfl, rfl, Language.nil_mem_one, nofun,
          runGroup_singleton_eq_some_iff.mpr ⟨t, hnext⟩⟩
    | cons b w =>
      obtain ⟨n, u, v, occurrence, rfl, hsplit, hu, hv, hlast⟩ := ih nofun hrun
      rw [hsplit]
      rcases accept_group_eq_some_iff.mp hacc with
        ⟨_, next, hcur, hnext, rfl⟩ | ⟨hend, -, next, hnext, rfl⟩
      · cases hcur
        exact ⟨n, u, v ++ [a], next, rfl, List.append_assoc u v [a], hu, by simp,
          runGroup_concat_eq_some_iff.mpr ⟨occurrence, t, hlast, hnext⟩⟩
      · have hmem : v ∈ proper (groupLanguage fits c ms) :=
          ⟨mem_groupLanguage_of_runGroup hb hlast (hend occurrence rfl).2, hv⟩
        refine ⟨n + 1, u ++ v, [a], next, rfl, rfl, ?_, nofun,
          runGroup_singleton_eq_some_iff.mpr ⟨t, hnext⟩⟩
        rw [pow_succ]
        exact Language.append_mem_mul hu hmem

/-- Where the children may end, every occurrence that has begun is a word. -/
theorem mem_pow_of_run {p : Particle L} (hp : p.Bounded) {s : Progress} {w : List A}
    (h : run fits p fresh w = some s) (hsat : satisfied p s = true) :
    w ∈ proper (p.term fits) ^ s.count := by
  cases p with
  | leaf t o =>
    clear hsat
    induction w using List.reverseRecOn generalizing s with
    | nil =>
      cases h
      exact Language.nil_mem_one
    | append_singleton w a ih =>
      obtain ⟨s₁, t, hrun, hacc⟩ := run_concat_eq_some_iff.mp h
      rw [accept_leaf] at hacc
      split at hacc
      · rename_i hfits
        cases hacc
        rw [count_mk, pow_succ]
        exact Language.append_mem_mul (ih hrun)
          ⟨⟨a, rfl, (Bool.and_eq_true _ _ ▸ hfits).2⟩, nofun⟩
      · cases hacc
  | group c ms o =>
    cases w with
    | nil =>
      cases h
      exact Language.nil_mem_one
    | cons a w =>
      have hb : ∀ q ∈ ms, q.Bounded := fun q hq => hp.member hq
      obtain ⟨n, u, v, occurrence, rfl, hsplit, hu, hv, hlast⟩ :=
        run_cases hb (List.cons_ne_nil a w) h
      have hsatG := ((satisfied_group_iff fits hp rfl).mp hsat).1
      rw [hsplit, count_mk, pow_succ]
      exact Language.append_mem_mul hu ⟨mem_groupLanguage_of_runGroup hb hlast hsatG, hv⟩

/-! ## Going on -/

theorem run_onward {n : Nat} {occurrence next : Occurrence} {w : List A}
    (h : runGroup fits c ms occurrence w = some next) :
    run fits (.group c ms o) (mk n (some occurrence)) w = some (mk n (some next)) := by
  induction w generalizing occurrence with
  | nil =>
    cases h
    rfl
  | cons a w ih =>
    rw [runGroup_cons, Option.bind_eq_some_iff] at h
    obtain ⟨⟨t, between⟩, hacc, hw⟩ := h
    exact run_cons_eq_some_iff.mpr ⟨t, _,
      accept_group_eq_some_iff.mpr (Or.inl ⟨occurrence, between, rfl, hacc, rfl⟩), ih hw⟩

/-- A run that begins another occurrence, because the one under way has come to an end. -/
theorem run_anew {s : Progress} {a : A} {w : List A} {next : Occurrence}
    (hroom : o.roomAfter s.count = true)
    (hend : ∀ occurrence ∈ s.current, acceptGroup (fits a) c ms occurrence = none ∧
      satisfiedGroup c ms occurrence = true)
    (h : runGroup fits c ms (.fresh ms) (a :: w) = some next) :
    run fits (.group c ms o) s (a :: w) = some (mk (s.count + 1) (some next)) := by
  rw [runGroup_cons, Option.bind_eq_some_iff] at h
  obtain ⟨⟨t, first⟩, hacc, hw⟩ := h
  exact run_cons_eq_some_iff.mpr ⟨t, _,
    accept_group_eq_some_iff.mpr (Or.inr ⟨hend, hroom, first, hacc, rfl⟩), run_onward hw⟩

theorem run_of_runGroup {w : List A} {next : Occurrence} (hroom : o.roomAfter 0 = true)
    (hne : w ≠ []) (h : runGroup fits c ms (.fresh ms) w = some next) :
    run fits (.group c ms o) fresh w = some (mk 1 (some next)) := by
  cases w with
  | nil => exact absurd rfl hne
  | cons a w => exact @run_anew A L fits c ms o fresh a w next hroom nofun h

/-- An occurrence that refuses to go on can be followed by others of the same kind. -/
theorem run_power {a : A} {w : List A} {occurrence : Occurrence}
    (h : runGroup fits c ms (.fresh ms) (a :: w) = some occurrence)
    (hsat : satisfiedGroup c ms occurrence = true)
    (hstop : acceptGroup (fits a) c ms occurrence = none) {n : Nat}
    (hmost : ∀ m ∈ o.most, n + 1 ≤ m) :
    run fits (.group c ms o) fresh (power (a :: w) (n + 1)) =
      some (mk (n + 1) (some occurrence)) := by
  induction n with
  | zero =>
    have hroom : o.roomAfter fresh.count = true := Occurs.roomAfter_iff.mpr hmost
    simpa [power] using run_anew hroom nofun h
  | succ n ih =>
    have hroom : o.roomAfter (n + 1) = true := Occurs.roomAfter_iff.mpr hmost
    rw [power_succ']
    refine run_append_eq_some_iff.mpr
      ⟨_, ih fun m hm => Nat.le_of_succ_le (hmost m hm), run_anew hroom ?_ h⟩
    rintro _ ⟨⟩
    exact ⟨hstop, hsat⟩

/-! ## Within a member -/

section Members

variable {before after : List (Particle L)} {q : Particle L} {ss : List Progress}
  {s s' : Progress} {w : List A}

theorem runGroup_reaching (hc : c ≠ .all) (hlen : ss.length = before.length)
    (h : run fits q s w = some s') :
    runGroup fits c (before ++ q :: after) (.reaching ss s after) w =
      some (.reaching ss s' after) := by
  induction w generalizing s with
  | nil =>
    cases h
    rfl
  | cons a w ih =>
    obtain ⟨t, s₁, hacc, hw⟩ := run_cons_eq_some_iff.mp h
    rw [runGroup_cons, acceptGroup_reaching hc hlen hacc]
    exact ih hw

/-- When all names of a word belong to one member, the run is one of this member. -/
theorem runGroup_confined (hp : Plain fits (.group c (before ++ q :: after) o))
    (hnames : ∀ a ∈ w, Names fits q a) (hne : w ≠ []) {next : Occurrence}
    (h : runGroup fits c (before ++ q :: after) (.fresh (before ++ q :: after)) w = some next) :
    ∃ s, next = .reaching (untouched before) s after ∧ run fits q fresh w = some s := by
  induction w using List.reverseRecOn generalizing next with
  | nil => exact absurd rfl hne
  | append_singleton w a ih =>
    obtain ⟨between, t, hw, hacc⟩ := runGroup_concat_eq_some_iff.mp h
    have ha : Names fits q a := hnames a (by simp)
    cases w with
    | nil =>
      cases hw
      obtain ⟨before', q', after', s, hms, hs, rfl, -⟩ := acceptGroup_fresh_cases hp.ne_all hacc
      obtain ⟨rfl, rfl, rfl⟩ := hp.split_unique ha hms (names_of_accept hs)
      exact ⟨s, rfl, run_concat_eq_some_iff.mpr ⟨fresh, t, rfl, hs⟩⟩
    | cons b w =>
      obtain ⟨s, rfl, hrun⟩ := ih (fun d hd => hnames d (List.mem_append_left [a] hd))
        (List.cons_ne_nil b w) hw
      have hlen := length_untouched before
      rcases acceptGroup_reaching_cases hp.ne_all hlen hacc with
        ⟨s', hs', rfl⟩ | ⟨-, -, -, between, r, later, s', rfl, -, hr, -⟩
      · exact ⟨s', rfl, run_concat_eq_some_iff.mpr ⟨s, t, hrun, hs'⟩⟩
      · exact absurd (names_of_accept hr) ((hp.attributed.not_names ha).2 r (by simp))

/-- The words of a group whose names all belong to one member are words of this member. -/
theorem mem_language_of_confined (hp : Plain fits (.group c (before ++ q :: after) o))
    (hne : w ≠ []) (hnames : ∀ a ∈ w, Names fits q a)
    (hw : w ∈ groupLanguage fits c (before ++ q :: after)) : w ∈ q.language fits := by
  cases w with
  | nil => exact absurd rfl hne
  | cons a w =>
    obtain ⟨before', q', after', u, v, hms, rfl, hu, hv, -⟩ := cons_mem_groupLanguage hp.ne_all hw
    have ha := hnames a List.mem_cons_self
    obtain ⟨rfl, rfl, rfl⟩ := hp.split_unique ha hms (names_of_cons_mem_language hu)
    cases v with
    | nil => rwa [List.append_nil]
    | cons b v =>
      -- A name of a later member cannot be one of this member.
      obtain ⟨r, hr, hb⟩ : ∃ r ∈ after, Names fits r b := by
        cases c with
        | sequence =>
          obtain ⟨before', r, after', x, y, hafter, -, hx, -⟩ := cons_mem_inSequence hv
          exact ⟨r, by simp [hafter], names_of_cons_mem_language hx⟩
        | choice => cases (Language.mem_one _).mp hv
        | all => cases (Language.mem_one _).mp hv
      exact absurd hb ((hp.attributed.not_names (hnames b (by simp))).2 r hr)

end Members

/-! ## Past some members -/

/-- A run of a word of the first members: it has reached one of them, and those up to `rest` may be
passed over. -/
def Passes (fits : A → L → Bool) (c : Compositor) (before rest : List (Particle L))
    (w : List A) : Prop :=
  (w = [] ∧ (c = .sequence → emptiableAll before = true)) ∨
  c = .sequence ∧ ∃ front m back ss s, before = front ++ m :: back ∧ ss.length = front.length ∧
    runGroup fits c (before ++ rest) (.fresh (before ++ rest)) w =
      some (.reaching ss s (back ++ rest)) ∧
    satisfied m s = true ∧ emptiableAll back = true

/-- Behind the members that have been passed, the next one is entered. -/
theorem runGroup_enter {before after : List (Particle L)} {q : Particle L} {w v : List A}
    {s : Progress} (hp : Plain fits (.group c (before ++ q :: after) o))
    (hpass : Passes fits c before (q :: after) w) (hne : v ≠ [])
    (hrun : run fits q fresh v = some s) :
    ∃ ss, ss.length = before.length ∧
      runGroup fits c (before ++ q :: after) (.fresh (before ++ q :: after)) (w ++ v) =
        some (.reaching ss s after) := by
  cases v with
  | nil => exact absurd rfl hne
  | cons b v =>
    obtain ⟨t, s₁, hacc, hv⟩ := run_cons_eq_some_iff.mp hrun
    have hrefuse : ∀ r ∈ before, Refuses (fits b) r := fun r hr =>
      accept_eq_none ((hp.attributed.not_names (names_of_accept hacc)).1 r hr)
    rcases hpass with ⟨rfl, hempty⟩ | ⟨rfl, front, m, back, ss, s₀, rfl, hlen, hw, hsat, hempty⟩
    · refine ⟨untouched before, length_untouched before, ?_⟩
      rw [List.nil_append, runGroup_cons, acceptGroup_fresh hp.ne_all hrefuse hempty hacc]
      exact runGroup_reaching hp.ne_all (length_untouched before) hv
    · have hlen' : (ss ++ s₀ :: untouched back).length = (front ++ m :: back).length := by
        simp [hlen]
      refine ⟨ss ++ s₀ :: untouched back, hlen', runGroup_append_eq_some_iff.mpr ⟨_, hw, ?_⟩⟩
      have hassoc : front ++ m :: back ++ q :: after = front ++ m :: (back ++ q :: after) := by simp
      have hlater := @acceptGroup_reaching_later L (fits b) front m ss s₀ s₁ t back after q hlen
        (hrefuse m (by simp) s₀) hsat (fun x hx => hrefuse x (by simp [hx])) hempty hacc
      rw [runGroup_cons, hassoc, hlater]
      have hlast := @runGroup_reaching A L fits .sequence (front ++ m :: back) after q
        (ss ++ s₀ :: untouched back) s₁ s v hp.ne_all hlen' hv
      rw [hassoc] at hlast
      exact hlast

theorem passes_of_mem_inSequence {before rest : List (Particle L)} {w : List A}
    (hp : Plain fits (.group .sequence (before ++ rest) o))
    (hmatch : ∀ r ∈ before, ∀ u ∈ r.language fits, Matches fits r u)
    (hw : w ∈ inSequence fits before) : Passes fits .sequence before rest w := by
  induction before using List.reverseRecOn generalizing rest w with
  | nil => exact Or.inl ⟨(Language.mem_one w).mp hw, fun _ => rfl⟩
  | append_singleton before m ih =>
    have hassoc : before ++ [m] ++ rest = before ++ m :: rest := by simp
    rw [hassoc] at hp
    rw [inSequence_append] at hw
    obtain ⟨u, hu, v, hv, rfl⟩ := Language.mem_mul.mp hw
    have hv : v ∈ m.language fits := by simpa [inSequence] using hv
    have hpass := ih hp (fun r hr => hmatch r (List.mem_append_left [m] hr)) hu
    cases v with
    | nil =>
      have hm : m.emptiable = true := (emptiable_iff_nil_mem_language (hp.members_bounded m
        (by simp))).mpr hv
      rw [List.append_nil]
      rcases hpass with ⟨rfl, hempty⟩ | ⟨-, front, m', back, ss, s, rfl, hlen, hrun, hsat, hempty⟩
      · refine Or.inl ⟨rfl, fun hc => emptiableAll_iff.mpr fun q hq => ?_⟩
        rcases List.mem_append.mp hq with hq | hq
        · exact emptiableAll_iff.mp (hempty hc) q hq
        · rwa [List.mem_singleton.mp hq]
      · refine Or.inr ⟨rfl, front, m', back ++ [m], ss, s, by simp, hlen, ?_, hsat,
          emptiableAll_iff.mpr fun q hq => ?_⟩
        · simpa using hrun
        · rcases List.mem_append.mp hq with hq | hq
          · exact emptiableAll_iff.mp hempty q hq
          · rwa [List.mem_singleton.mp hq]
    | cons b v =>
      obtain ⟨s, hrun, hsat⟩ := hmatch m (by simp) _ hv
      obtain ⟨ss, hlen, hgroup⟩ := runGroup_enter hp hpass (List.cons_ne_nil b v) hrun
      refine Or.inr ⟨rfl, before, m, [], ss, s, rfl, hlen, ?_, hsat, rfl⟩
      rwa [hassoc]

end Progress

end ScopedXml.Content
