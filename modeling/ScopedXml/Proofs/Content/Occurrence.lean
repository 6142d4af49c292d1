import ScopedXml.Content.Progress
import ScopedXml.Proofs.Content.Language

/-!
# One child, one occurrence

What a group does with a child, told apart from the counting of its occurrences.

* `Progress.acceptGroup`: the child is offered to one occurrence of the group.
* `Progress.accept_group_eq_some_iff`: all that can happen when a group takes a child. Either the
  occurrence under way takes it, or that occurrence refuses it, may end, and another begins.
* `Progress.takenAt_of_acceptGroup`: within an occurrence one member takes it, and only the progress
  of that member changes.
* `Progress.run`: many children, one after another.
-/

namespace ScopedXml.Content

variable {A L : Type}

/-- An occurrence that has seen no child. -/
def Occurrence.fresh (ms : List (Particle L)) : Occurrence := .mk none (ms.map fun _ => .fresh)

/-- `P` holds for the progress of every member, and the cursor points at one of them. -/
def Occurrence.Each (P : Particle L → Progress → Prop) (ms : List (Particle L)) :
    Occurrence → Prop
  | .mk cursor states => List.Forall₂ P ms states ∧ ∀ i ∈ cursor, i < ms.length

theorem Occurrence.Each.imp {P Q : Particle L → Progress → Prop} {ms : List (Particle L)}
    {occurrence : Occurrence} (h : occurrence.Each P ms) (hPQ : ∀ q ∈ ms, ∀ s, P q s → Q q s) :
    occurrence.Each Q ms := by
  rcases occurrence with ⟨cursor, states⟩
  obtain ⟨hlength, hstates⟩ := List.forall₂_iff_zip.mp h.1
  exact ⟨List.forall₂_iff_zip.mpr ⟨hlength, fun hmem =>
    hPQ _ (List.of_mem_zip hmem).1 _ (hstates hmem)⟩, h.2⟩

namespace Progress

@[simp] theorem count_mk (n : Nat) (current : Option Occurrence) : (mk n current).count = n := rfl

@[simp] theorem current_mk (n : Nat) (current : Option Occurrence) :
    (mk n current).current = current := rfl

@[simp] theorem count_fresh : fresh.count = 0 := rfl

@[simp] theorem current_fresh : fresh.current = none := rfl

/-- The leaf within one occurrence of a group that takes a child, and the occurrence behind it. -/
def acceptGroup (fits : L → Bool) (c : Compositor) (ms : List (Particle L)) :
    Occurrence → Option (L × Occurrence)
  | .mk cursor states =>
    match c, cursor with
    | .sequence, _ =>
      (acceptFrom fits ms states (cursor.getD 0)).map fun (t, index, states) =>
        (t, .mk (some index) states)
    | .choice, some index =>
      (acceptAt fits ms states index).map fun (t, states) => (t, .mk (some index) states)
    | .choice, none =>
      (acceptAny fits ms states).map fun (t, index, states) => (t, .mk (some index) states)
    | .all, _ => (acceptAny fits ms states).map fun (t, _, states) => (t, .mk cursor states)

/-- The child is the first of another occurrence, if there may be one. -/
def acceptAnew (fits : L → Bool) (c : Compositor) (ms : List (Particle L)) (o : Occurs)
    (count : Nat) : Option (L × Progress) :=
  if o.roomAfter count then
    (acceptGroup fits c ms (.fresh ms)).map fun (t, occurrence) =>
      (t, mk (count + 1) (some occurrence))
  else none

theorem accept_leaf (fits : L → Bool) (t : L) (o : Occurs) (s : Progress) :
    accept fits (.leaf t o) s =
      if o.roomAfter s.count && fits t then some (t, mk (s.count + 1) none) else none := rfl

theorem accept_group (fits : L → Bool) (c : Compositor) (ms : List (Particle L)) (o : Occurs)
    (s : Progress) :
    accept fits (.group c ms o) s =
      match s.current with
      | none => acceptAnew fits c ms o s.count
      | some occurrence =>
        match acceptGroup fits c ms occurrence with
        | some (t, next) => some (t, mk s.count (some next))
        | none =>
          if satisfiedGroup c ms occurrence then acceptAnew fits c ms o s.count else none := by
  rcases s with ⟨n, _ | ⟨cursor, states⟩⟩
  · cases c <;> rfl
  · cases c <;> cases cursor <;> rfl

theorem acceptAnew_eq_some_iff {fits : L → Bool} {c : Compositor} {ms : List (Particle L)}
    {o : Occurs} {n : Nat} {t : L} {s : Progress} :
    acceptAnew fits c ms o n = some (t, s) ↔
      o.roomAfter n = true ∧ ∃ next, acceptGroup fits c ms (.fresh ms) = some (t, next) ∧
        s = mk (n + 1) (some next) := by
  unfold acceptAnew
  split
  · rename_i h
    simp [h, Prod.ext_iff, eq_comm]
  · rename_i h
    simp [h]

theorem accept_group_eq_some_iff {fits : L → Bool} {c : Compositor} {ms : List (Particle L)}
    {o : Occurs} {s s' : Progress} {t : L} :
    accept fits (.group c ms o) s = some (t, s') ↔
      (∃ occurrence next, s.current = some occurrence ∧
        acceptGroup fits c ms occurrence = some (t, next) ∧ s' = mk s.count (some next)) ∨
      ((∀ occurrence ∈ s.current, acceptGroup fits c ms occurrence = none ∧
          satisfiedGroup c ms occurrence = true) ∧
        o.roomAfter s.count = true ∧
        ∃ next, acceptGroup fits c ms (.fresh ms) = some (t, next) ∧
          s' = mk (s.count + 1) (some next)) := by
  rw [accept_group]
  cases s.current with
  | none => simp [acceptAnew_eq_some_iff]
  | some occurrence =>
    dsimp only
    cases hacc : acceptGroup fits c ms occurrence with
    | some r =>
      rcases r with ⟨t', next⟩
      simp only [Option.some.injEq, Prod.mk.injEq]
      constructor
      · rintro ⟨rfl, rfl⟩
        exact Or.inl ⟨occurrence, next, rfl, hacc, rfl⟩
      · rintro (⟨_, next', rfl, h, rfl⟩ | ⟨h, -⟩)
        · rw [hacc] at h
          cases h
          exact ⟨rfl, rfl⟩
        · rw [(h occurrence rfl).1] at hacc
          cases hacc
    | none =>
      cases hsat : satisfiedGroup c ms occurrence <;>
        simp [hacc, hsat, acceptAnew_eq_some_iff]

/-! ## The member that takes it -/

/-- The member with this index takes the child, and no other one changes. -/
inductive TakenAt (fits : L → Bool) (t : L) :
    List (Particle L) → List Progress → Nat → List Progress → Prop
  | head {p : Particle L} {ps : List (Particle L)} {s s' : Progress} {ss : List Progress} :
    accept fits p s = some (t, s') → TakenAt fits t (p :: ps) (s :: ss) 0 (s' :: ss)
  | tail {p : Particle L} {ps : List (Particle L)} {s : Progress} {ss ss' : List Progress}
    {i : Nat} : TakenAt fits t ps ss i ss' → TakenAt fits t (p :: ps) (s :: ss) (i + 1) (s :: ss')

section Members

variable {fits : L → Bool} {t : L} {ms : List (Particle L)} {ss ss' : List Progress} {i : Nat}

theorem TakenAt.lt_length (h : TakenAt fits t ms ss i ss') : i < ms.length := by
  induction h with
  | head _ => exact Nat.succ_pos _
  | tail _ ih => exact Nat.succ_lt_succ ih

theorem TakenAt.forall₂ {P : Particle L → Progress → Prop} (h : TakenAt fits t ms ss i ss')
    (hkeep : ∀ q ∈ ms, ∀ s t s', P q s → accept fits q s = some (t, s') → P q s')
    (hss : List.Forall₂ P ms ss) : List.Forall₂ P ms ss' := by
  induction h with
  | head hacc =>
    obtain ⟨hs, hss⟩ := List.forall₂_cons.mp hss
    exact .cons (hkeep _ List.mem_cons_self _ _ _ hs hacc) hss
  | tail _ ih =>
    obtain ⟨hs, hss⟩ := List.forall₂_cons.mp hss
    exact .cons hs (ih (fun q hq => hkeep q (List.mem_cons_of_mem _ hq)) hss)

theorem takenAt_of_acceptFrom {skip : Nat}
    (hacc : acceptFrom fits ms ss skip = some (t, i, ss')) : TakenAt fits t ms ss i ss' := by
  induction ms generalizing ss ss' skip i with
  | nil => simp [acceptFrom] at hacc
  | cons p ps ih =>
    cases ss with
    | nil => simp [acceptFrom] at hacc
    | cons s ss =>
      cases skip with
      | zero =>
        rw [acceptFrom] at hacc
        split at hacc
        · rename_i hs
          cases hacc
          exact .head hs
        · split at hacc
          · rw [Option.map_eq_some_iff] at hacc
            obtain ⟨⟨_, _, _⟩, hacc, heq⟩ := hacc
            cases heq
            exact .tail (ih hacc)
          · cases hacc
      | succ skip =>
        rw [acceptFrom, Option.map_eq_some_iff] at hacc
        obtain ⟨⟨_, _, _⟩, hacc, heq⟩ := hacc
        cases heq
        exact .tail (ih hacc)

theorem takenAt_of_acceptAt (hacc : acceptAt fits ms ss i = some (t, ss')) :
    TakenAt fits t ms ss i ss' := by
  induction ms generalizing ss ss' i with
  | nil => simp [acceptAt] at hacc
  | cons p ps ih =>
    cases ss with
    | nil => simp [acceptAt] at hacc
    | cons s ss =>
      cases i with
      | zero =>
        rw [acceptAt, Option.map_eq_some_iff] at hacc
        obtain ⟨⟨_, _⟩, hacc, heq⟩ := hacc
        cases heq
        exact .head hacc
      | succ i =>
        rw [acceptAt, Option.map_eq_some_iff] at hacc
        obtain ⟨⟨_, _⟩, hacc, heq⟩ := hacc
        cases heq
        exact .tail (ih hacc)

theorem takenAt_of_acceptAny (hacc : acceptAny fits ms ss = some (t, i, ss')) :
    TakenAt fits t ms ss i ss' := by
  induction ms generalizing ss ss' i with
  | nil => simp [acceptAny] at hacc
  | cons p ps ih =>
    cases ss with
    | nil => simp [acceptAny] at hacc
    | cons s ss =>
      rw [acceptAny] at hacc
      split at hacc
      · rename_i hs
        cases hacc
        exact .head hs
      · rw [Option.map_eq_some_iff] at hacc
        obtain ⟨⟨_, _, _⟩, hacc, heq⟩ := hacc
        cases heq
        exact .tail (ih hacc)

/-- An occurrence that takes a child moves to the member that takes it, or stays where it is. -/
theorem takenAt_of_acceptGroup {c : Compositor} {cursor : Option Nat} {next : Occurrence}
    (hacc : acceptGroup fits c ms (.mk cursor ss) = some (t, next)) :
    ∃ i cursor' ss', next = .mk cursor' ss' ∧ TakenAt fits t ms ss i ss' ∧
      (cursor' = some i ∨ cursor' = cursor) := by
  cases c with
  | sequence =>
    rw [acceptGroup, Option.map_eq_some_iff] at hacc
    obtain ⟨⟨_, i, ss'⟩, hacc, heq⟩ := hacc
    cases heq
    exact ⟨i, some i, ss', rfl, takenAt_of_acceptFrom hacc, Or.inl rfl⟩
  | choice =>
    cases cursor with
    | none =>
      rw [acceptGroup, Option.map_eq_some_iff] at hacc
      obtain ⟨⟨_, i, ss'⟩, hacc, heq⟩ := hacc
      cases heq
      exact ⟨i, some i, ss', rfl, takenAt_of_acceptAny hacc, Or.inl rfl⟩
    | some i =>
      rw [acceptGroup, Option.map_eq_some_iff] at hacc
      obtain ⟨⟨_, ss'⟩, hacc, heq⟩ := hacc
      cases heq
      exact ⟨i, some i, ss', rfl, takenAt_of_acceptAt hacc, Or.inl rfl⟩
  | all =>
    rw [acceptGroup, Option.map_eq_some_iff] at hacc
    obtain ⟨⟨_, i, ss'⟩, hacc, heq⟩ := hacc
    cases heq
    exact ⟨i, cursor, ss', rfl, takenAt_of_acceptAny hacc, Or.inr rfl⟩

/-- What a child keeps in each member, it keeps in the occurrence. -/
theorem each_of_acceptGroup {P : Particle L → Progress → Prop}
    (hkeep : ∀ q ∈ ms, ∀ s t s', P q s → accept fits q s = some (t, s') → P q s')
    {c : Compositor} {occurrence next : Occurrence} (heach : occurrence.Each P ms)
    (hacc : acceptGroup fits c ms occurrence = some (t, next)) : next.Each P ms := by
  rcases occurrence with ⟨cursor, states⟩
  obtain ⟨hstates, hcursor⟩ := heach
  obtain ⟨i, cursor', states', rfl, htaken, hmoved⟩ := takenAt_of_acceptGroup hacc
  refine ⟨htaken.forall₂ hkeep hstates, ?_⟩
  rcases hmoved with rfl | rfl
  · rintro _ ⟨⟩
    exact htaken.lt_length
  · exact hcursor

end Members

/-! ## Runs -/

/-- The progress behind some children, if every one of them is taken. -/
def run (fits : A → L → Bool) (p : Particle L) (s : Progress) (w : List A) : Option Progress :=
  w.foldlM (fun s a => (accept (fits a) p s).map (·.2)) s

/-- The occurrence behind some children, if it takes every one of them. -/
def runGroup (fits : A → L → Bool) (c : Compositor) (ms : List (Particle L))
    (occurrence : Occurrence) (w : List A) : Option Occurrence :=
  w.foldlM (fun occurrence a => (acceptGroup (fits a) c ms occurrence).map (·.2)) occurrence

/-- Every child is taken, and then the children may end. -/
def Matches (fits : A → L → Bool) (p : Particle L) (w : List A) : Prop :=
  ∃ s, run fits p fresh w = some s ∧ satisfied p s = true

@[simp] theorem run_nil (fits : A → L → Bool) (p : Particle L) (s : Progress) :
    run fits p s [] = some s := rfl

theorem run_cons (fits : A → L → Bool) (p : Particle L) (s : Progress) (a : A) (w : List A) :
    run fits p s (a :: w) = (accept (fits a) p s).bind fun r => run fits p r.2 w := by
  rw [run, List.foldlM_cons]
  cases accept (fits a) p s <;> rfl

theorem run_append (fits : A → L → Bool) (p : Particle L) (s : Progress) (u v : List A) :
    run fits p s (u ++ v) = (run fits p s u).bind fun s => run fits p s v := List.foldlM_append

theorem run_cons_eq_some_iff {fits : A → L → Bool} {p : Particle L} {s s' : Progress} {a : A}
    {w : List A} :
    run fits p s (a :: w) = some s' ↔
      ∃ t s₁, accept (fits a) p s = some (t, s₁) ∧ run fits p s₁ w = some s' := by
  rw [run_cons, Option.bind_eq_some_iff]
  exact Prod.exists

theorem run_append_eq_some_iff {fits : A → L → Bool} {p : Particle L} {s s' : Progress}
    {u v : List A} :
    run fits p s (u ++ v) = some s' ↔
      ∃ s₁, run fits p s u = some s₁ ∧ run fits p s₁ v = some s' := by
  rw [run_append, Option.bind_eq_some_iff]

@[simp] theorem runGroup_nil (fits : A → L → Bool) (c : Compositor) (ms : List (Particle L))
    (occurrence : Occurrence) : runGroup fits c ms occurrence [] = some occurrence := rfl

theorem runGroup_cons (fits : A → L → Bool) (c : Compositor) (ms : List (Particle L))
    (occurrence : Occurrence) (a : A) (w : List A) :
    runGroup fits c ms occurrence (a :: w) =
      (acceptGroup (fits a) c ms occurrence).bind fun r => runGroup fits c ms r.2 w := by
  rw [runGroup, List.foldlM_cons]
  cases acceptGroup (fits a) c ms occurrence <;> rfl

theorem runGroup_append_eq_some_iff {fits : A → L → Bool} {c : Compositor}
    {ms : List (Particle L)} {occurrence next : Occurrence} {u v : List A} :
    runGroup fits c ms occurrence (u ++ v) = some next ↔
      ∃ between, runGroup fits c ms occurrence u = some between ∧
        runGroup fits c ms between v = some next := by
  rw [runGroup, List.foldlM_append]
  exact Option.bind_eq_some_iff

end Progress

end ScopedXml.Content
