import ScopedXml.Proofs.Content.Occurrence

/-!
# What could come next

The leaves that could take a child now make up the frontier of a model, in which they stand in the
order of the model. A child is taken by the first leaf of the frontier that it fits
(`Progress.accept_eq_find?`), and the names that are expected are those of the frontier, each one
once (`Progress.expected_eq`). So both agree at all times (`Progress.expected_exact`), in models in
which a name fits several leaves as well.
-/

namespace ScopedXml.Content.Progress

variable {A L : Type}

mutual

/-- The leaves that could take a child now. -/
def frontier : Particle L → Progress → List L
  | .leaf t o, s => if o.roomAfter s.count then [t] else []
  | .group c ms o, s =>
    let onward (cursor : Option Nat) (states : List Progress) : List L :=
      match c, cursor with
      | .sequence, _ => frontierFrom ms states (cursor.getD 0)
      | .choice, some index => frontierAt ms states index
      | .choice, none => frontierEach ms states
      | .all, _ => frontierEach ms states
    let anew : List L :=
      if o.roomAfter s.count then onward none (ms.map fun _ => fresh) else []
    match s.current with
    | none => anew
    | some (.mk cursor states) =>
      onward cursor states ++ if satisfiedGroup c ms (.mk cursor states) then anew else []
termination_by structural p => p

/-- From the member `skip` on, up to the first one that is not satisfied. -/
def frontierFrom : List (Particle L) → List Progress → Nat → List L
  | p :: ps, s :: ss, 0 => frontier p s ++ if satisfied p s then frontierFrom ps ss 0 else []
  | _ :: ps, _ :: ss, skip + 1 => frontierFrom ps ss skip
  | _, _, _ => []
termination_by structural ps => ps

def frontierAt : List (Particle L) → List Progress → Nat → List L
  | p :: _, s :: _, 0 => frontier p s
  | _ :: ps, _ :: ss, index + 1 => frontierAt ps ss index
  | _, _, _ => []
termination_by structural ps => ps

def frontierEach : List (Particle L) → List Progress → List L
  | p :: ps, s :: ss => frontier p s ++ frontierEach ps ss
  | _, _ => []
termination_by structural ps => ps

end

/-- The leaves within one occurrence of a group that could take a child. -/
def frontierGroup (c : Compositor) (ms : List (Particle L)) : Occurrence → List L
  | .mk cursor states =>
    match c, cursor with
    | .sequence, _ => frontierFrom ms states (cursor.getD 0)
    | .choice, some index => frontierAt ms states index
    | .choice, none => frontierEach ms states
    | .all, _ => frontierEach ms states

/-- The leaves with which another occurrence could begin, if there may be one. -/
def frontierAnew (c : Compositor) (ms : List (Particle L)) (o : Occurs) (count : Nat) : List L :=
  if o.roomAfter count then frontierGroup c ms (.fresh ms) else []

theorem frontier_leaf (t : L) (o : Occurs) (s : Progress) :
    frontier (.leaf t o) s = if o.roomAfter s.count then [t] else [] := rfl

theorem frontier_group (c : Compositor) (ms : List (Particle L)) (o : Occurs) (s : Progress) :
    frontier (.group c ms o) s =
      match s.current with
      | none => frontierAnew c ms o s.count
      | some occurrence =>
        frontierGroup c ms occurrence ++
          if satisfiedGroup c ms occurrence then frontierAnew c ms o s.count else [] := by
  rcases s with ⟨n, _ | ⟨cursor, states⟩⟩
  · cases c <;> rfl
  · cases c <;> cases cursor <;> rfl

/-! ## The leaf that takes a child -/

section Taken

variable {fits : L → Bool} {ms : List (Particle L)}

/-- A child goes to the first leaf of the frontier that it fits. -/
def TakesFirst (fits : L → Bool) (p : Particle L) : Prop :=
  ∀ s, (accept fits p s).map (·.1) = (frontier p s).find? fits

theorem acceptFrom_eq_find? (h : ∀ q ∈ ms, TakesFirst fits q) (ss : List Progress) (skip : Nat) :
    (acceptFrom fits ms ss skip).map (·.1) = (frontierFrom ms ss skip).find? fits := by
  induction ms generalizing ss skip with
  | nil => rfl
  | cons p ps ih =>
    obtain ⟨hp, hps⟩ := List.forall_mem_cons.mp h
    cases ss with
    | nil => rfl
    | cons s ss =>
      cases skip with
      | zero =>
        rw [acceptFrom, frontierFrom, List.find?_append, ← hp s]
        cases accept fits p s with
        | some r => rfl
        | none =>
          dsimp only
          split
          · rw [Option.map_map]
            exact ih hps ss 0
          · rfl
      | succ skip =>
        rw [acceptFrom, frontierFrom, Option.map_map]
        exact ih hps ss skip

theorem acceptAt_eq_find? (h : ∀ q ∈ ms, TakesFirst fits q) (ss : List Progress) (index : Nat) :
    (acceptAt fits ms ss index).map (·.1) = (frontierAt ms ss index).find? fits := by
  induction ms generalizing ss index with
  | nil => rfl
  | cons p ps ih =>
    obtain ⟨hp, hps⟩ := List.forall_mem_cons.mp h
    cases ss with
    | nil => rfl
    | cons s ss =>
      cases index with
      | zero =>
        rw [acceptAt, frontierAt, Option.map_map]
        exact hp s
      | succ index =>
        rw [acceptAt, frontierAt, Option.map_map]
        exact ih hps ss index

theorem acceptAny_eq_find? (h : ∀ q ∈ ms, TakesFirst fits q) (ss : List Progress) :
    (acceptAny fits ms ss).map (·.1) = (frontierEach ms ss).find? fits := by
  induction ms generalizing ss with
  | nil => rfl
  | cons p ps ih =>
    obtain ⟨hp, hps⟩ := List.forall_mem_cons.mp h
    cases ss with
    | nil => rfl
    | cons s ss =>
      rw [acceptAny, frontierEach, List.find?_append, ← hp s]
      cases accept fits p s with
      | some r => rfl
      | none =>
        dsimp only
        rw [Option.map_map]
        exact ih hps ss

theorem acceptGroup_eq_find? (h : ∀ q ∈ ms, TakesFirst fits q) (c : Compositor)
    (occurrence : Occurrence) :
    (acceptGroup fits c ms occurrence).map (·.1) =
      (frontierGroup c ms occurrence).find? fits := by
  rcases occurrence with ⟨cursor, states⟩
  cases c with
  | sequence =>
    rw [acceptGroup, frontierGroup, Option.map_map]
    exact acceptFrom_eq_find? h states _
  | choice =>
    cases cursor with
    | none =>
      rw [acceptGroup, frontierGroup, Option.map_map]
      exact acceptAny_eq_find? h states
    | some index =>
      rw [acceptGroup, frontierGroup, Option.map_map]
      exact acceptAt_eq_find? h states index
  | all =>
    rw [acceptGroup, frontierGroup, Option.map_map]
    exact acceptAny_eq_find? h states

theorem acceptAnew_eq_find? (h : ∀ q ∈ ms, TakesFirst fits q) (c : Compositor) (o : Occurs)
    (count : Nat) :
    (acceptAnew fits c ms o count).map (·.1) = (frontierAnew c ms o count).find? fits := by
  rw [acceptAnew, frontierAnew]
  split
  · rw [Option.map_map]
    exact acceptGroup_eq_find? h c (.fresh ms)
  · rfl

end Taken

/-- **Who takes a child.** It is the first leaf of the frontier that the child fits, and nobody if
there is no such leaf. -/
theorem accept_eq_find? (fits : L → Bool) (p : Particle L) (s : Progress) :
    (accept fits p s).map (·.1) = (frontier p s).find? fits := by
  induction p using Particle.induction generalizing s with
  | leaf t o =>
    rw [accept_leaf, frontier_leaf]
    cases hroom : o.roomAfter s.count <;> cases hfits : fits t <;> simp [hfits]
  | group c ms o ih =>
    rw [accept_group, frontier_group]
    cases s.current with
    | none => exact acceptAnew_eq_find? ih c o s.count
    | some occurrence =>
      dsimp only
      rw [List.find?_append, ← acceptGroup_eq_find? ih c occurrence]
      cases acceptGroup fits c ms occurrence with
      | some r => rfl
      | none =>
        dsimp only
        split
        · exact acceptAnew_eq_find? ih c o s.count
        · rfl

/-! ## The names that are expected -/

section Expected

variable {name : L → String} {ms : List (Particle L)}

/-- Add the names of leaves, each one unless it is there already. -/
def addNames (name : L → String) (ts : List L) (names : List String) : List String :=
  ts.foldl (fun names t => addName (name t) names) names

theorem addNames_append (name : L → String) (ts us : List L) (names : List String) :
    addNames name (ts ++ us) names = addNames name us (addNames name ts names) :=
  List.foldl_append

/-- The names of the frontier are those that are added. -/
def NamesFrontier (name : L → String) (p : Particle L) : Prop :=
  ∀ s names, addExpected name p s names = addNames name (frontier p s) names

theorem addExpectedFrom_eq (h : ∀ q ∈ ms, NamesFrontier name q) (ss : List Progress) (skip : Nat)
    (names : List String) :
    addExpectedFrom name ms ss skip names = addNames name (frontierFrom ms ss skip) names := by
  induction ms generalizing ss skip names with
  | nil => rfl
  | cons p ps ih =>
    obtain ⟨hp, hps⟩ := List.forall_mem_cons.mp h
    cases ss with
    | nil => rfl
    | cons s ss =>
      cases skip with
      | zero =>
        rw [addExpectedFrom, frontierFrom, addNames_append, hp s names]
        split
        · exact ih hps ss 0 _
        · rfl
      | succ skip => exact ih hps ss skip names

theorem addExpectedAt_eq (h : ∀ q ∈ ms, NamesFrontier name q) (ss : List Progress) (index : Nat)
    (names : List String) :
    addExpectedAt name ms ss index names = addNames name (frontierAt ms ss index) names := by
  induction ms generalizing ss index with
  | nil => rfl
  | cons p ps ih =>
    obtain ⟨hp, hps⟩ := List.forall_mem_cons.mp h
    cases ss with
    | nil => rfl
    | cons s ss =>
      cases index with
      | zero => exact hp s names
      | succ index => exact ih hps ss index

theorem addExpectedEach_eq (h : ∀ q ∈ ms, NamesFrontier name q) (ss : List Progress)
    (names : List String) :
    addExpectedEach name ms ss names = addNames name (frontierEach ms ss) names := by
  induction ms generalizing ss names with
  | nil => rfl
  | cons p ps ih =>
    obtain ⟨hp, hps⟩ := List.forall_mem_cons.mp h
    cases ss with
    | nil => rfl
    | cons s ss =>
      rw [addExpectedEach, frontierEach, addNames_append, hp s names]
      exact ih hps ss _

/-- Add what is expected within one occurrence of a group. -/
def addExpectedGroup (name : L → String) (c : Compositor) (ms : List (Particle L)) :
    Occurrence → List String → List String
  | .mk cursor states, names =>
    match c, cursor with
    | .sequence, _ => addExpectedFrom name ms states (cursor.getD 0) names
    | .choice, some index => addExpectedAt name ms states index names
    | .choice, none => addExpectedEach name ms states names
    | .all, _ => addExpectedEach name ms states names

/-- Add what is expected of another occurrence, if there may be one. -/
def addExpectedAnew (name : L → String) (c : Compositor) (ms : List (Particle L)) (o : Occurs)
    (count : Nat) (names : List String) : List String :=
  if o.roomAfter count then addExpectedGroup name c ms (.fresh ms) names else names

theorem addExpected_group (name : L → String) (c : Compositor) (ms : List (Particle L))
    (o : Occurs) (s : Progress) (names : List String) :
    addExpected name (.group c ms o) s names =
      match s.current with
      | none => addExpectedAnew name c ms o s.count names
      | some occurrence =>
        if satisfiedGroup c ms occurrence then
          addExpectedAnew name c ms o s.count (addExpectedGroup name c ms occurrence names)
        else addExpectedGroup name c ms occurrence names := by
  rcases s with ⟨n, _ | ⟨cursor, states⟩⟩
  · cases c <;> rfl
  · cases c <;> cases cursor <;> rfl

theorem addExpectedGroup_eq (h : ∀ q ∈ ms, NamesFrontier name q) (c : Compositor)
    (occurrence : Occurrence) (names : List String) :
    addExpectedGroup name c ms occurrence names =
      addNames name (frontierGroup c ms occurrence) names := by
  rcases occurrence with ⟨cursor, states⟩
  cases c with
  | sequence => exact addExpectedFrom_eq h states _ names
  | choice =>
    cases cursor with
    | none => exact addExpectedEach_eq h states names
    | some index => exact addExpectedAt_eq h states index names
  | all => exact addExpectedEach_eq h states names

theorem addExpectedAnew_eq (h : ∀ q ∈ ms, NamesFrontier name q) (c : Compositor) (o : Occurs)
    (count : Nat) (names : List String) :
    addExpectedAnew name c ms o count names =
      addNames name (frontierAnew c ms o count) names := by
  rw [addExpectedAnew, frontierAnew]
  split
  · exact addExpectedGroup_eq h c (.fresh ms) names
  · rfl

end Expected

theorem namesFrontier (name : L → String) (p : Particle L) : NamesFrontier name p := by
  induction p using Particle.induction with
  | leaf t o =>
    intro s names
    rw [addExpected, frontier_leaf]
    split <;> rfl
  | group c ms o ih =>
    intro s names
    rw [addExpected_group, frontier_group]
    cases s.current with
    | none => exact addExpectedAnew_eq ih c o s.count names
    | some occurrence =>
      dsimp only
      rw [addNames_append, addExpectedGroup_eq ih c occurrence names]
      split
      · exact addExpectedAnew_eq ih c o s.count _
      · rfl

/-- **What is expected.** The names of the frontier, each one where it comes first. -/
theorem expected_eq (name : L → String) (p : Particle L) (s : Progress) :
    expected name p s = addNames name (frontier p s) [] :=
  namesFrontier name p s []

theorem mem_addName {n m : String} {names : List String} :
    n ∈ addName m names ↔ n ∈ names ∨ m = n := by
  unfold addName
  split
  · next hknown =>
    refine ⟨.inl, ?_⟩
    rintro (hn | rfl)
    · exact hn
    · exact List.contains_iff_mem.mp hknown
  · simp [eq_comm]

theorem nodup_addName (m : String) {names : List String} (h : names.Nodup) :
    (addName m names).Nodup := by
  unfold addName
  split
  · exact h
  · next hnew =>
    have hnotMem : m ∉ names := fun hm => hnew (List.contains_iff_mem.mpr hm)
    rw [← List.concat_eq_append]
    exact h.concat hnotMem

theorem mem_addNames {name : L → String} {ts : List L} {n : String} {names : List String} :
    n ∈ addNames name ts names ↔ n ∈ names ∨ ∃ t ∈ ts, name t = n := by
  induction ts generalizing names with
  | nil => simp [addNames]
  | cons t ts ih =>
    have hcons : addNames name (t :: ts) names = addNames name ts (addName (name t) names) := rfl
    rw [hcons, ih, mem_addName, or_assoc]
    simp

theorem nodup_addNames (name : L → String) (ts : List L) {names : List String}
    (h : names.Nodup) : (addNames name ts names).Nodup := by
  induction ts generalizing names with
  | nil => exact h
  | cons t ts ih => exact ih (nodup_addName (name t) h)

theorem mem_expected_iff {name : L → String} {p : Particle L} {s : Progress} {n : String} :
    n ∈ expected name p s ↔ ∃ t ∈ frontier p s, name t = n := by
  simp [expected_eq, mem_addNames]

theorem nodup_expected (name : L → String) (p : Particle L) (s : Progress) :
    (expected name p s).Nodup := by
  rw [expected_eq]
  exact nodup_addNames name _ List.nodup_nil

/-! ## The frontier and the model -/

section Leaves

variable {ms : List (Particle L)}

/-- The frontier consists of leaves of the model. -/
def Leafy (p : Particle L) : Prop := ∀ s, frontier p s ⊆ p.leaves

theorem frontierFrom_subset (h : ∀ q ∈ ms, Leafy q) (ss : List Progress) (skip : Nat) :
    frontierFrom ms ss skip ⊆ Particle.leavesOf ms := by
  induction ms generalizing ss skip with
  | nil => exact List.nil_subset _
  | cons p ps ih =>
    obtain ⟨hp, hps⟩ := List.forall_mem_cons.mp h
    cases ss with
    | nil => exact List.nil_subset _
    | cons s ss =>
      cases skip with
      | zero =>
        rw [frontierFrom, Particle.leavesOf]
        refine List.append_subset.mpr ⟨List.subset_append_of_subset_left _ (hp s), ?_⟩
        split
        · exact List.subset_append_of_subset_right _ (ih hps ss 0)
        · exact List.nil_subset _
      | succ skip => exact List.subset_append_of_subset_right _ (ih hps ss skip)

theorem frontierAt_subset (h : ∀ q ∈ ms, Leafy q) (ss : List Progress) (index : Nat) :
    frontierAt ms ss index ⊆ Particle.leavesOf ms := by
  induction ms generalizing ss index with
  | nil => exact List.nil_subset _
  | cons p ps ih =>
    obtain ⟨hp, hps⟩ := List.forall_mem_cons.mp h
    cases ss with
    | nil => exact List.nil_subset _
    | cons s ss =>
      cases index with
      | zero => exact List.subset_append_of_subset_left _ (hp s)
      | succ index => exact List.subset_append_of_subset_right _ (ih hps ss index)

theorem frontierEach_subset (h : ∀ q ∈ ms, Leafy q) (ss : List Progress) :
    frontierEach ms ss ⊆ Particle.leavesOf ms := by
  induction ms generalizing ss with
  | nil => exact List.nil_subset _
  | cons p ps ih =>
    obtain ⟨hp, hps⟩ := List.forall_mem_cons.mp h
    cases ss with
    | nil => exact List.nil_subset _
    | cons s ss =>
      exact List.append_subset.mpr ⟨List.subset_append_of_subset_left _ (hp s),
        List.subset_append_of_subset_right _ (ih hps ss)⟩

theorem frontierGroup_subset (h : ∀ q ∈ ms, Leafy q) (c : Compositor) (occurrence : Occurrence) :
    frontierGroup c ms occurrence ⊆ Particle.leavesOf ms := by
  rcases occurrence with ⟨cursor, states⟩
  cases c with
  | sequence => exact frontierFrom_subset h states _
  | choice =>
    cases cursor with
    | none => exact frontierEach_subset h states
    | some index => exact frontierAt_subset h states index
  | all => exact frontierEach_subset h states

theorem frontierAnew_subset (h : ∀ q ∈ ms, Leafy q) (c : Compositor) (o : Occurs) (count : Nat) :
    frontierAnew c ms o count ⊆ Particle.leavesOf ms := by
  unfold frontierAnew
  split
  · exact frontierGroup_subset h c (.fresh ms)
  · exact List.nil_subset _

end Leaves

theorem frontier_subset_leaves (p : Particle L) (s : Progress) : frontier p s ⊆ p.leaves := by
  induction p using Particle.induction generalizing s with
  | leaf t o =>
    rw [frontier_leaf]
    split
    · exact List.Subset.refl _
    · exact List.nil_subset _
  | group c ms o ih =>
    rw [frontier_group]
    cases s.current with
    | none => exact frontierAnew_subset ih c o s.count
    | some occurrence =>
      refine List.append_subset.mpr ⟨frontierGroup_subset ih c occurrence, ?_⟩
      split
      · exact frontierAnew_subset ih c o s.count
      · exact List.nil_subset _

/-! ## Both agree -/

/-- **Expected and taken.** Whatever progress there is within a model: a child is taken by a leaf
that it fits and of which the name is expected; every name that is expected is that of a leaf such
that each child that fits it is taken; and no name is expected twice. -/
theorem expected_exact (fits : A → L → Bool) (name : L → String) (p : Particle L)
    (s : Progress) :
    (∀ a t s', accept (fits a) p s = some (t, s') →
      t ∈ p.leaves ∧ fits a t = true ∧ name t ∈ expected name p s) ∧
    (∀ n ∈ expected name p s, ∃ t ∈ p.leaves, name t = n ∧
      ∀ a, fits a t = true → ∃ r, accept (fits a) p s = some r) ∧
    (expected name p s).Nodup := by
  refine ⟨fun a t s' h => ?_, fun n hn => ?_, nodup_expected name p s⟩
  · have hfind : (frontier p s).find? (fits a) = some t := by
      rw [← accept_eq_find?, h]
      rfl
    have hmem : t ∈ frontier p s := List.mem_of_find?_eq_some hfind
    exact ⟨frontier_subset_leaves p s hmem, List.find?_some hfind,
      mem_expected_iff.mpr ⟨t, hmem, rfl⟩⟩
  · obtain ⟨t, hmem, rfl⟩ := mem_expected_iff.mp hn
    refine ⟨t, frontier_subset_leaves p s hmem, rfl, fun a hfits => ?_⟩
    have hfind : ((frontier p s).find? (fits a)).isSome = true :=
      List.find?_isSome.mpr ⟨t, hmem, hfits⟩
    rw [← accept_eq_find?, Option.isSome_map] at hfind
    exact Option.isSome_iff_exists.mp hfind

/-- Up to two names, another one that looks the same, and a last name. -/
def fullName : Particle String :=
  .group .sequence
    [.leaf "given" ⟨0, some 2⟩, .leaf "given" ⟨0, some 1⟩, .leaf "family" .once] .once

/-- Behind one name, both leaves of that name could take the next one, and the first of them does. -/
theorem expected_exact_fullName : ∃ s, run (fun a t => a == t) fullName fresh ["given"] = some s ∧
    expected id fullName s = ["given", "family"] ∧
    (∃ r, accept ("given" == ·) fullName s = some r ∧ r.1 ∈ expected id fullName s) ∧
    ∃ t ∈ fullName.leaves, id t = "family" ∧
      ∀ a, (a == t) = true → ∃ r, accept (a == ·) fullName s = some r := by
  refine ⟨_, rfl, rfl, ⟨_, rfl, ?_⟩, ?_⟩
  · exact ((expected_exact (fun a t => a == t) id fullName _).1 "given" _ _ rfl).2.2
  · exact (expected_exact (fun a t => a == t) id fullName _).2.1 "family" (by decide)

end ScopedXml.Content.Progress
