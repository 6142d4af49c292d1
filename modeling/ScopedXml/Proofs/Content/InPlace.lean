import ScopedXml.Proofs.Content.Bounds

/-!
# Offering in place

`Progress.accept` hands back new progress only when a child is taken. `Progress.offer` makes the
same search on progress that is overwritten as the search comes by: each member that is asked is
written back, whether it took the child or not, and what is asked next is judged by what has been
written. A search may turn down a child after many members were asked, at any depth, and after
another occurrence was tried.

* `Progress.offer_eq`: nothing of that shows. What stands in place in the end is what `accept` hands
  back, or what stood there before.
* `Progress.run_taken`: children that are turned down can be left out.
* `Progress.refused_leaves_no_trace`: both at any point of any sequence of children.
-/

namespace ScopedXml.Content

variable {A L : Type}

/-- The occurrence behind a search that goes through the members: where one took the child, it is
the one that has been reached. -/
def Occurrence.moved (cursor : Option Nat) : Option (L × Nat) × List Progress → Option L × Occurrence
  | (some (t, index), states) => (some t, .mk (some index) states)
  | (none, states) => (none, .mk cursor states)

namespace Progress

open Particle

/-! ## The search -/

mutual

/-- The leaf that takes the next child, if one does, and what then stands in place of the progress.
When an occurrence that may end turns the child down, what it has become stays in place until
another one has taken the child. -/
def offer (fits : L → Bool) : Particle L → Progress → Option L × Progress
  | .leaf t o, s =>
    if o.roomAfter s.count && fits t then (some t, mk (s.count + 1) s.current) else (none, s)
  | .group c ms o, s =>
    let onward (cursor : Option Nat) (states : List Progress) : Option L × Occurrence :=
      match c, cursor with
      | .sequence, _ => Occurrence.moved cursor (offerFrom fits ms states (cursor.getD 0))
      | .choice, some index =>
        match offerAt fits ms states index with
        | (taken, states) => (taken, .mk (some index) states)
      | .choice, none => Occurrence.moved none (offerEach fits ms states)
      | .all, _ =>
        match offerEach fits ms states with
        | (taken, states) => (taken.map (·.1), .mk cursor states)
    let anew (current : Option Occurrence) : Option L × Progress :=
      if o.roomAfter s.count then
        match onward none (ms.map fun _ => fresh) with
        | (some t, occurrence) => (some t, mk (s.count + 1) (some occurrence))
        | (none, _) => (none, mk s.count current)
      else (none, mk s.count current)
    match s.current with
    | none => anew none
    | some (.mk cursor states) =>
      match onward cursor states with
      | (some t, occurrence) => (some t, mk s.count (some occurrence))
      | (none, occurrence) =>
        if satisfiedGroup c ms occurrence then anew (some occurrence)
        else (none, mk s.count (some occurrence))
termination_by structural p => p

/-- Ask the members from `skip` on, up to the first one that takes the child or is not satisfied. -/
def offerFrom (fits : L → Bool) :
    List (Particle L) → List Progress → Nat → Option (L × Nat) × List Progress
  | p :: ps, s :: ss, 0 =>
    match offer fits p s with
    | (some t, s') => (some (t, 0), s' :: ss)
    | (none, s') =>
      if satisfied p s' then
        match offerFrom fits ps ss 0 with
        | (taken, ss') => (taken.map fun (t, index) => (t, index + 1), s' :: ss')
      else (none, s' :: ss)
  | _ :: ps, s :: ss, skip + 1 =>
    match offerFrom fits ps ss skip with
    | (taken, ss') => (taken.map fun (t, index) => (t, index + 1), s :: ss')
  | _, ss, _ => (none, ss)
termination_by structural ps => ps

/-- Ask the member with this index. -/
def offerAt (fits : L → Bool) :
    List (Particle L) → List Progress → Nat → Option L × List Progress
  | p :: _, s :: ss, 0 =>
    match offer fits p s with
    | (taken, s') => (taken, s' :: ss)
  | _ :: ps, s :: ss, index + 1 =>
    match offerAt fits ps ss index with
    | (taken, ss') => (taken, s :: ss')
  | _, ss, _ => (none, ss)
termination_by structural ps => ps

/-- Ask all members, up to the first one that takes the child. -/
def offerEach (fits : L → Bool) :
    List (Particle L) → List Progress → Option (L × Nat) × List Progress
  | p :: ps, s :: ss =>
    match offer fits p s with
    | (some t, s') => (some (t, 0), s' :: ss)
    | (none, s') =>
      match offerEach fits ps ss with
      | (taken, ss') => (taken.map fun (t, index) => (t, index + 1), s' :: ss')
  | _, ss => (none, ss)
termination_by structural ps => ps

end

/-- Offer the next child to one occurrence of a group. -/
def offerGroup (fits : L → Bool) (c : Compositor) (ms : List (Particle L)) :
    Occurrence → Option L × Occurrence
  | .mk cursor states =>
    match c, cursor with
    | .sequence, _ => Occurrence.moved cursor (offerFrom fits ms states (cursor.getD 0))
    | .choice, some index =>
      match offerAt fits ms states index with
      | (taken, states) => (taken, .mk (some index) states)
    | .choice, none => Occurrence.moved none (offerEach fits ms states)
    | .all, _ =>
      match offerEach fits ms states with
      | (taken, states) => (taken.map (·.1), .mk cursor states)

/-- Offer the next child to another occurrence, if there may be one. It only replaces what stands in
place when it takes the child. -/
def offerAnew (fits : L → Bool) (c : Compositor) (ms : List (Particle L)) (o : Occurs)
    (count : Nat) (current : Option Occurrence) : Option L × Progress :=
  if o.roomAfter count then
    match offerGroup fits c ms (.fresh ms) with
    | (some t, occurrence) => (some t, mk (count + 1) (some occurrence))
    | (none, _) => (none, mk count current)
  else (none, mk count current)

theorem offer_leaf (fits : L → Bool) (t : L) (o : Occurs) (s : Progress) :
    offer fits (.leaf t o) s =
      if o.roomAfter s.count && fits t then (some t, mk (s.count + 1) s.current)
      else (none, s) := rfl

theorem offer_group (fits : L → Bool) (c : Compositor) (ms : List (Particle L)) (o : Occurs)
    (s : Progress) :
    offer fits (.group c ms o) s =
      match s.current with
      | none => offerAnew fits c ms o s.count none
      | some occurrence =>
        match offerGroup fits c ms occurrence with
        | (some t, next) => (some t, mk s.count (some next))
        | (none, next) =>
          if satisfiedGroup c ms next then offerAnew fits c ms o s.count (some next)
          else (none, mk s.count (some next)) := by
  rcases s with ⟨n, _ | ⟨cursor, states⟩⟩
  · cases c <;> rfl
  · cases c <;> cases cursor <;> rfl

/-! ## What stands in place -/

/-- What stands in place of `s` when new contents come with an answer only. -/
def inPlace {B S : Type} (s : S) : Option (B × S) → Option B × S
  | some (b, s') => (some b, s')
  | none => (none, s)

/-- The search writes nothing but the progress that `accept` hands back. -/
def OffersInPlace (fits : L → Bool) (q : Particle L) (s : Progress) : Prop :=
  offer fits q s = inPlace s (accept fits q s)

section Members

variable {fits : L → Bool} {ms : List (Particle L)} {ss : List Progress}

theorem offerFrom_eq (h : List.Forall₂ (OffersInPlace fits) ms ss) (skip : Nat) :
    offerFrom fits ms ss skip =
      inPlace ss ((acceptFrom fits ms ss skip).map fun (t, i, ss') => ((t, i), ss')) := by
  induction h generalizing skip with
  | nil => rfl
  | @cons p s ps ss hp _ ih =>
    cases skip with
    | zero =>
      rw [offerFrom, acceptFrom, hp]
      cases accept fits p s with
      | some r => rfl
      | none =>
        dsimp only [inPlace]
        split
        · rw [ih]
          cases acceptFrom fits ps ss 0 <;> rfl
        · rfl
    | succ skip =>
      rw [offerFrom, acceptFrom, ih]
      cases acceptFrom fits ps ss skip <;> rfl

theorem offerAt_eq (h : List.Forall₂ (OffersInPlace fits) ms ss) (index : Nat) :
    offerAt fits ms ss index = inPlace ss (acceptAt fits ms ss index) := by
  induction h generalizing index with
  | nil => rfl
  | @cons p s ps ss hp _ ih =>
    cases index with
    | zero =>
      rw [offerAt, acceptAt, hp]
      cases accept fits p s <;> rfl
    | succ index =>
      rw [offerAt, acceptAt, ih]
      cases acceptAt fits ps ss index <;> rfl

theorem offerEach_eq (h : List.Forall₂ (OffersInPlace fits) ms ss) :
    offerEach fits ms ss =
      inPlace ss ((acceptAny fits ms ss).map fun (t, i, ss') => ((t, i), ss')) := by
  induction h with
  | nil => rfl
  | @cons p s ps ss hp _ ih =>
    rw [offerEach, acceptAny, hp]
    cases accept fits p s with
    | some r => rfl
    | none =>
      dsimp only [inPlace]
      rw [ih]
      cases acceptAny fits ps ss <;> rfl

theorem offerGroup_eq {occurrence : Occurrence} (h : occurrence.Each (OffersInPlace fits) ms)
    (c : Compositor) :
    offerGroup fits c ms occurrence = inPlace occurrence (acceptGroup fits c ms occurrence) := by
  rcases occurrence with ⟨cursor, states⟩
  obtain ⟨hstates, -⟩ := h
  cases c with
  | sequence =>
    rw [offerGroup, acceptGroup, offerFrom_eq hstates]
    cases acceptFrom fits ms states (cursor.getD 0) <;> rfl
  | choice =>
    cases cursor with
    | none =>
      rw [offerGroup, acceptGroup, offerEach_eq hstates]
      cases acceptAny fits ms states <;> rfl
    | some index =>
      rw [offerGroup, acceptGroup, offerAt_eq hstates]
      cases acceptAt fits ms states index <;> rfl
  | all =>
    rw [offerGroup, acceptGroup, offerEach_eq hstates]
    cases acceptAny fits ms states <;> rfl

theorem offerAnew_eq (h : (Occurrence.fresh ms).Each (OffersInPlace fits) ms) (c : Compositor)
    (o : Occurs) (n : Nat) (current : Option Occurrence) :
    offerAnew fits c ms o n current = inPlace (mk n current) (acceptAnew fits c ms o n) := by
  rw [offerAnew, acceptAnew]
  split
  · rw [offerGroup_eq h c]
    cases acceptGroup fits c ms (.fresh ms) <;> rfl
  · rfl

end Members

/-- **In place.** At any point that children can lead to, nothing of the search shows but what
`accept` hands back. -/
theorem offer_eq (fits : L → Bool) {p : Particle L} {s : Progress} (hs : Sound p s) :
    offer fits p s = inPlace s (accept fits p s) := by
  induction p using Particle.induction generalizing s with
  | leaf t o =>
    rw [offer_leaf, accept_leaf, (sound_leaf_iff.mp hs).2]
    split <;> rfl
  | group c ms o ih =>
    have hmembers : ∀ q ∈ ms, ∀ s, Sound q s → OffersInPlace fits q s := fun q hq _ => ih q hq
    have hfresh := (each_sound_fresh ms).imp hmembers
    obtain ⟨-, heach⟩ := sound_group_iff.mp hs
    rcases s with ⟨n, current⟩
    rw [offer_group, accept_group]
    cases current with
    | none => exact offerAnew_eq hfresh c o n none
    | some occurrence =>
      dsimp only [current_mk, count_mk]
      rw [offerGroup_eq ((heach occurrence rfl).imp hmembers) c]
      cases acceptGroup fits c ms occurrence with
      | some r => rfl
      | none =>
        -- The occurrence stands as it did, so the same is asked of it: whether it may end.
        dsimp only [inPlace]
        split
        · exact offerAnew_eq hfresh c o n (some occurrence)
        · rfl

theorem offer_of_accept_eq_none {fits : L → Bool} {p : Particle L} {s : Progress} (hs : Sound p s)
    (hacc : accept fits p s = none) : offer fits p s = (none, s) := by
  rw [offer_eq fits hs, hacc]
  rfl

theorem offer_of_accept_eq_some {fits : L → Bool} {p : Particle L} {s s' : Progress} {t : L}
    (hs : Sound p s) (hacc : accept fits p s = some (t, s')) : offer fits p s = (some t, s') := by
  rw [offer_eq fits hs, hacc]
  rfl

/-! ## Many children -/

/-- The progress behind some children, whether they are taken or not. -/
def feed (fits : A → L → Bool) (p : Particle L) (s : Progress) (w : List A) : Progress :=
  w.foldl (fun s a => (offer (fits a) p s).2) s

/-- Those of the children that are taken. -/
def taken (fits : A → L → Bool) (p : Particle L) : Progress → List A → List A
  | _, [] => []
  | s, a :: w =>
    match offer (fits a) p s with
    | (some _, s') => a :: taken fits p s' w
    | (none, s') => taken fits p s' w

section Feeding

variable {fits : A → L → Bool} {p : Particle L} {s : Progress}

theorem feed_cons (fits : A → L → Bool) (p : Particle L) (s : Progress) (a : A) (w : List A) :
    feed fits p s (a :: w) = feed fits p (offer (fits a) p s).2 w := rfl

theorem feed_append (fits : A → L → Bool) (p : Particle L) (s : Progress) (u w : List A) :
    feed fits p s (u ++ w) = feed fits p (feed fits p s u) w := List.foldl_append

theorem taken_append (fits : A → L → Bool) (p : Particle L) (s : Progress) (u w : List A) :
    taken fits p s (u ++ w) = taken fits p s u ++ taken fits p (feed fits p s u) w := by
  induction u generalizing s with
  | nil => rfl
  | cons a u ih =>
    rw [List.cons_append, taken, taken, feed_cons]
    rcases offer (fits a) p s with ⟨_ | t, s'⟩
    · exact ih s'
    · exact congrArg (a :: ·) (ih s')

/-- What one child does, in place. -/
theorem offer_cases (hs : Sound p s) (a : A) :
    (∃ t s', accept (fits a) p s = some (t, s') ∧ offer (fits a) p s = (some t, s') ∧ Sound p s') ∨
      (accept (fits a) p s = none ∧ offer (fits a) p s = (none, s)) := by
  cases hacc : accept (fits a) p s with
  | none => exact Or.inr ⟨rfl, offer_of_accept_eq_none hs hacc⟩
  | some r =>
    obtain ⟨t, s'⟩ := r
    exact Or.inl ⟨t, s', rfl, offer_of_accept_eq_some hs hacc, hs.accept hacc⟩

theorem Sound.feed (hs : Sound p s) (w : List A) : Sound p (feed fits p s w) := by
  induction w generalizing s with
  | nil => exact hs
  | cons a w ih =>
    rw [feed_cons]
    rcases offer_cases hs a with ⟨t, s', -, hoffer, hs'⟩ | ⟨-, hoffer⟩
    · rw [hoffer]
      exact ih hs'
    · rw [hoffer]
      exact ih hs

/-- Fed alone, the children that are taken are all taken again, and lead to the same progress. -/
theorem run_taken (hs : Sound p s) (w : List A) :
    run fits p s (taken fits p s w) = some (feed fits p s w) := by
  induction w generalizing s with
  | nil => rfl
  | cons a w ih =>
    rw [feed_cons, taken]
    rcases offer_cases hs a with ⟨t, s', hacc, hoffer, hs'⟩ | ⟨-, hoffer⟩
    · rw [hoffer]
      exact run_cons_eq_some_iff.mpr ⟨t, s', hacc, ih hs'⟩
    · rw [hoffer]
      exact ih hs

theorem feed_of_run (hs : Sound p s) {w : List A} {s' : Progress}
    (hrun : run fits p s w = some s') : feed fits p s w = s' ∧ taken fits p s w = w := by
  induction w generalizing s with
  | nil =>
    cases hrun
    exact ⟨rfl, rfl⟩
  | cons a w ih =>
    obtain ⟨t, s₁, hacc, hrun⟩ := run_cons_eq_some_iff.mp hrun
    have hoffer := offer_of_accept_eq_some hs hacc
    obtain ⟨hfeed, htaken⟩ := ih (hs.accept hacc) hrun
    rw [feed_cons, taken, hoffer]
    exact ⟨hfeed, congrArg (a :: ·) htaken⟩

end Feeding

/-- **No trace.** Behind any children `u`, a child that is turned down leaves the progress as it
was, and one that is taken leaves what `accept` hands back. Those of `u` that were taken are all
taken again without the others, and lead to the same progress. So when the same children were taken,
all goes on in the same way: whatever comes later, the same of it is taken, by the same leaves, and
the same is expected and lacking behind it. -/
theorem refused_leaves_no_trace (fits : A → L → Bool) (p : Particle L) (u : List A) :
    (∀ a, (offer (fits a) p (feed fits p fresh u)).1 = none →
      (offer (fits a) p (feed fits p fresh u)).2 = feed fits p fresh u) ∧
    (∀ a, offer (fits a) p (feed fits p fresh u) =
      inPlace (feed fits p fresh u) (accept (fits a) p (feed fits p fresh u))) ∧
    run fits p fresh (taken fits p fresh u) = some (feed fits p fresh u) ∧
    feed fits p fresh (taken fits p fresh u) = feed fits p fresh u ∧
    taken fits p fresh (taken fits p fresh u) = taken fits p fresh u ∧
    ∀ v, taken fits p fresh v = taken fits p fresh u → ∀ w,
      taken fits p fresh (v ++ w) = taken fits p fresh (u ++ w) ∧
      (∀ a, offer (fits a) p (feed fits p fresh (v ++ w)) =
        offer (fits a) p (feed fits p fresh (u ++ w))) ∧
      ∀ name, expected name p (feed fits p fresh (v ++ w)) =
          expected name p (feed fits p fresh (u ++ w)) ∧
        missing name p (feed fits p fresh (v ++ w)) =
          missing name p (feed fits p fresh (u ++ w)) := by
  have hstart : Sound p fresh := sound_fresh p
  have hsound : Sound p (feed fits p fresh u) := hstart.feed u
  have hrun : run fits p fresh (taken fits p fresh u) = some (feed fits p fresh u) :=
    run_taken hstart u
  obtain ⟨hfeed, htaken⟩ := feed_of_run hstart hrun
  refine ⟨fun a hnone => ?_, fun a => offer_eq (fits a) hsound, hrun, hfeed, htaken,
    fun v hv w => ?_⟩
  · rcases offer_cases hsound a with ⟨t, s', -, hoffer, -⟩ | ⟨-, hoffer⟩
    · rw [hoffer] at hnone
      cases hnone
    · rw [hoffer]
  · have hsame : feed fits p fresh v = feed fits p fresh u := by
      rw [← hfeed, ← hv]
      exact (feed_of_run hstart (run_taken hstart v)).1.symm
    rw [feed_append, feed_append, taken_append, taken_append, hsame, hv]
    exact ⟨rfl, fun _ => rfl, fun _ => ⟨rfl, rfl⟩⟩

/-- Up to two stays: a place, and then a hotel or two, or a tent with a bag or without one. -/
def stays : Particle String :=
  .group .sequence
    [.leaf "place" .once,
      .group .choice
        [.leaf "hotel" ⟨1, some 2⟩,
          .group .all [.leaf "tent" .once, .leaf "bag" ⟨0, some 1⟩] .once] .once]
    ⟨1, some 2⟩

/-- A hotel is turned down once there is a bag, and a car at the end, where a second stay could
begin. Neither changes what a second place leads to. -/
theorem refused_leaves_no_trace_stays :
    (offer ("hotel" == ·) stays (feed (· == ·) stays fresh ["place", "bag"])).1 = none ∧
    (offer ("hotel" == ·) stays (feed (· == ·) stays fresh ["place", "bag"])).2 =
      feed (· == ·) stays fresh ["place", "bag"] ∧
    taken (· == ·) stays fresh ["place", "bag", "hotel", "tent", "car"] =
      ["place", "bag", "tent"] ∧
    expected id stays (feed (· == ·) stays fresh
        (["place", "bag", "hotel", "tent", "car"] ++ ["place"])) = ["hotel", "tent", "bag"] := by
  have hrefused : (offer ("hotel" == ·) stays
      (feed (· == ·) stays fresh ["place", "bag"])).1 = none := rfl
  have htaken : taken (· == ·) stays fresh ["place", "bag", "hotel", "tent", "car"] =
      taken (· == ·) stays fresh ["place", "bag", "tent"] := rfl
  obtain ⟨hstays, -⟩ := refused_leaves_no_trace (· == ·) stays ["place", "bag"]
  obtain ⟨-, -, -, -, -, hlater⟩ :=
    refused_leaves_no_trace (· == ·) stays ["place", "bag", "tent"]
  refine ⟨hrefused, hstays "hotel" hrefused, rfl, ?_⟩
  exact ((hlater _ htaken ["place"]).2.2 id).1.trans rfl

end Progress

end ScopedXml.Content
