import ScopedXml.Proofs.Session.Steps

/-!
# Sessions have no memory

A session may be used in any way and for as long as one likes: what it does next depends on its
configuration, the handler that was installed last, and the policy, and on nothing else that went
before.

* `Session.awaited`: the handler that was installed since the last parse.
* `Session.Kept`: the root of a parse that succeeded behind the latest installation and that nobody
  has taken since.
* `Session.Reflects`: the state of a session, told by the steps that led to it. Every step keeps it
  (`Session.Reflects.next`), so it holds behind every history.
* `Session.history_free`: all of this for any history.
-/

namespace ScopedXml

open Scope

namespace Session

variable {H N P : Type}

/-! ## What the steps tell -/

/-- The handler that was installed since the last parse. -/
def awaited (steps : List (Step H P)) : Option H :=
  (steps.reverse.takeWhile (!·.isParse)).findSome? Step.installed?

/-- The handler that was installed last. -/
def latest? (steps : List (Step H P)) : Option H := steps.reverse.findSome? Step.installed?

/-- The latest installation of some steps was followed by a parse that succeeded and left `last` as
the root, and nobody has asked for a handler like that since. -/
def Kept [Text.Decoders] (hs : Handlers H N) (policy : Policy P) (start : Session H N P)
    (steps : List (Step H P)) (last : H) : Prop :=
  ∃ before root between reading later,
    steps = before ++ .install root :: between ++ reading :: later ∧
      (∀ step ∈ between ++ reading :: later, step.installed? = none) ∧
      (start.run hs policy (before ++ .install root :: between)).Reads hs policy root last reading ∧
      ∀ wanted, .take wanted ∈ later → wanted last = false

section Reflecting

variable {steps before between : List (Step H P)} {step : Step H P} {root : H}

theorem awaited_install (steps : List (Step H P)) (root : H) :
    awaited (steps ++ [.install root]) = some root := by
  have hparse : (Step.install root : Step H P).isParse = false := rfl
  have hinstalled : (Step.install root : Step H P).installed? = some root := rfl
  simp [awaited, hparse, hinstalled]

theorem awaited_parse (steps : List (Step H P)) (hparse : step.isParse = true) :
    awaited (steps ++ [step]) = none := by
  simp [awaited, hparse]

theorem awaited_other (steps : List (Step H P)) (hparse : step.isParse = false)
    (hinstalled : step.installed? = none) : awaited (steps ++ [step]) = awaited steps := by
  simp [awaited, hparse, hinstalled]

theorem latest?_of_awaited (h : awaited steps = some root) : latest? steps = some root := by
  have hsplit : steps.reverse.takeWhile (!·.isParse) ++ steps.reverse.dropWhile (!·.isParse) =
      steps.reverse := List.takeWhile_append_dropWhile
  rw [awaited] at h
  rw [latest?, ← hsplit, List.findSome?_append, h]
  rfl

theorem Step.eq_of_installed? (h : step.installed? = some root) : step = .install root := by
  cases step <;> cases h
  rfl

theorem latest?_eq_some_iff :
    latest? steps = some root ↔ ∃ before between, steps = before ++ .install root :: between ∧
      ∀ step ∈ between, step.installed? = none := by
  rw [latest?, List.findSome?_eq_some_iff]
  constructor
  · rintro ⟨later, installation, earlier, hsteps, hroot, hlater⟩
    obtain rfl := Step.eq_of_installed? hroot
    refine ⟨earlier.reverse, later.reverse, ?_, fun step hstep => ?_⟩
    · rw [← steps.reverse_reverse, hsteps]
      simp
    · exact hlater step (by simpa using hstep)
  · rintro ⟨before, between, rfl, hbetween⟩
    refine ⟨between.reverse, .install root, before.reverse, by simp, rfl, fun step hstep => ?_⟩
    exact hbetween step (by simpa using hstep)

/-- One more step behind a list that is split at a step of its own. -/
theorem append_eq_split {front later : List (Step H P)} {reading : Step H P}
    (h : steps ++ [step] = front ++ reading :: later) :
    (steps = front ∧ step = reading ∧ later = []) ∨
      ∃ between, steps = front ++ reading :: between ∧ later = between ++ [step] := by
  rcases List.eq_nil_or_concat later with rfl | ⟨between, final, rfl⟩
  · obtain ⟨hfront, hreading⟩ := List.append_inj' h rfl
    exact .inl ⟨hfront, by simpa using hreading, rfl⟩
  · rw [List.concat_eq_append, ← List.cons_append, ← List.append_assoc] at h
    obtain ⟨hsteps, hfinal⟩ := List.append_inj' h rfl
    obtain rfl : step = final := by simpa using hfinal
    exact .inr ⟨between, hsteps, List.concat_eq_append⟩

section Keeping

variable {hs : Handlers H N} {policy : Policy P} {start : Session H N P} {last : H} [Text.Decoders]

theorem not_kept_install (root : H) : ¬ Kept hs policy start (steps ++ [.install root]) last := by
  rintro ⟨before, root', between, reading, later, hsteps, hnone, -, -⟩
  have hmem : .install root ∈ between ++ reading :: later := by
    rcases append_eq_split hsteps with ⟨-, rfl, -⟩ | ⟨rest, -, rfl⟩
    · simp
    · simp
  cases hnone _ hmem

theorem Kept.append (h : Kept hs policy start steps last) (hstep : step.installed? = none)
    (htake : ∀ wanted, step = .take wanted → wanted last = false) :
    Kept hs policy start (steps ++ [step]) last := by
  obtain ⟨before, root, between, reading, later, rfl, hnone, hreads, hkept⟩ := h
  refine ⟨before, root, between, reading, later ++ [step], by simp, ?_, hreads, ?_⟩
  · intro other hother
    rw [← List.cons_append, ← List.append_assoc, List.mem_append, List.mem_singleton] at hother
    rcases hother with hother | rfl
    · exact hnone other hother
    · exact hstep
  · intro wanted hwanted
    rcases List.mem_append.mp hwanted with hwanted | hwanted
    · exact hkept wanted hwanted
    · exact htake wanted (List.mem_singleton.mp hwanted).symm

theorem kept_of_reads (hlatest : latest? steps = some root) (hstep : step.installed? = none)
    (hreads : (start.run hs policy steps).Reads hs policy root last step) :
    Kept hs policy start (steps ++ [step]) last := by
  obtain ⟨before, between, rfl, hbetween⟩ := latest?_eq_some_iff.mp hlatest
  refine ⟨before, root, between, step, [], rfl, fun other hother => ?_, hreads, by simp⟩
  rcases List.mem_append.mp hother with hother | hother
  · exact hbetween other hother
  · rw [List.mem_singleton.mp hother]
    exact hstep

/-- A root is kept behind one more step if it was kept before and not asked for, or if the step has
read it. -/
theorem kept_append_iff (hstep : step.installed? = none) :
    Kept hs policy start (steps ++ [step]) last ↔
      (Kept hs policy start steps last ∧ ∀ wanted, step = .take wanted → wanted last = false) ∨
        ∃ root, latest? steps = some root ∧
          (start.run hs policy steps).Reads hs policy root last step := by
  constructor
  · rintro ⟨before, root, between, reading, later, hsteps, hnone, hreads, hkept⟩
    rcases append_eq_split hsteps with ⟨rfl, rfl, -⟩ | ⟨rest, rfl, rfl⟩
    · right
      have hbetween (other : Step H P) (hother : other ∈ between) : other.installed? = none :=
        hnone other (List.mem_append_left _ hother)
      exact ⟨root, latest?_eq_some_iff.mpr ⟨before, between, rfl, hbetween⟩, hreads⟩
    · left
      refine ⟨⟨before, root, between, reading, rest, rfl, fun other hother => ?_, hreads,
        fun wanted hwanted => hkept wanted (List.mem_append_left _ hwanted)⟩,
        fun wanted hwanted => hkept wanted (by simp [hwanted])⟩
      apply hnone other
      rw [← List.cons_append, ← List.append_assoc]
      exact List.mem_append_left _ hother
  · rintro (⟨hkept, htake⟩ | ⟨root, hlatest, hreads⟩)
    · exact hkept.append hstep htake
    · exact kept_of_reads hlatest hstep hreads

end Keeping

/-! ## The state of a session -/

/-- The state of a session as it is told by the steps that led to it. -/
structure Reflects [Text.Decoders] (hs : Handlers H N) (policy : Policy P)
    (start : Session H N P) (steps : List (Step H P)) : Prop where
  reader : (start.run hs policy steps).reader = start.reader
  chain : (start.run hs policy steps).chain = (awaited steps).map Chain.ofRoot
  /-- As long as a handler waits for its document, there is no root. -/
  waiting : awaited steps ≠ none → (start.run hs policy steps).completed = none
  completed : ∀ last, (start.run hs policy steps).completed = some last ↔
    Kept hs policy start steps last

section Running

variable {hs : Handlers H N} {policy : Policy P} {start : Session H N P} [Text.Decoders]

theorem run_append_singleton (hs : Handlers H N) (policy : Policy P) (start : Session H N P)
    (steps : List (Step H P)) (step : Step H P) :
    start.run hs policy (steps ++ [step]) = (start.run hs policy steps).step hs policy step :=
  run_append hs policy start steps [step]

theorem Reflects.init (reader : DocumentReader) (state : P) :
    Reflects hs policy (ofReader reader state) [] := by
  refine ⟨rfl, rfl, fun h => absurd rfl h, fun last => ⟨fun h => ?_, ?_⟩⟩
  · cases h
  · rintro ⟨before, root, between, reading, later, hsteps, -⟩
    simp at hsteps

theorem Reflects.refused (h : Reflects hs policy start steps) (hnone : awaited steps = none)
    (hparse : step.isParse = true) : Reflects hs policy start (steps ++ [step]) := by
  have hchain := h.chain
  rw [hnone] at hchain
  obtain ⟨hsame, hreads⟩ := step_of_none hs policy hchain hparse
  have hrun : start.run hs policy (steps ++ [step]) = start.run hs policy steps := by
    rw [run_append_singleton, hsame]
  refine ⟨?_, ?_, fun hsome => absurd (awaited_parse steps hparse) hsome, fun last => ?_⟩
  · rw [hrun, h.reader]
  · rw [hrun, hchain, awaited_parse steps hparse]
  · rw [hrun, h.completed, kept_append_iff (Step.installed?_of_isParse hparse)]
    constructor
    · intro hkept
      exact .inl ⟨hkept, fun wanted hwanted => absurd hwanted (Step.ne_take hparse wanted)⟩
    · rintro (⟨hkept, -⟩ | ⟨root, -, hread⟩)
      · exact hkept
      · exact absurd hread (hreads root last)

theorem Reflects.parsed (hk : hs.KeepsBoundary) (h : Reflects hs policy start steps)
    (hroot : awaited steps = some root) (hparse : step.isParse = true) :
    Reflects hs policy start (steps ++ [step]) := by
  have hchain := h.chain
  rw [hroot] at hchain
  have hnone : (start.run hs policy steps).completed = none := h.waiting (by simp [hroot])
  obtain ⟨hreader, hused, hcompleted⟩ := step_of_awaited hk policy hchain hnone hparse
  rw [← run_append_singleton] at hreader hused hcompleted
  refine ⟨hreader.trans h.reader, ?_, fun hsome => absurd (awaited_parse steps hparse) hsome,
    fun last => ?_⟩
  · rw [hused, awaited_parse steps hparse]
    rfl
  · rw [hcompleted, kept_append_iff (Step.installed?_of_isParse hparse)]
    constructor
    · exact fun hread => .inr ⟨root, latest?_of_awaited hroot, hread⟩
    · rintro (⟨hkept, -⟩ | ⟨other, hother, hread⟩)
      · rw [(h.completed last).mpr hkept] at hnone
        cases hnone
      · obtain rfl : root = other :=
          Option.some.inj ((latest?_of_awaited hroot).symm.trans hother)
        exact hread

theorem Reflects.install (h : Reflects hs policy start steps) (root : H) :
    Reflects hs policy start (steps ++ [.install root]) := by
  refine ⟨?_, ?_, fun _ => ?_, fun last => ⟨fun hlast => ?_, fun hkept => ?_⟩⟩
  · rw [run_append_singleton]
    exact h.reader
  · rw [run_append_singleton, awaited_install]
    rfl
  · rw [run_append_singleton]
    rfl
  · rw [run_append_singleton] at hlast
    cases hlast
  · exact absurd hkept (not_kept_install root)

theorem Reflects.setPolicy (h : Reflects hs policy start steps) (state : P) :
    Reflects hs policy start (steps ++ [.setPolicy state]) := by
  have hawaited : awaited (steps ++ [.setPolicy state]) = awaited steps :=
    awaited_other steps rfl rfl
  refine ⟨?_, ?_, ?_, fun last => ?_⟩
  · rw [run_append_singleton]
    exact h.reader
  · rw [run_append_singleton, hawaited]
    exact h.chain
  · rw [run_append_singleton, hawaited]
    exact h.waiting
  · rw [run_append_singleton, kept_append_iff rfl, ← h.completed]
    simp [Reads, step, Session.setPolicy]

theorem Reflects.take (h : Reflects hs policy start steps) (wanted : H → Bool) :
    Reflects hs policy start (steps ++ [.take wanted]) := by
  have hawaited : awaited (steps ++ [.take wanted]) = awaited steps := awaited_other steps rfl rfl
  obtain ⟨hreader, hchain⟩ := (start.run hs policy steps).take_frame wanted
  have hcompleted := (start.run hs policy steps).take_completed wanted
  refine ⟨?_, ?_, ?_, fun last => ?_⟩
  · rw [run_append_singleton]
    exact hreader.trans h.reader
  · rw [run_append_singleton, hawaited]
    exact hchain.trans h.chain
  · intro hwaits
    rw [hawaited] at hwaits
    rw [run_append_singleton]
    change ((start.run hs policy steps).take wanted).2.completed = none
    rw [take_of_none (h.waiting hwaits)]
    exact h.waiting hwaits
  · rw [run_append_singleton, kept_append_iff rfl, ← h.completed]
    refine (hcompleted last).trans ?_
    simp [Reads]

/-- **Step.** Whatever is asked of a session, its state is told by the steps. -/
theorem Reflects.next (hk : hs.KeepsBoundary) (h : Reflects hs policy start steps)
    (step : Step H P) : Reflects hs policy start (steps ++ [step]) := by
  have hparsed (hparse : step.isParse = true) : Reflects hs policy start (steps ++ [step]) := by
    cases hawaited : awaited steps with
    | none => exact h.refused hawaited hparse
    | some root => exact h.parsed hk hawaited hparse
  cases step with
  | install root => exact h.install root
  | setPolicy state => exact h.setPolicy state
  | parse input => exact hparsed rfl
  | parseUnder oneOff state input => exact hparsed rfl
  | take wanted => exact h.take wanted

/-- **Run.** -/
theorem reflects (hk : hs.KeepsBoundary) (reader : DocumentReader) (policy : Policy P) (state : P)
    (steps : List (Step H P)) : Reflects hs policy (ofReader reader state) steps := by
  induction steps using List.reverseRecOn with
  | nil => exact .init reader state
  | append_singleton steps step ih => exact ih.next hk step

/-- A session with a handler that waits for its document is a new one. -/
theorem Reflects.eq_fresh {reader : DocumentReader} {state : P}
    (h : Reflects hs policy (ofReader reader state) steps) (hroot : awaited steps = some root) :
    (ofReader reader state).run hs policy steps =
      (ofReader reader ((ofReader reader state).run hs policy steps).policy).install root := by
  have hreader := h.reader
  have hchain := h.chain
  have hnone := h.waiting (by simp [hroot])
  rw [hroot] at hchain
  generalize (ofReader reader state).run hs policy steps = s at hreader hchain hnone ⊢
  obtain ⟨r, chain, completed, p⟩ := s
  cases hreader
  cases hchain
  cases hnone
  rfl

end Running

end Reflecting

/-! ## Any history -/

section Histories

variable [Text.Decoders] {hs : Handlers H N} {policy : Policy P} {reader : DocumentReader}
  {state : P} {steps : List (Step H P)}

/-- Parses are refused exactly if no handler waits for a document: an input that cannot be opened
tells the difference. -/
theorem Reflects.refuses_iff
    (h : Reflects hs policy (ofReader reader state) steps) :
    ((ofReader reader state).run hs policy steps).Refuses hs policy ↔ awaited steps = none := by
  have hchain := h.chain
  generalize (ofReader reader state).run hs policy steps = s at hchain
  constructor
  · intro hrefuses
    cases hawaited : awaited steps with
    | none => rfl
    | some root =>
      rw [hawaited] at hchain
      have hunopened : (Input.ofSource .directory).opened s.reader.settings.bufferSize =
          .error (.unreadable File.directoryMessage) := rfl
      have houtcome := parseUnder_of_unopened hs hchain policy s.policy hunopened
      rw [hrefuses.2] at houtcome
      cases houtcome
  · intro hnone
    rw [hnone] at hchain
    exact refuses_of_none hs policy hchain

theorem parse_raised (hk : hs.KeepsBoundary) {s : Session H N P} {root : H}
    (hroot : s.chain = some (.ofRoot root)) {Q : Type} (oneOff : Policy Q) (state : Q)
    (input : Input)
    (h : (s.parseUnder hs oneOff state input).1.outcome = .error .noActiveHandler) :
    (s.hearing hs oneOff state input).Raised hs .noActiveHandler :=
  hearing_raised hk hroot ((hearing_outcome hs oneOff state s input).trans h) rfl rfl

theorem parseWith_raised (hk : hs.KeepsBoundary) (s : Session H N P) {root : H}
    {wanted : H → Bool} (hkind : hs.StaysWithin wanted) (hwanted : wanted root) (input : Input)
    (h : (s.parseWith hs policy root wanted input).2.1 = .error .noActiveHandler) :
    ((s.install root).hearing hs policy s.policy input).Raised hs .noActiveHandler := by
  have hroot : (s.install root).chain = some (.ofRoot root) := rfl
  cases houtcome : ((s.install root).parse hs policy input).1.outcome with
  | error e =>
    rw [parseWith_of_error houtcome] at h
    obtain rfl := Except.error.inj h
    exact parse_raised hk hroot policy s.policy input houtcome
  | ok _ =>
    rw [parseWith_of_ok houtcome] at h
    obtain ⟨last, hleaves, hlast⟩ := parseUnder_keeps hk hroot rfl policy s.policy input houtcome
    have htaken : (((s.install root).parse hs policy input).2.take wanted).1 = some last :=
      take_wanted hlast (hleaves.stays hkind hwanted)
    rw [htaken] at h
    cases h

/-- **Sessions have no memory.** Behind any history of operations:

* Parses are refused exactly if no handler was installed since the last one. If one was, the session
  is a new one with this handler and the policy as it is by now. So its listeners hear what they
  would hear there, a policy for one parse is for that parse only, an input that cannot be opened is
  found out, a missing handler is not complained of unless a callback does so, and behind a parse
  that succeeds there is a root.
* A parse that brings its own handler does the same as in a new session too.
* There is a root exactly if the latest installation was followed by a parse that succeeded and
  nobody has taken its root. Asking for another handler leaves it there. -/
theorem history_free (hs : Handlers H N) (hk : hs.KeepsBoundary) (policy : Policy P)
    (reader : DocumentReader) (state : P) (history : List (Operation H P)) :
    let start : Session H N P := ofReader reader state
    let s := start.after hs policy history
    let fresh : Session H N P := ofReader reader s.policy
    let steps := history.flatMap Operation.steps
    (s.Refuses hs policy ↔ awaited steps = none) ∧
    (∀ root, awaited steps = some root →
      s = fresh.install root ∧
      ∀ {Q : Type} (oneOff : Policy Q) (state : Q) (input : Input),
        let heard := s.hearing hs oneOff state input
        let (report, next) := s.parseUnder hs oneOff state input
        heard = (fresh.install root).hearing hs oneOff state input ∧
        heard.outcome = report.outcome ∧ next.policy = s.policy ∧
        (∀ e, input.opened reader.settings.bufferSize = .error e → report.outcome = .error e) ∧
        (report.outcome = .error .noActiveHandler → heard.Raised hs .noActiveHandler) ∧
        (report.outcome = .ok () → ∃ last,
          reader.Leaves hs oneOff state input root last ∧ next.completed = some last)) ∧
    (∀ root wanted input,
      s.parseWith hs policy root wanted input = fresh.parseWith hs policy root wanted input ∧
      (hs.StaysWithin wanted → wanted root →
        (s.parseWith hs policy root wanted input).2.1 = .error .noActiveHandler →
        ((fresh.install root).hearing hs policy s.policy input).Raised hs .noActiveHandler)) ∧
    (∀ last, s.completed = some last ↔ Kept hs policy start steps last) ∧
    ∀ wanted last, s.completed = some last → wanted last = false → s.take wanted = (none, s) := by
  intro start s fresh steps
  have hreflects : Reflects hs policy start steps := reflects hk reader policy state steps
  have hrun : start.run hs policy steps = s := (after_eq_run hs policy start history).symm
  have hreader : s.reader = reader := hrun ▸ hreflects.reader
  have hinstall (root : H) : s.install root = fresh.install root :=
    congrArg (fun r => (⟨r, some (.ofRoot root), none, s.policy⟩ : Session H N P)) hreader
  refine ⟨?refused, fun root hroot => ?waiting,
    fun root wanted input => ⟨?alike, fun hkind hwanted => ?raised⟩, fun last => ?kept,
    fun wanted last => s.take_other wanted⟩
  case refused =>
    rw [← hrun]
    exact hreflects.refuses_iff
  case waiting =>
    have hfresh : s = fresh.install root := by
      have hsame := hreflects.eq_fresh hroot
      rwa [hrun] at hsame
    have hchain : s.chain = some (.ofRoot root) := by rw [hfresh]; rfl
    have hnone : s.completed = none := by rw [hfresh]; rfl
    refine ⟨hfresh, fun oneOff state input => ⟨?_, hearing_outcome hs oneOff state s input,
      (parseUnder_uses hchain oneOff state input).2.2, ?_,
      parse_raised hk hchain oneOff state input, ?_⟩⟩
    · exact congrArg (fun s => s.hearing hs oneOff state input) hfresh
    · rw [← hreader]
      exact fun e => parseUnder_of_unopened hs hchain oneOff state
    · rw [← hreader]
      exact parseUnder_keeps hk hchain hnone oneOff state input
  case kept =>
    rw [← hrun]
    exact hreflects.completed last
  case alike =>
    rw [parseWith, parseWith, hinstall]
  case raised =>
    rw [← hinstall]
    exact parseWith_raised hk s hkind hwanted input

end Histories

theorem recorder_staysWithin (label : String) :
    Recorder.handlers.StaysWithin fun r => r.label == label where
  onStart r view name attributes h := by
    change (r.onStart view name attributes).handler.label == label
    unfold Recorder.onStart
    split
    · exact h
    · split
      · exact h
      · split <;> exact h
  onText _ _ _ h := h
  onEnd r view name h := by
    change (r.onEnd view name).handler.label == label
    unfold Recorder.onEnd
    split <;> exact h
  onChild _ _ _ h := h

/-- A session that was refused, has failed, and has parsed with a handler of its own. It keeps the
record of `<a>x</a>` when it is asked for another one, and with a recorder installed it is a new
session. A parse that brings a recorder and then misses a handler was told so by its policy. -/
theorem history_free_recorder :
    let hs := Recorder.handlers
    let recorder : Recorder := .fresh "a" .never none
    let isA (r : Recorder) : Bool := r.label == "a"
    let reader : DocumentReader := ⟨none, .standard⟩
    let document := Input.ofText "<a>x</a>"
    let unclosed := Input.ofText "<a>"
    let start : Session Recorder String Ledger := ofReader reader (.fresh .failFast)
    let used : List (Operation Recorder Ledger) :=
      [.single (.parse document), .single (.install recorder), .single (.parse unclosed),
        .parseWith recorder isA document, .single (.install recorder), .single (.parse document),
        .single (.take fun _ => false)]
    let s := start.after hs Ledger.policy used
    let complaining : Policy Unit := ⟨fun _ _ _ => (.error .noActiveHandler, ())⟩
    let complained : Session Recorder String Unit := ofReader reader ()
    hs.KeepsBoundary ∧ hs.StaysWithin isA ∧ isA recorder ∧ s.Refuses hs Ledger.policy ∧
      (∃ last, s.completed = some last ∧ last.record.text = "x" ∧
        Kept hs Ledger.policy start (used.flatMap Operation.steps) last ∧
        s.take (fun _ => false) = (none, s)) ∧
      s.install recorder = (ofReader reader s.policy).install recorder ∧
      (∃ last, reader.Leaves hs Ledger.policy s.policy document recorder last) ∧
      ((complained.install recorder).hearing hs complaining () unclosed).Raised hs
        .noActiveHandler := by
  intro hs recorder isA reader document unclosed start used s complaining complained
  have hk : hs.KeepsBoundary := fun _ _ _ => rfl
  have hkind : hs.StaysWithin isA := recorder_staysWithin "a"
  obtain ⟨hrefuses, -, -, hkept, htake⟩ :=
    history_free hs hk Ledger.policy reader (.fresh .failFast) used
  obtain ⟨-, hwaits, -⟩ := history_free hs hk Ledger.policy reader (.fresh .failFast)
    (used ++ [.single (.install recorder)])
  obtain ⟨hfresh, hheard⟩ := hwaits recorder rfl
  obtain ⟨-, -, -, -, -, hsucceeds⟩ := hheard Ledger.policy s.policy document
  obtain ⟨last, hleaves, -⟩ := hsucceeds (by decide +kernel)
  obtain ⟨-, -, hwith, -⟩ := history_free hs hk complaining reader () []
  have herror : ((complained.install recorder).parse hs complaining unclosed).1.outcome =
      .error .noActiveHandler := by decide +kernel
  have hfails : (complained.parseWith hs complaining recorder isA unclosed).2.1 =
      .error .noActiveHandler := by rw [parseWith_of_error herror]
  have hraised := (hwith recorder isA unclosed).2 hkind rfl hfails
  refine ⟨hk, hkind, rfl, hrefuses.mpr rfl, ?_, hfresh, ⟨last, hleaves⟩, hraised⟩
  have htext : s.completed.map (·.record.text) = some "x" := by decide +kernel
  obtain ⟨kept, hcompleted, hx⟩ := Option.map_eq_some_iff.mp htext
  exact ⟨kept, hcompleted, hx, (hkept kept).mp hcompleted, htake _ kept hcompleted rfl⟩

end Session

end ScopedXml
