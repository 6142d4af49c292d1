import ScopedXml.Proofs.Reader.Opening
import ScopedXml.Proofs.Session.Hearing

/-!
# What can be asked of a session

A session is asked for one thing after the other: to install a handler, to take another policy, to
parse, to give a root away. Parsing with a handler of its own is three of these in a row.

* `Session.Step`, `Session.Operation`: what can be asked.
* `Session.Refuses`, `Session.refuses_of_none`: a session that has no handler.
* `Session.step_of_awaited`: what a parse does to a session that has one.
* `Session.after_eq_run`: operations in single steps.
-/

namespace ScopedXml

open Scope

namespace Session

variable {H N P : Type}

/-! ## Histories -/

/-- A single thing that is asked of a session. A parse may have a policy of its own. -/
inductive Step (H P : Type) : Type 1
  | install (root : H)
  | setPolicy (policy : P)
  | parse (input : Input)
  | parseUnder {Q : Type} (policy : Policy Q) (state : Q) (input : Input)
  | take (wanted : H → Bool)

/-- All that can be asked of a session. -/
inductive Operation (H P : Type) : Type 1
  | single (step : Step H P)
  | parseWith (root : H) (wanted : H → Bool) (input : Input)

namespace Step

def installed? : Step H P → Option H
  | install root => some root
  | _ => none

def isParse : Step H P → Bool
  | parse _ | parseUnder _ _ _ => true
  | _ => false

theorem installed?_of_isParse {step : Step H P} (h : step.isParse = true) :
    step.installed? = none := by
  cases step with
  | install root => cases h
  | _ => rfl

theorem ne_take {step : Step H P} (h : step.isParse = true) (wanted : H → Bool) :
    step ≠ take wanted := by
  rintro rfl
  cases h

end Step

/-- What an operation does, one thing after the other. -/
def Operation.steps : Operation H P → List (Step H P)
  | single step => [step]
  | parseWith root wanted input => [.install root, .parse input, .take wanted]

section Performing

variable (hs : Handlers H N) (policy : Policy P) [Text.Decoders]

/-- The session behind a step. -/
def step (s : Session H N P) : Step H P → Session H N P
  | .install root => s.install root
  | .setPolicy state => s.setPolicy state
  | .parse input => (s.parse hs policy input).2
  | .parseUnder oneOff state input => (s.parseUnder hs oneOff state input).2
  | .take wanted => (s.take wanted).2

/-- The session behind an operation. -/
def perform (s : Session H N P) : Operation H P → Session H N P
  | .single step => s.step hs policy step
  | .parseWith root wanted input => (s.parseWith hs policy root wanted input).2.2

def run (s : Session H N P) (steps : List (Step H P)) : Session H N P :=
  steps.foldl (step hs policy) s

/-- The session behind a history of operations, the earliest first. -/
def after (s : Session H N P) (history : List (Operation H P)) : Session H N P :=
  history.foldl (perform hs policy) s

end Performing

/-- The step is a parse that succeeds, and makes `last` of the handler that is installed as
`root`. -/
def Reads [Text.Decoders] (hs : Handlers H N) (policy : Policy P) (s : Session H N P)
    (root last : H) :
    Step H P → Prop
  | .parse input =>
    (s.parse hs policy input).1.outcome = .ok () ∧
      s.reader.Leaves hs policy s.policy input root last
  | .parseUnder oneOff state input =>
    (s.parseUnder hs oneOff state input).1.outcome = .ok () ∧
      s.reader.Leaves hs oneOff state input root last
  | _ => False

/-- Every parse is refused at once, whatever its input. Nobody is asked anything, and the session
stays as it is. -/
def Refuses [Text.Decoders] (hs : Handlers H N) (policy : Policy P) (s : Session H N P) : Prop :=
  (∀ input, s.parse hs policy input = (⟨.error .noActiveHandler, [], s.policy⟩, s)) ∧
    ∀ {Q : Type} (oneOff : Policy Q) (state : Q) (input : Input),
      s.parseUnder hs oneOff state input = (⟨.error .noActiveHandler, [], state⟩, s)

/-! ## Single parses -/

section Parsing

variable [Text.Decoders] {hs : Handlers H N} {policy : Policy P} {s : Session H N P} {root : H}
  {step : Step H P}

theorem parse_eq (hs : Handlers H N) (policy : Policy P) (s : Session H N P)
    (input : Input) :
    s.parse hs policy input =
      let (report, after) := s.parseUnder hs policy s.policy input
      (report, { after with policy := report.policy }) := rfl

theorem refuses_of_none (hs : Handlers H N) (policy : Policy P)
    (hnone : s.chain = none) :
    s.Refuses hs policy := by
  refine ⟨fun input => ?_, fun oneOff state input => parseUnder_of_none hnone oneOff state input⟩
  rw [parse_eq, parseUnder_of_none hnone]

/-- A parse uses the handler up. The policy of the session has no part in it. -/
theorem parseUnder_uses (hroot : s.chain = some (.ofRoot root)) {Q : Type}
    (oneOff : Policy Q) (state : Q) (input : Input) :
    let next := (s.parseUnder hs oneOff state input).2
    next.reader = s.reader ∧ next.chain = none ∧ next.policy = s.policy := by
  rw [parseUnder_of_chain hroot]
  dsimp only
  split <;> exact ⟨rfl, rfl, rfl⟩

/-- Behind a parse there is a root exactly if the parse succeeds, and then it is what has become of
the handler. -/
theorem parseUnder_completed (hk : hs.KeepsBoundary)
    (hroot : s.chain = some (.ofRoot root))
    (hnone : s.completed = none) {Q : Type} (oneOff : Policy Q) (state : Q) (input : Input)
    (last : H) :
    (s.parseUnder hs oneOff state input).2.completed = some last ↔
      (s.parseUnder hs oneOff state input).1.outcome = .ok () ∧
        s.reader.Leaves hs oneOff state input root last := by
  rw [parseUnder_of_chain hroot]
  dsimp only
  cases houtcome : (s.reader.parse input oneOff (Chain.receiver hs) state (.ofRoot root)).1 with
  | error e => simp [hnone]
  | ok _ =>
    obtain ⟨found, hfound⟩ := DocumentReader.exists_leaves hk houtcome
    have hcompleted := hfound.completed hk
    constructor
    · intro hlast
      obtain rfl : found = last := Option.some.inj (hcompleted.symm.trans hlast)
      exact ⟨rfl, hfound⟩
    · rintro ⟨-, hlast⟩
      exact hlast.completed hk

theorem parseUnder_keeps (hk : hs.KeepsBoundary)
    (hroot : s.chain = some (.ofRoot root))
    (hnone : s.completed = none) {Q : Type} (oneOff : Policy Q) (state : Q) (input : Input)
    (hok : (s.parseUnder hs oneOff state input).1.outcome = .ok ()) :
    ∃ last, s.reader.Leaves hs oneOff state input root last ∧
      (s.parseUnder hs oneOff state input).2.completed = some last := by
  have hparse := hok
  rw [parseUnder_of_chain hroot] at hparse
  obtain ⟨last, hleaves⟩ := DocumentReader.exists_leaves hk hparse
  exact ⟨last, hleaves,
    (parseUnder_completed hk hroot hnone oneOff state input last).mpr ⟨hok, hleaves⟩⟩

/-- With a handler the input is opened, and if it cannot be, this is how the parse ends. -/
theorem parseUnder_of_unopened (hs : Handlers H N) {c : Chain H N}
    (hc : s.chain = some c)
    {Q : Type} (oneOff : Policy Q) (state : Q) {input : Input} {e : ReadFailure}
    (h : input.opened s.reader.settings.bufferSize = .error e) :
    (s.parseUnder hs oneOff state input).1.outcome = .error e := by
  rw [parseUnder_of_chain hc, DocumentReader.parse_of_error (DocumentReader.transcript_error h)]

/-- What a parse leaves of a waiting handler is the root that it has read. -/
theorem step_of_awaited (hk : hs.KeepsBoundary) (policy : Policy P)
    (hroot : s.chain = some (.ofRoot root)) (hnone : s.completed = none)
    (hparse : step.isParse = true) :
    (s.step hs policy step).reader = s.reader ∧ (s.step hs policy step).chain = none ∧
      ∀ last, (s.step hs policy step).completed = some last ↔ s.Reads hs policy root last step := by
  cases step with
  | parse input =>
    obtain ⟨hreader, hchain, -⟩ := parseUnder_uses hroot policy s.policy input
    exact ⟨hreader, hchain, parseUnder_completed hk hroot hnone policy s.policy input⟩
  | parseUnder oneOff state input =>
    obtain ⟨hreader, hchain, -⟩ := parseUnder_uses hroot oneOff state input
    exact ⟨hreader, hchain, parseUnder_completed hk hroot hnone oneOff state input⟩
  | install root => cases hparse
  | setPolicy state => cases hparse
  | take wanted => cases hparse

theorem step_of_none (hs : Handlers H N) (policy : Policy P)
    (hnone : s.chain = none) (hparse : step.isParse = true) :
    s.step hs policy step = s ∧ ∀ root last, ¬ s.Reads hs policy root last step := by
  obtain ⟨hown, honeOff⟩ := refuses_of_none hs policy hnone
  cases step with
  | parse input =>
    refine ⟨congrArg Prod.snd (hown input), ?_⟩
    rintro root last ⟨hok, -⟩
    rw [hown] at hok
    cases hok
  | parseUnder oneOff state input =>
    refine ⟨congrArg Prod.snd (honeOff oneOff state input), ?_⟩
    rintro root last ⟨hok, -⟩
    rw [honeOff] at hok
    cases hok
  | install root => cases hparse
  | setPolicy state => cases hparse
  | take wanted => cases hparse

theorem parseWith_of_error {input : Input} {e : ReadFailure}
    (h : ((s.install root).parse hs policy input).1.outcome = .error e) (wanted : H → Bool) :
    s.parseWith hs policy root wanted input =
      (((s.install root).parse hs policy input).1, .error e,
        ((s.install root).parse hs policy input).2) := by
  simp only [parseWith, h]

theorem parseWith_of_ok {input : Input}
    (h : ((s.install root).parse hs policy input).1.outcome = .ok ()) (wanted : H → Bool) :
    s.parseWith hs policy root wanted input =
      (((s.install root).parse hs policy input).1,
        (match (((s.install root).parse hs policy input).2.take wanted).1 with
          | some last => .ok last
          | none => .error .noActiveHandler),
        (((s.install root).parse hs policy input).2.take wanted).2) := by
  simp only [parseWith, h]
  split <;> simp only [*]

/-- A parse that fails leaves no root behind. -/
theorem parse_install_error {input : Input} {e : ReadFailure}
    (h : ((s.install root).parse hs policy input).1.outcome = .error e) :
    ((s.install root).parse hs policy input).2.completed = none := by
  have hroot : (s.install root).chain = some (.ofRoot root) := rfl
  rw [parse_eq, parseUnder_of_chain hroot] at h ⊢
  dsimp only at h ⊢
  rw [h]
  rfl

end Parsing

section Taking

variable {s : Session H N P}

theorem take_of_none (hnone : s.completed = none) (wanted : H → Bool) :
    s.take wanted = (none, s) := by
  rw [take, hnone]

theorem take_completed (s : Session H N P) (wanted : H → Bool) (last : H) :
    (s.take wanted).2.completed = some last ↔ s.completed = some last ∧ wanted last = false := by
  cases hcompleted : s.completed with
  | none => simp [take, hcompleted]
  | some kept =>
    cases hwanted : wanted kept with
    | true =>
      have hnone : (s.take wanted).2.completed = none := by simp [take, hcompleted, hwanted]
      simp only [hnone, Option.some.injEq, reduceCtorEq, false_iff, not_and]
      rintro rfl
      simp [hwanted]
    | false =>
      have hsame : (s.take wanted).2.completed = some kept := by simp [take, hcompleted, hwanted]
      simp only [hsame, Option.some.injEq, iff_self_and]
      rintro rfl
      exact hwanted

theorem take_wanted {wanted : H → Bool} {last : H} (h : s.completed = some last)
    (hwanted : wanted last = true) : (s.take wanted).1 = some last := by
  simp [take, h, hwanted]

theorem take_other (s : Session H N P) (wanted : H → Bool) {last : H}
    (h : s.completed = some last) (hother : wanted last = false) : s.take wanted = (none, s) := by
  simp [take, h, hother]

theorem take_frame (s : Session H N P) (wanted : H → Bool) :
    (s.take wanted).2.reader = s.reader ∧ (s.take wanted).2.chain = s.chain := by
  unfold take
  split
  · split <;> exact ⟨rfl, rfl⟩
  · exact ⟨rfl, rfl⟩

end Taking

/-! ## Operations in single steps -/

section Steps

variable (hs : Handlers H N) (policy : Policy P) [Text.Decoders]

theorem run_append (s : Session H N P) (steps more : List (Step H P)) :
    s.run hs policy (steps ++ more) = (s.run hs policy steps).run hs policy more :=
  List.foldl_append

/-- To parse with a handler is to install it, to parse, and to take it. -/
theorem perform_eq_run (s : Session H N P) (operation : Operation H P) :
    s.perform hs policy operation = s.run hs policy operation.steps := by
  cases operation with
  | single step => rfl
  | parseWith root wanted input =>
    change (s.parseWith hs policy root wanted input).2.2 =
      (((s.install root).parse hs policy input).2.take wanted).2
    cases houtcome : ((s.install root).parse hs policy input).1.outcome with
    | error e =>
      rw [take_of_none (parse_install_error houtcome), parseWith_of_error houtcome]
    | ok _ => rw [parseWith_of_ok houtcome]

theorem after_eq_run (s : Session H N P) (history : List (Operation H P)) :
    s.after hs policy history = s.run hs policy (history.flatMap Operation.steps) := by
  induction history generalizing s with
  | nil => rfl
  | cons operation history ih =>
    rw [List.flatMap_cons, run_append, ← perform_eq_run, ← ih]
    rfl

end Steps

end Session

end ScopedXml
