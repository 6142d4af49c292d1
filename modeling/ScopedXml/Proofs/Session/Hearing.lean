import ScopedXml.Proofs.Reader.Failures
import ScopedXml.Proofs.Scope.Answers
import ScopedXml.Session

/-!
# What the listeners of a parse hear

Handlers and policy of a session can be made to write down what they are asked, and the policy also
what it answers. Nothing else changes by that (`Session.hearing_outcome`), so what they write down
is what they hear in the parse itself.

* `Hearing`: the calls of the handlers, the diagnostics with their answers, and the outcome.
* `Session.hearing_raised`: a failure that is neither the fault of the input nor a diagnostic was
  raised by a handler or by the policy.
* `Session.parseUnder_succeeds`: behind a parse that succeeds there is a root.
-/

namespace ScopedXml

open Scope

variable {P Q C D H N : Type}

/-! ## Listeners that are alike -/

section Alike

/-- Two policies that answer alike as long as their states are related. -/
def Policy.Alike (policy : Policy P) (other : Policy Q) (related : P → Q → Prop) : Prop :=
  ∀ p q entry d, related p q →
    (policy.receive p entry d).1 = (other.receive q entry d).1 ∧
      related (policy.receive p entry d).2 (other.receive q entry d).2

/-- Two receivers that answer alike as long as their states are related. -/
def Receiver.Alike (receiver : Receiver C) (other : Receiver D) (related : C → D → Prop) : Prop :=
  ∀ c d event, related c d →
    (receiver.receive c event).1 = (other.receive d event).1 ∧
      related (receiver.receive c event).2 (other.receive d event).2

variable {policy : Policy P} {policy' : Policy Q} {receiver : Receiver C} {receiver' : Receiver D}
  {same : P → Q → Prop} {same' : C → D → Prop} {p : P} {q : Q} {c : C} {d : D}

theorem Policy.Alike.report (h : policy.Alike policy' same) (hp : same p q)
    (diagnostic : Diagnostic) :
    (policy.report p diagnostic).1 = (policy'.report q diagnostic).1 ∧
      same (policy.report p diagnostic).2 (policy'.report q diagnostic).2 := by
  obtain ⟨hanswer, hafter⟩ := h p q diagnostic.severity diagnostic hp
  unfold Policy.report
  generalize policy.receive p diagnostic.severity diagnostic = asked at hanswer hafter
  generalize policy'.receive q diagnostic.severity diagnostic = asked' at hanswer hafter
  obtain ⟨answer, after⟩ := asked
  obtain ⟨answer', after'⟩ := asked'
  obtain rfl : answer = answer' := hanswer
  cases answer with
  | error e => exact ⟨rfl, hafter⟩
  | ok _ =>
    dsimp only
    split <;> exact ⟨rfl, hafter⟩

/-- What happened to two pairs of listeners: the answers are equal and the states related. -/
def AlikeAfter (same : P → Q → Prop) (same' : C → D → Prop) (x : Except ReadFailure Unit × P × C)
    (y : Except ReadFailure Unit × Q × D) : Prop :=
  x.1 = y.1 ∧ same x.2.1 y.2.1 ∧ same' x.2.2 y.2.2

theorem Item.deliver_alike (hpolicy : policy.Alike policy' same)
    (hreceiver : receiver.Alike receiver' same') (hp : same p q) (hc : same' c d) (item : Item) :
    AlikeAfter same same' (item.deliver policy receiver p c)
      (item.deliver policy' receiver' q d) := by
  cases item with
  | report diagnostic =>
    obtain ⟨hanswer, hafter⟩ := hpolicy.report hp diagnostic
    exact ⟨hanswer, hafter, hc⟩
  | event event =>
    obtain ⟨hanswer, hafter⟩ := hreceiver c d event hc
    exact ⟨hanswer, hp, hafter⟩

theorem deliverItems_alike (hpolicy : policy.Alike policy' same)
    (hreceiver : receiver.Alike receiver' same') (hp : same p q) (hc : same' c d)
    (items : List Item) :
    AlikeAfter same same' (deliverItems policy receiver p c items)
      (deliverItems policy' receiver' q d items) := by
  induction items generalizing p q c d with
  | nil => exact ⟨rfl, hp, hc⟩
  | cons item items ih =>
    have hitem := Item.deliver_alike hpolicy hreceiver hp hc item
    rw [deliverItems, deliverItems]
    generalize item.deliver policy receiver p c = x at hitem
    generalize item.deliver policy' receiver' q d = y at hitem
    obtain ⟨answer, p', c'⟩ := x
    obtain ⟨answer', q', d'⟩ := y
    obtain ⟨hanswer, hp', hc'⟩ := hitem
    obtain rfl : answer = answer' := hanswer
    cases answer with
    | error e => exact ⟨rfl, hp', hc'⟩
    | ok _ => exact ih hp' hc'

theorem DocumentReader.parse_alike [Text.Decoders] (r : DocumentReader) (input : Input)
    (hpolicy : policy.Alike policy' same) (hreceiver : receiver.Alike receiver' same')
    (hp : same p q) (hc : same' c d) :
    AlikeAfter same same' (r.parse input policy receiver p c)
      (r.parse input policy' receiver' q d) := by
  obtain ⟨items, ending, hrun⟩ := r.exists_items input
  rw [(hrun policy receiver p c).2, (hrun policy' receiver' q d).2]
  obtain ⟨hanswer, hafter⟩ := deliverItems_alike hpolicy hreceiver hp hc items
  exact ⟨by rw [hanswer], hafter⟩

end Alike

/-! ## Hearing -/

/-- The same policy, writing down what it is told and what it answers. -/
def Policy.noting (policy : Policy P) :
    Policy (P × List (Diagnostic × Except ReadFailure Unit)) where
  receive := fun (p, log) entry d =>
    let (answer, p) := policy.receive p entry d
    (answer, p, log ++ [(d, answer)])

theorem Policy.noting_alike (policy : Policy P) :
    policy.Alike policy.noting fun p noted => noted.1 = p := by
  rintro p ⟨_, log⟩ entry d rfl
  exact ⟨rfl, rfl⟩

/-- A failure is either what the policy answered, or the diagnostic that it let pass. -/
theorem Policy.noting_report {policy : Policy P}
    {asked after : P × List (Diagnostic × Except ReadFailure Unit)} {d : Diagnostic}
    {e : ReadFailure} (h : policy.noting.report asked d = (.error e, after)) :
    (d, .error e) ∈ after.2 ∨ e = .invalid d := by
  obtain ⟨p, log⟩ := asked
  unfold Policy.report at h
  split at h
  · next e' after' hreceive =>
    cases h
    left
    obtain ⟨hanswer, hafter⟩ := Prod.mk.inj hreceive
    rw [← hafter, ← hanswer]
    simp
  · split at h
    · cases h
      exact .inr rfl
    · cases h

theorem Chain.traced_alike (hs : Handlers H N) :
    (Chain.receiver hs).Alike (Chain.receiver hs.traced) fun c traced =>
      ∃ log, traced = c.withLog log := by
  rintro c _ event ⟨log, rfl⟩
  exact Chain.sameButLog_receive log event

/-- What the listeners of a parse hear, and how it ends. -/
structure Hearing (H : Type) where
  outcome : Except ReadFailure Unit
  calls : List (Call H)
  diagnostics : List (Diagnostic × Except ReadFailure Unit)

/-- A callback has answered with this failure. -/
def Hearing.Raised (hs : Handlers H N) (heard : Hearing H) (e : ReadFailure) : Prop :=
  (∃ call ∈ heard.calls, call.outcome hs = .error e) ∨ ∃ d, (d, .error e) ∈ heard.diagnostics

namespace Session

variable {hs : Handlers H N} {policy : Policy Q} {state : Q} {s : Session H N P} {root : H}
  {input : Input}

/-- The session with an empty log for the calls of its handlers. -/
def observed (s : Session H N P) : Session H (Call H) P :=
  ⟨s.reader, s.chain.map (·.withLog []), s.completed, s.policy⟩

theorem observed_chain {c : Chain H N} (hc : s.chain = some c) :
    s.observed.chain = some (c.withLog []) := by
  rw [observed, hc]
  rfl

variable [Text.Decoders]

/-- What handlers and policy hear if the session parses an input under this policy. -/
def hearing (hs : Handlers H N) (policy : Policy Q) (state : Q) (s : Session H N P)
    (input : Input) : Hearing H :=
  let report := (s.observed.parseUnder hs.traced policy.noting (state, []) input).1
  ⟨report.outcome, report.notes, report.policy.2⟩

theorem parseUnder_of_chain {c : Chain H N} (hc : s.chain = some c)
    (policy : Policy Q) (state : Q) (input : Input) :
    let run := s.reader.parse input policy (Chain.receiver hs) state c
    s.parseUnder hs policy state input =
      (⟨run.1, run.2.2.log, run.2.1⟩,
        match run.1 with
        | .error _ => { s with chain := none }
        | .ok () => { s with chain := none, completed := run.2.2.completed }) := by
  simp only [parseUnder, hc]
  split <;> simp only [*]

theorem parseUnder_of_none (hc : s.chain = none) (policy : Policy Q) (state : Q)
    (input : Input) :
    s.parseUnder hs policy state input = (⟨.error .noActiveHandler, [], state⟩, s) := by
  rw [parseUnder, hc]

/-- Writing down does not change how a parse ends. -/
theorem hearing_outcome (hs : Handlers H N) (policy : Policy Q) (state : Q)
    (s : Session H N P) (input : Input) :
    (s.hearing hs policy state input).outcome = (s.parseUnder hs policy state input).1.outcome := by
  unfold hearing
  cases hc : s.chain with
  | none =>
    have hnone : s.observed.chain = none := by
      rw [observed, hc]
      rfl
    rw [parseUnder_of_none hc, parseUnder_of_none hnone]
  | some c =>
    have halike := s.reader.parse_alike input policy.noting_alike (Chain.traced_alike hs)
      (p := state) (q := (state, [])) (c := c) (d := c.withLog []) rfl ⟨[], rfl⟩
    rw [parseUnder_of_chain hc, parseUnder_of_chain (observed_chain hc)]
    exact halike.1.symm

/-- A failure that is neither the fault of the input nor a diagnostic was raised by a callback. -/
theorem hearing_raised (hk : hs.KeepsBoundary)
    (hroot : s.chain = some (.ofRoot root))
    {e : ReadFailure} (h : (s.hearing hs policy state input).outcome = .error e)
    (hinput : e.ofInput = false) (hinvalid : e.isInvalid = false) :
    (s.hearing hs policy state input).Raised hs e := by
  have hchain : s.observed.chain = some (.ofRoot root) := observed_chain hroot
  unfold hearing at h ⊢
  rw [parseUnder_of_chain hchain] at h ⊢
  dsimp only at h ⊢
  obtain ⟨hfed, -, hfailed⟩ := s.observed.reader.parse_feed input policy.noting
    (Chain.receiver hs.traced) (state, []) (.ofRoot root)
  obtain ⟨-, name, attributes, content, hbegin, -⟩ := s.observed.reader.handed_tells input
    policy.noting (Chain.receiver hs.traced) (state, []) (.ofRoot root)
  rcases hfailed e h with hofInput | hreceiver | ⟨asked, d, hreport⟩
  · rw [hofInput] at hinput
    cases hinput
  · left
    rw [hfed]
    exact Chain.feed_raised hk hbegin hreceiver
  · right
    rcases Policy.noting_report hreport with hnoted | rfl
    · exact ⟨d, hnoted⟩
    · cases hinvalid

end Session

/-! ## Roots -/

/-- A parse under this policy tells all of a document, and the handler that is installed for it
becomes `last`. -/
def DocumentReader.Leaves [Text.Decoders] (r : DocumentReader) (hs : Handlers H N)
    (policy : Policy Q) (state : Q) (input : Input) (root last : H) : Prop :=
  ∃ name attributes content calls,
    eventsOf (r.handed input policy (Chain.receiver hs) state (.ofRoot root)) =
        Node.documentEvents name attributes content ∧
      descend hs root name attributes content = .ok last calls

section Roots

variable [Text.Decoders] {hs : Handlers H N} {policy : Policy Q} {state : Q} {r : DocumentReader}
  {root last : H} {input : Input}

theorem DocumentReader.Leaves.completed (hk : hs.KeepsBoundary)
    (h : r.Leaves hs policy state input root last) :
    (r.parse input policy (Chain.receiver hs) state (.ofRoot root)).2.2.completed = some last := by
  obtain ⟨name, attributes, content, calls, hevents, hdescend⟩ := h
  obtain ⟨hfed, -, -⟩ := r.parse_feed input policy (Chain.receiver hs) state (.ofRoot root)
  rw [hfed, hevents]
  exact (Chain.feed_of_descend hk hdescend).2

theorem DocumentReader.Leaves.stays {kind : H → Bool} (hkind : hs.StaysWithin kind)
    (h : r.Leaves hs policy state input root last) : kind root → kind last := by
  obtain ⟨name, attributes, content, calls, -, hdescend⟩ := h
  exact (descend_meets hkind root name attributes content).result hdescend

/-- A parse that succeeds has a root. -/
theorem DocumentReader.exists_leaves (hk : hs.KeepsBoundary)
    (h : (r.parse input policy (Chain.receiver hs) state (.ofRoot root)).1 = .ok ()) :
    ∃ last, r.Leaves hs policy state input root last := by
  obtain ⟨-, hok, -⟩ := r.parse_feed input policy (Chain.receiver hs) state (.ofRoot root)
  obtain ⟨-, name, attributes, content, -, hall⟩ :=
    r.handed_tells input policy (Chain.receiver hs) state (.ofRoot root)
  have hevents := hall h
  have hfed := hok h
  rw [hevents] at hfed
  obtain ⟨last, calls, hdescend⟩ := Chain.exists_descend hk hfed
  exact ⟨last, name, attributes, content, calls, hevents, hdescend⟩

end Roots

end ScopedXml
