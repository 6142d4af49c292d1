import Mathlib.Data.List.DropRight
import ScopedXml.Proofs.Scope.Custody
import ScopedXml.Proofs.Scope.Depth

/-!
# The text that a handler sees

Each frame of a chain gathers the text that is delivered to its handler. A text begins anew behind
an element that the handler keeps to itself, and wherever the handler takes what has gathered. An
element that goes to a child interrupts it only: the pieces from before and behind the element are
joined, and what was delivered to the child is not among them.

* `Handlers.gathered`: the text that some calls of one handler leave.
* `Turn`: all that an event can do to the frames of a chain.
* `Chain.shows_gathered`: what a handler sees, in a run of any handlers on any events.
-/

namespace ScopedXml

def Event.text? : Event → Option String
  | characters s => some s
  | _ => none

namespace Scope

variable {H N : Type}

/-! ## What calls leave -/

namespace Call

/-- The text that a call delivers. -/
def text? : Call H → Option String
  | text _ _ s => some s
  | _ => none

/-- The text that has come with a call. The handler sees it already. -/
def arriving (call : Call H) : String := call.text?.getD ""

def isOpened : Call H → Bool
  | opened .. => true
  | _ => false

/-- Whether the text begins anew behind a call: the handler has kept the element that opens, or it
has taken the text at another time. -/
def startsAnew (hs : Handlers H N) : Call H → Bool
  | opened h view name attributes => (hs.onStart h view name attributes).child.isNone
  | text h view s => (hs.onText h view s).tookText
  | closed h view name => (hs.onEnd h view name).tookText
  | completed h view child => (hs.onChild h view child).tookText

/-- What a call makes of the text from before. -/
def leaves (hs : Handlers H N) (call : Call H) (before : String) : String :=
  if call.startsAnew hs then "" else before ++ call.arriving

end Call

theorem Call.filterMap_text? (call : Call H) : [call].filterMap text? = call.text?.toList := by
  rw [List.filterMap_cons, List.filterMap_nil]
  cases call.text? <;> rfl

theorem Call.leaves_of_silent {hs : Handlers H N} {call : Call H} (h : call.text? = none)
    (before : String) : call.leaves hs before = if call.startsAnew hs then "" else before := by
  rw [leaves, arriving, h, Option.getD_none, String.append_empty]

/-- The text that some calls of one handler leave: all that was delivered behind the last call at
which it began anew. -/
def Handlers.gathered (hs : Handlers H N) (calls : List (Call H)) : String :=
  String.join ((calls.rtakeWhile fun call => !call.startsAnew hs).filterMap Call.text?)

theorem Handlers.gathered_concat (hs : Handlers H N) (calls : List (Call H)) (call : Call H) :
    hs.gathered (calls ++ [call]) = call.leaves hs (hs.gathered calls) := by
  cases hanew : call.startsAnew hs with
  | true =>
    rw [gathered, List.rtakeWhile_concat_neg _ _ _ (by simp [hanew]), Call.leaves, if_pos hanew]
    rfl
  | false =>
    have htext : String.join ([call].filterMap Call.text?) = call.arriving := by
      rw [Call.filterMap_text?, Call.arriving]
      cases call.text? <;> simp
    rw [gathered, List.rtakeWhile_concat_pos _ _ _ (by simp [hanew]), List.filterMap_append,
      String.join_append, htext, Call.leaves, if_neg (by simp [hanew]), gathered]

/-- The calls of the handler with this mark. -/
def callsOf (m : List Nat) (log : List (Call (Marked H))) : List (Call (Marked H)) :=
  log.filter fun call => call.handler.mark == m

theorem callsOf_concat_self {m : List Nat} {call : Call (Marked H)} (h : call.handler.mark = m)
    (log : List (Call (Marked H))) : callsOf m (log ++ [call]) = callsOf m log ++ [call] := by
  simp [callsOf, h]

theorem callsOf_concat_other {m : List Nat} {call : Call (Marked H)} (h : call.handler.mark ≠ m)
    (log : List (Call (Marked H))) : callsOf m (log ++ [call]) = callsOf m log := by
  simp [callsOf, h]

/-! ## Turns -/

section Turns

variable (hs : Handlers H N)

/-- A call of the handler of a frame, with the text that it delivers and the frame behind it. -/
structure Serves (said : Option String) (call : Call (Marked H)) (frame behind : Frame (Marked H)) :
    Prop where
  delivers : call.text? = said
  mark_call : call.handler.mark = frame.handler.mark
  mark_behind : behind.handler.mark = frame.handler.mark
  shows : call.isOpened = false → call.view.text = frame.text ++ call.arriving
  leaves : behind.text = call.leaves hs.marked frame.text

/-- What an event can do to the frames of a chain that notes its callbacks, with the text that it
says. -/
inductive Turn (said : Option String) (c c' : Chain (Marked H) (Call (Marked H))) : Prop
  /-- No handler is called. The last one may leave at the end of the document. -/
  | quiet : said = none → c'.stack ⊆ c.stack → c'.log = c.log → Turn said c c'
  /-- The active handler is called. -/
  | call (call : Call (Marked H)) (frame behind : Frame (Marked H))
    (rest : List (Frame (Marked H))) :
    c.stack = frame :: rest → c'.stack = behind :: rest → c'.log = c.log ++ [call] →
    Serves hs said call frame behind → Turn said c c'
  /-- The active handler delegates an element to a child. -/
  | delegate (call : Call (Marked H)) (frame behind child : Frame (Marked H))
    (rest : List (Frame (Marked H))) :
    c.stack = frame :: rest → c'.stack = child :: behind :: rest → c'.log = c.log ++ [call] →
    Serves hs said call frame behind →
    child.handler.mark = frame.handler.children :: frame.handler.mark → child.text = "" →
    Turn said c c'
  /-- The active handler retires, and the one below it is told. -/
  | handOver (closed told : Call (Marked H)) (frame last parent behind : Frame (Marked H))
    (rest : List (Frame (Marked H))) :
    c.stack = frame :: parent :: rest → c'.stack = behind :: rest →
    c'.log = c.log ++ [closed, told] → Serves hs none closed frame last →
    Serves hs none told parent behind → said = none → Turn said c c'
  /-- The last handler retires. -/
  | complete (closed : Call (Marked H)) (frame last : Frame (Marked H)) :
    c.stack = [frame] → c'.stack = [] → c'.log = c.log ++ [closed] →
    Serves hs none closed frame last → said = none → Turn said c c'

variable {hs} {said : Option String} {c c' : Chain (Marked H) (Call (Marked H))}

theorem serves_text (frame : Frame (Marked H)) (k : Nat) (s : String) :
    let filled : Frame (Marked H) := { frame with text := frame.text ++ s }
    Serves hs (some s) (.text filled.handler (filled.view k) s) frame
      (filled.after (hs.marked.onText filled.handler (filled.view k) s)) :=
  ⟨rfl, rfl, rfl, fun _ => rfl, rfl⟩

theorem serves_closed (frame : Frame (Marked H)) (k : Nat) (name : QualifiedName) :
    Serves hs none (.closed frame.handler (frame.view k) name) frame
      (frame.after (hs.marked.onEnd frame.handler (frame.view k) name)) := by
  refine ⟨rfl, rfl, rfl, fun _ => (String.append_empty).symm, ?_⟩
  rw [Call.leaves_of_silent rfl]
  rfl

theorem serves_completed (frame : Frame (Marked H)) (k : Nat) (child : Marked H) :
    Serves hs none (.completed frame.handler (frame.view k) child) frame
      (frame.after (hs.marked.onChild frame.handler (frame.view k) child)) := by
  refine ⟨rfl, rfl, rfl, fun _ => (String.append_empty).symm, ?_⟩
  rw [Call.leaves_of_silent rfl]
  rfl

theorem Marked.mark_startReply (m : Marked H) (r : StartReply H N) :
    (m.startReply r).handler.mark = m.mark := by
  rw [startReply]
  split <;> rfl

theorem Marked.child_startReply (m : Marked H) (r : StartReply H N) :
    (m.startReply r).child = r.child.map m.child := by
  rw [startReply, delegate]
  cases r.outcome with
  | error e => rfl
  | ok _ => cases r.child <;> rfl

theorem turn_startElement {name : QualifiedName} {attributes : Attributes}
    (h : c.startElement hs.marked.traced name attributes = (.ok (), c')) : Turn hs none c c' := by
  obtain ⟨stack, completed, k, log⟩ := c
  cases stack with
  | nil => cases h
  | cons frame rest =>
    let opened : Frame (Marked H) :=
      { frame with text := "", attributes := some attributes, depth := frame.depth + 1 }
    let call : Call (Marked H) := .opened frame.handler (opened.view (k + 1)) name attributes
    have hanew : call.startsAnew hs.marked =
        (hs.marked.onStart frame.handler (opened.view (k + 1)) name attributes).child.isNone := rfl
    have hmark : (hs.marked.onStart frame.handler (opened.view (k + 1)) name
        attributes).handler.mark = frame.handler.mark := Marked.mark_startReply _ _
    have hchild : ∀ child, (hs.marked.onStart frame.handler (opened.view (k + 1)) name
        attributes).child = some child →
          child.mark = frame.handler.children :: frame.handler.mark := by
      intro child hchild
      simp only [Handlers.marked] at hchild
      rw [Marked.child_startReply, Option.map_eq_some_iff] at hchild
      obtain ⟨_, -, rfl⟩ := hchild
      rfl
    simp only [Chain.startElement, Handlers.traced, Reply.noting] at h
    generalize hs.marked.onStart frame.handler (opened.view (k + 1)) name attributes = reply at *
    have hshows : call.isOpened = false → call.view.text = frame.text ++ call.arriving := by
      intro hnot
      cases hnot
    have hleaves : call.leaves hs.marked frame.text =
        if call.startsAnew hs.marked then "" else frame.text := Call.leaves_of_silent rfl _
    rw [hanew] at hleaves
    split at h
    · cases h
    · rename_i hout hnone
      cases h
      rw [hnone] at hleaves
      refine .call call frame _ rest rfl rfl rfl ⟨rfl, rfl, hmark, hshows, ?_⟩
      rw [hleaves]
      exact ite_self _
    · rename_i child hout hsome
      cases h
      rw [hsome] at hleaves
      have hnew := hchild child hsome
      exact .delegate call frame _ (.enter child 1) rest rfl rfl rfl
        ⟨rfl, rfl, hmark, hshows, hleaves.symm⟩ hnew rfl

theorem turn_characters {text : String}
    (h : c.characters hs.marked.traced text = (.ok (), c')) : Turn hs (some text) c c' := by
  obtain ⟨stack, completed, k, log⟩ := c
  cases stack with
  | nil => cases h
  | cons frame rest =>
    have hc' := congrArg Prod.snd h
    subst hc'
    exact .call _ frame _ rest rfl rfl rfl (serves_text frame k text)

theorem turn_endElement {name : QualifiedName}
    (h : c.endElement hs.marked.traced name = (.ok (), c')) : Turn hs none c c' := by
  obtain ⟨stack, completed, k, log⟩ := c
  cases stack with
  | nil => cases h
  | cons frame rest =>
    cases hlast : (hs.isLast frame.handler.handler name ⟨frame.depth, k⟩).1 with
    | false =>
      have hasked : hs.marked.traced.isLast frame.handler name ⟨frame.depth, k⟩ = (false, []) := by
        simp [Handlers.traced, Handlers.marked, hlast]
      rw [Chain.endElement_inside hasked] at h
      simp only [Handlers.traced, Reply.noting, List.append_nil] at h
      split at h
      · cases h
      · cases h
        have hserves : Serves hs none _ frame _ := serves_closed frame k name
        exact .call _ frame _ rest rfl rfl rfl
          ⟨rfl, hserves.mark_call, hserves.mark_behind, hserves.shows, hserves.leaves⟩
    | true =>
      have hasked : hs.marked.traced.isLast frame.handler name ⟨frame.depth, k⟩ = (true, []) := by
        simp [Handlers.traced, Handlers.marked, hlast]
      rw [Chain.endElement_last hasked] at h
      simp only [Handlers.traced, Reply.noting, List.append_nil] at h
      split at h
      · cases h
      · let final : Frame (Marked H) := { frame with attributes := none }
        have hclosed : Serves hs none _ final _ := serves_closed final k name
        have hserves : Serves hs none _ frame _ :=
          ⟨rfl, hclosed.mark_call, hclosed.mark_behind, hclosed.shows, hclosed.leaves⟩
        cases rest with
        | nil =>
          cases h
          exact .complete _ frame _ rfl rfl rfl hserves rfl
        | cons parent outer =>
          have hc' := congrArg Prod.snd h
          subst hc'
          let last := frame.after
            (hs.marked.onEnd frame.handler ({ frame with attributes := none }.view k) name)
          let resumed : Frame (Marked H) :=
            { parent with depth := parent.depth + (last.depth - 1) - 1 }
          have htold : Serves hs none _ resumed _ := serves_completed resumed (k - 1) last.handler
          refine .handOver _ _ frame _ parent _ outer rfl rfl ?_ hserves
            ⟨rfl, htold.mark_call, htold.mark_behind, htold.shows, htold.leaves⟩ rfl
          simp only [Chain.retire, Chain.note, List.append_assoc]
          rfl

theorem turn_receive {event : Event} (h : c.receive hs.marked.traced event = (.ok (), c')) :
    Turn hs event.text? c c' := by
  cases event with
  | startDocument =>
    simp only [Chain.receive, Chain.startDocument] at h
    split at h
    · cases h
    · cases h
      exact .quiet rfl (List.Subset.refl _) rfl
  | startElement name attributes => exact turn_startElement h
  | characters text => exact turn_characters h
  | endElement name => exact turn_endElement h
  | endDocument =>
    obtain ⟨stack, completed, k, log⟩ := c
    rcases stack with _ | ⟨frame, _ | ⟨outer, rest⟩⟩
    · simp only [Chain.receive, Chain.endDocument] at h
      split at h
      · cases h
        exact .quiet rfl (List.Subset.refl _) rfl
      · cases h
    · cases h
      exact .quiet rfl (List.nil_subset _) rfl
    · cases h

theorem Turn.calls (h : Turn hs said c c') :
    ∃ calls, c'.log = c.log ++ calls ∧ calls.filterMap Call.text? = said.toList ∧
      ∀ call ∈ calls, ∃ frame ∈ c.stack, call.handler.mark = frame.handler.mark := by
  cases h with
  | quiet hsaid _ hlog => exact ⟨[], by simp [hlog], by simp [hsaid], by simp⟩
  | call call frame behind rest hstack _ hlog hserves =>
    refine ⟨[call], hlog, hserves.delivers ▸ call.filterMap_text?, ?_⟩
    simp [hstack, hserves.mark_call]
  | delegate call frame behind child rest hstack _ hlog hserves =>
    refine ⟨[call], hlog, hserves.delivers ▸ call.filterMap_text?, ?_⟩
    simp [hstack, hserves.mark_call]
  | handOver closed told frame last parent behind rest hstack _ hlog hclosed htold hsaid =>
    refine ⟨[closed, told], hlog, ?_, ?_⟩
    · simp [hclosed.delivers, htold.delivers, hsaid]
    · simp [hstack, hclosed.mark_call, htold.mark_call]
  | complete closed frame last hstack _ hlog hserves hsaid =>
    refine ⟨[closed], hlog, ?_, ?_⟩
    · rw [closed.filterMap_text?, hserves.delivers, hsaid]
    · simp [hstack, hserves.mark_call]

end Turns

/-! ## What handlers see -/

section Gathering

variable (hs : Handlers H N)

/-- The frame holds what the calls of its handler leave. -/
def Holds (log : List (Call (Marked H))) (frame : Frame (Marked H)) : Prop :=
  frame.text = hs.marked.gathered (callsOf frame.handler.mark log)

/-- But for elements that open, each handler called sees what its earlier calls leave, and behind
it what has just arrived. -/
def Sees (log : List (Call (Marked H))) : Prop :=
  ∀ before call after, log = before ++ call :: after → call.isOpened = false →
    call.view.text =
      hs.marked.gathered (callsOf call.handler.mark before) ++ call.arriving

variable {hs} {log : List (Call (Marked H))} {call : Call (Marked H)}
  {said : Option String} {frame behind : Frame (Marked H)}

theorem Sees.concat (h : Sees hs log) (hcall : call.isOpened = false → call.view.text =
    hs.marked.gathered (callsOf call.handler.mark log) ++ call.arriving) :
    Sees hs (log ++ [call]) := by
  intro before earlier after heq hnot
  rcases List.eq_nil_or_concat after with rfl | ⟨between, last, rfl⟩
  · obtain ⟨rfl, hlast⟩ := List.append_inj' heq rfl
    rw [List.singleton_inj] at hlast
    subst hlast
    exact hcall hnot
  · rw [List.concat_eq_append, ← List.cons_append, ← List.append_assoc] at heq
    obtain ⟨rfl, -⟩ := List.append_inj' heq rfl
    exact h before earlier between rfl hnot

theorem Holds.other (h : Holds hs log frame) (hcall : call.handler.mark ≠ frame.handler.mark) :
    Holds hs (log ++ [call]) frame := by
  rw [Holds, callsOf_concat_other hcall]
  exact h

theorem Serves.holds (h : Serves hs said call frame behind) (hframe : Holds hs log frame) :
    Holds hs (log ++ [call]) behind := by
  rw [Holds, h.mark_behind, callsOf_concat_self h.mark_call, Handlers.gathered_concat, h.leaves,
    ← hframe]

theorem Serves.sees (h : Serves hs said call frame behind) (hframe : Holds hs log frame)
    (hlog : Sees hs log) : Sees hs (log ++ [call]) := by
  apply hlog.concat
  intro hnot
  rw [h.shows hnot, h.mark_call, ← hframe]

variable (hs)

/-- All frames of a stack hold their texts, and all callbacks of a log were shown them. -/
structure Gathers (stack : List (Frame (Marked H))) (log : List (Call (Marked H))) : Prop where
  sees : Sees hs log
  holds : ∀ frame ∈ stack, Holds hs log frame

variable {hs} {stack rest : List (Frame (Marked H))}

theorem Gathers.push (h : Gathers hs stack log) {child : Frame (Marked H)}
    (hnew : callsOf child.handler.mark log = []) (htext : child.text = "") :
    Gathers hs (child :: stack) log := by
  refine ⟨h.sees, ?_⟩
  rw [List.forall_mem_cons, Holds, hnew]
  exact ⟨htext, h.holds⟩

theorem Gathers.pop (h : Gathers hs (frame :: rest) log)
    (hserves : Serves hs said call frame behind)
    (hnodup : ((frame :: rest).map (·.handler.mark)).Nodup) : Gathers hs rest (log ++ [call]) := by
  have hframe : Holds hs log frame := h.holds frame List.mem_cons_self
  refine ⟨hserves.sees hframe h.sees, ?_⟩
  intro paused hpaused
  apply (h.holds paused (List.mem_cons_of_mem _ hpaused)).other
  intro heq
  rw [List.map_cons, List.nodup_cons, ← hserves.mark_call, heq] at hnodup
  exact hnodup.1 (List.mem_map_of_mem hpaused)

theorem Gathers.serve (h : Gathers hs (frame :: rest) log)
    (hserves : Serves hs said call frame behind)
    (hnodup : ((frame :: rest).map (·.handler.mark)).Nodup) :
    Gathers hs (behind :: rest) (log ++ [call]) := by
  have hpaused : Gathers hs rest (log ++ [call]) := h.pop hserves hnodup
  refine ⟨hpaused.sees, ?_⟩
  rw [List.forall_mem_cons]
  exact ⟨hserves.holds (h.holds frame List.mem_cons_self), hpaused.holds⟩

variable {c c' : Chain (Marked H) (Call (Marked H))}

/-- **Step.** -/
theorem Gathers.turn (h : Gathers hs c.stack c.log) (hturn : Turn hs said c c')
    (hnodup : (c.stack.map (·.handler.mark)).Nodup)
    (hfresh : ∀ frame ∈ c.stack,
      callsOf (frame.handler.children :: frame.handler.mark) c.log = []) :
    Gathers hs c'.stack c'.log := by
  cases hturn with
  | quiet _ hstack hlog =>
    refine ⟨hlog ▸ h.sees, ?_⟩
    intro frame hframe
    rw [hlog]
    exact h.holds frame (hstack hframe)
  | call call frame behind rest hstack hstack' hlog hserves =>
    rw [hstack] at h hnodup
    rw [hstack', hlog]
    exact h.serve hserves hnodup
  | delegate call frame behind child rest hstack hstack' hlog hserves hmark htext =>
    have hother : call.handler.mark ≠ child.handler.mark := by
      rw [hserves.mark_call, hmark]
      exact (List.cons_ne_self _ _).symm
    have hnew : callsOf child.handler.mark (c.log ++ [call]) = [] := by
      rw [callsOf_concat_other hother, hmark]
      exact hfresh frame (by simp [hstack])
    rw [hstack] at h hnodup
    rw [hstack', hlog]
    exact (h.serve hserves hnodup).push hnew htext
  | handOver closed told frame last parent behind rest hstack hstack' hlog hclosed htold =>
    rw [hstack] at h hnodup
    have hpopped : Gathers hs (parent :: rest) (c.log ++ [closed]) := h.pop hclosed hnodup
    rw [List.map_cons, List.nodup_cons] at hnodup
    rw [hstack', hlog, List.append_cons]
    exact hpopped.serve htold hnodup.2
  | complete closed frame last hstack hstack' hlog hserves =>
    rw [hstack] at h hnodup
    rw [hstack', hlog]
    exact h.pop hserves hnodup

end Gathering

/-! ## Runs -/

section Runs

theorem sameButMarks_feed {hs : Handlers H N} (c : Chain (Marked H) Deed) (log : List N)
    (events : List Event) :
    SameButMarks ((Chain.receiver hs).feed (c.unmarked log) events)
      ((Chain.receiver hs.marked).feed c events) := by
  induction events generalizing c log with
  | nil => exact ⟨rfl, log, rfl⟩
  | cons event events ih =>
    have hstep : SameButMarks ((Chain.receiver hs).receive (c.unmarked log) event)
        ((Chain.receiver hs.marked).receive c event) := sameButMarks_receive c log event
    rw [Receiver.feed, Receiver.feed]
    generalize (Chain.receiver hs).receive (c.unmarked log) event = plain at *
    generalize (Chain.receiver hs.marked).receive c event = marked at *
    obtain ⟨answer, next⟩ := plain
    obtain ⟨answer', next'⟩ := marked
    obtain ⟨hanswer, log', hnext⟩ := hstep
    dsimp only at hanswer hnext
    subst hanswer hnext
    cases answer with
    | error e => exact ⟨rfl, log', rfl⟩
    | ok _ => exact ih next' log'

variable (hs : Handlers H N)

/-- A chain that notes its callbacks, beside the marked one that it comes from. -/
structure Follows (d : Chain (Marked H) Deed) (c : Chain (Marked H) (Call (Marked H))) :
    Prop where
  custody : d.Custody
  same : c = d.withLog c.log
  calls_placed : ∀ call ∈ c.log, call.handler.mark ∈ d.placed
  gathers : Gathers hs c.stack c.log

theorem Follows.ofRoot (root : H) :
    Follows hs (.ofRoot (Marked.root root)) (.ofRoot (Marked.root root)) := by
  refine ⟨.ofRoot root, rfl, nofun, ?_, ?_⟩
  · intro before call after heq
    simp [Chain.ofRoot] at heq
  · intro frame hframe
    rw [Chain.ofRoot, List.mem_singleton] at hframe
    subst hframe
    rfl

variable {hs} {d : Chain (Marked H) Deed} {c c' : Chain (Marked H) (Call (Marked H))}
  {events : List Event}

theorem Follows.stack (h : Follows hs d c) : c.stack = d.stack :=
  congrArg Chain.stack h.same

/-- No handler has the mark that the next child of a frame will have. -/
theorem Follows.fresh (h : Follows hs d c) {frame : Frame (Marked H)} (hframe : frame ∈ c.stack) :
    callsOf (frame.handler.children :: frame.handler.mark) c.log = [] := by
  rw [callsOf, List.filter_eq_nil_iff]
  intro call hcall hmark
  have hplaced := h.calls_placed call hcall
  rw [beq_iff_eq.mp hmark] at hplaced
  have hmem : (frame.handler.mark, frame.handler.children) ∈ d.marks := by
    rw [h.stack] at hframe
    exact List.mem_map_of_mem hframe
  exact Nat.lt_irrefl _ (h.custody.fresh _ hmem _ hplaced)

/-- **Step.** -/
theorem Follows.receive (h : Follows hs d c) {event : Event}
    (hc : c.receive hs.marked.traced event = (.ok (), c')) :
    ∃ d', d.receive hs.marked event = (.ok (), d') ∧ Follows hs d' c' := by
  have hsame : Chain.SameButLog (d.receive hs.marked event)
      ((d.withLog c.log).receive hs.marked.traced event) := Chain.sameButLog_receive c.log event
  obtain ⟨houtcome, log, hsame⟩ := hsame
  rw [← h.same, hc] at houtcome hsame
  dsimp only at houtcome hsame
  have hmove : Move d (d.receive hs.marked event).2 := move_receive event
  have hturn : Turn hs event.text? c c' := turn_receive hc
  have hnodup : (c.stack.map (·.handler.mark)).Nodup := h.stack ▸ h.custody.onStack_nodup
  refine ⟨(d.receive hs.marked event).2, Prod.ext houtcome rfl, h.custody.move hmove, ?_, ?_,
    h.gathers.turn hturn hnodup fun _ => h.fresh⟩
  · subst hsame
    rfl
  · obtain ⟨deeds, hdeeds, -⟩ := hmove.deeds
    obtain ⟨calls, hcalls, -, hstack⟩ := hturn.calls
    rw [hcalls, placed_append hdeeds]
    intro call hcall
    apply List.mem_append_left
    rcases List.mem_append.mp hcall with hold | hnew
    · exact h.calls_placed call hold
    · obtain ⟨frame, hframe, hmark⟩ := hstack call hnew
      rw [h.stack] at hframe
      rw [hmark]
      exact h.custody.mem_placed (List.mem_map_of_mem hframe)

/-- **Run.** -/
theorem Follows.feed (h : Follows hs d c)
    (hc : (Chain.receiver hs.marked.traced).feed c events = (.ok (), c')) :
    Follows hs ((Chain.receiver hs.marked).feed d events).2 c' ∧
      c'.log.filterMap Call.text? = c.log.filterMap Call.text? ++ events.filterMap Event.text? := by
  induction events generalizing d c with
  | nil =>
    cases hc
    exact ⟨h, (List.append_nil _).symm⟩
  | cons event events ih =>
    rw [Receiver.feed] at hc
    cases hstep : (Chain.receiver hs.marked.traced).receive c event with
    | mk answer next =>
      rw [hstep] at hc
      cases answer with
      | error e => cases hc
      | ok _ =>
        obtain ⟨d', hd, hnext⟩ := h.receive hstep
        have hd' : (Chain.receiver hs.marked).receive d event = (.ok (), d') := hd
        rw [Receiver.feed_cons_of_ok hd']
        obtain ⟨hlast, htexts⟩ := ih hnext hc
        refine ⟨hlast, ?_⟩
        obtain ⟨calls, hcalls, hsaid, -⟩ := (turn_receive hstep).calls
        rw [htexts, hcalls, List.filterMap_append, hsaid, List.append_assoc, List.filterMap_cons]
        cases event.text? <;> rfl

end Runs

/-- **Text.** In any run of any handlers that does not fail: at each callback other than that for an
element that opens, the handler sees all that was delivered to it, the text that has just arrived
included, since it last kept an element to itself or took the text, or else since it was put on the
chain. The same holds of what the handlers on the stack have at the end. Every handler has a mark of
its own, so nothing of what is delivered to another one is counted. -/
theorem Chain.shows_gathered (hs : Handlers H N) (root : H) (events : List Event)
    (h : ((receiver hs).feed (.ofRoot root) events).1 = .ok ()) :
    let run := (receiver hs).feed (.ofRoot root) events
    let marked := (receiver hs.marked).feed (.ofRoot (Marked.root root)) events
    let noted := (receiver hs.marked.traced).feed (.ofRoot (Marked.root root)) events
    (SameButMarks run marked ∧ SameButLog marked noted ∧ marked.2.Accounted) ∧
      noted.2.log.filterMap Call.text? = events.filterMap Event.text? ∧
      (∀ call ∈ noted.2.log, call.handler.mark ∈ marked.2.placed) ∧
      Sees hs noted.2.log ∧ ∀ frame ∈ noted.2.stack, Holds hs noted.2.log frame := by
  intro run marked noted
  have hmarked : SameButMarks run marked := sameButMarks_feed (.ofRoot (Marked.root root)) [] events
  have hnoted : SameButLog marked noted := feed_traced (.ofRoot (Marked.root root)) [] events
  have hc : noted = (.ok (), noted.2) := Prod.ext (hnoted.1 ▸ hmarked.1 ▸ h) rfl
  obtain ⟨hfollows, htexts⟩ := (Follows.ofRoot hs root).feed hc
  exact ⟨⟨hmarked, hnoted, hfollows.custody.toAccounted⟩, htexts, hfollows.calls_placed,
    hfollows.gathers.sees, hfollows.gathers.holds⟩

/-- In `<a>x<b>y<stop/>z</b>w</a>` the recorder of `b` retires at the end of `stop`. The recorder of
`a` has seen none of its text when `a` closes. -/
theorem Chain.shows_gathered_stop :
    let hs := Recorder.handlers.stoppingAt "stop"
    let root : Recorder := .fresh "a" (.names ["b"]) none
    let a : QualifiedName := .ofLocal "a"
    let b : QualifiedName := .ofLocal "b"
    let stop : QualifiedName := .ofLocal "stop"
    let events := Node.documentEvents a .empty
      [.text "x", .element b .empty [.text "y", .element stop .empty [], .text "z"], .text "w"]
    let log := ((receiver hs.marked.traced).feed (.ofRoot (Marked.root root)) events).2.log
    ((receiver hs).feed (.ofRoot root) events).1 = .ok () ∧
      ∃ calls call, log = calls ++ [call] ∧ call.isOpened = false ∧ call.handler.mark = [] ∧
        call.view.text = "xzw" := by
  intro hs root a b stop events log
  have hfeed : ((receiver hs).feed (.ofRoot root) events).1 = .ok () := rfl
  obtain ⟨-, -, -, hsees, -⟩ := shows_gathered hs root events hfeed
  have hlast : (log.getLast?.map fun call => (call.isOpened, call.handler.mark, call.text?)) =
      some (false, [], none) := by decide +kernel
  obtain ⟨call, hcall, hfacts⟩ := Option.map_eq_some_iff.mp hlast
  obtain ⟨hclosed, hmark, htext⟩ : call.isOpened = false ∧ call.handler.mark = [] ∧
      call.text? = none := by simpa using hfacts
  have hlog : log = log.dropLast ++ [call] := (List.dropLast_append_getLast? call hcall).symm
  have hgathered : hs.marked.gathered (callsOf [] log.dropLast) = "xzw" := by decide +kernel
  have hshown := hsees log.dropLast call [] hlog hclosed
  rw [hmark, hgathered, Call.arriving, htext, Option.getD_none, String.append_empty] at hshown
  exact ⟨hfeed, log.dropLast, call, hlog, hclosed, hmark, hshown⟩

end Scope

end ScopedXml
