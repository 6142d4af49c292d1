import Mathlib.Data.List.Chain
import Mathlib.Data.List.Nodup
import ScopedXml.Proofs.Scope.Trace

/-!
# Where the handlers of a chain are

Every handler that was ever put on a chain is in one place: on the stack, with the parent that was
told of its end, or, if it is the root, kept as completed. To tell handlers apart they are marked.
A mark is part of the handler's own state, so it goes wherever the chain takes the handler, and
nothing but the chain decides where that is.

* `Marked`, `Handlers.marked`: the same handlers with marks, noting what is done with them.
* `Move`: all that an event can do to marked handlers, whatever comes in whatever order and whether
  it fails or not (`move_receive`).
* `Chain.accounted`: behind any events, each handler is in its one place.
-/

namespace ScopedXml.Scope

variable {H N : Type}

/-! ## Marks -/

/-- A handler with its mark: its number among the children of its parent, before the mark of the
parent. The mark of the root is empty. -/
structure Marked (H : Type) where
  mark : List Nat
  /-- How many children it has delegated so far. -/
  children : Nat
  handler : H

/-- What a marked handler notes. -/
inductive Deed
  /-- It was called for an element or a text. -/
  | called (mark : List Nat)
  /-- It put a child on the chain. -/
  | delegated (mark child : List Nat)
  /-- It was told that a child has retired. -/
  | received (mark child : List Nat)
deriving DecidableEq

namespace Marked

def root (h : H) : Marked H := ⟨[], 0, h⟩

/-- The reply of a handler that stays marked as it was. -/
def reply (m : Marked H) (r : Reply H N) (deed : Deed) : Reply (Marked H) Deed :=
  ⟨{ m with handler := r.handler }, r.tookText, [deed], r.outcome⟩

def child (m : Marked H) (h : H) : Marked H := ⟨m.children :: m.mark, 0, h⟩

/-- The child that a reply puts on the chain: a failed one puts none. -/
def delegate (m : Marked H) (r : StartReply H N) : Option (Marked H) :=
  match r.outcome with
  | .ok () => r.child.map m.child
  | .error _ => none

def startReply (m : Marked H) (r : StartReply H N) : StartReply (Marked H) Deed :=
  match m.delegate r with
  | some c =>
    { handler := ⟨m.mark, m.children + 1, r.handler⟩, tookText := r.tookText,
      notes := [.called m.mark, .delegated m.mark c.mark], outcome := r.outcome, child := some c }
  | none =>
    { m.reply r.toReply (.called m.mark) with child := r.child.map m.child }

end Marked

def Handlers.marked (hs : Handlers H N) : Handlers (Marked H) Deed where
  typeName m := hs.typeName m.handler
  onStart m view name attributes := m.startReply (hs.onStart m.handler view name attributes)
  onText m view text := m.reply (hs.onText m.handler view text) (.called m.mark)
  onEnd m view name := m.reply (hs.onEnd m.handler view name) (.called m.mark)
  isLast m name position := ((hs.isLast m.handler name position).1, [.called m.mark])
  onChild m view child :=
    m.reply (hs.onChild m.handler view child.handler) (.received m.mark child.mark)

/-! ## Moves -/

/-- The marks on the stack, that of the active handler first, with the numbers of children. -/
def Chain.marks (c : Chain (Marked H) Deed) : List (List Nat × Nat) :=
  c.stack.map fun f => (f.handler.mark, f.handler.children)

/-- What an event can do to marked handlers. -/
inductive Move (c c' : Chain (Marked H) Deed) : Prop
  /-- The handlers stay where they are. At most the active one is called. -/
  | stay (calls : List Deed) :
    c'.marks = c.marks → c'.completed = c.completed → c'.log = c.log ++ calls →
    (∀ deed ∈ calls, ∃ top ∈ c.marks.head?, deed = .called top.1) → Move c c'
  /-- The active handler delegates a child. -/
  | delegate (m : List Nat) (n : Nat) (rest : List (List Nat × Nat)) :
    c.marks = (m, n) :: rest → c'.marks = (n :: m, 0) :: (m, n + 1) :: rest →
    c'.completed = c.completed →
    c'.log = c.log ++ [.called m, .delegated m (n :: m)] → Move c c'
  /-- The active handler retires, and the one below it is told. -/
  | handOver (m : List Nat) (n : Nat) (p : List Nat) (k : Nat) (rest : List (List Nat × Nat)) :
    c.marks = (m, n) :: (p, k) :: rest → c'.marks = (p, k) :: rest →
    c'.completed = c.completed →
    c'.log = c.log ++ [.called m, .called m, .received p m] → Move c c'
  /-- The last handler retires. -/
  | complete (m : List Nat) (n : Nat) (calls : List Deed) :
    c.marks = [(m, n)] → c'.marks = [] → c'.completed.map (·.mark) = some m →
    c'.log = c.log ++ calls → (∀ deed ∈ calls, deed = .called m) → Move c c'

section Moves

variable {hs : Handlers H N} {c : Chain (Marked H) Deed}

theorem Move.refl (c : Chain (Marked H) Deed) : Move c c :=
  .stay [] rfl rfl (List.append_nil _).symm (by simp)

theorem move_startElement (name : QualifiedName) (attributes : Attributes) :
    Move c (c.startElement hs.marked name attributes).2 := by
  obtain ⟨stack, completed, k, log⟩ := c
  cases stack with
  | nil => exact .stay [] rfl rfl (List.append_nil _).symm (by simp)
  | cons frame rest =>
    simp only [Chain.startElement, Handlers.marked, Marked.startReply, Marked.delegate]
    generalize hs.onStart _ _ _ _ = reply
    cases hout : reply.outcome with
    | error e =>
      refine .stay [.called frame.handler.mark] ?_ ?_ ?_ ?_ <;>
        simp [Marked.reply, hout, Chain.marks, Frame.after, Chain.note]
    | ok _ =>
      cases hchild : reply.child with
      | none =>
        refine .stay [.called frame.handler.mark] ?_ ?_ ?_ ?_ <;>
          simp [Marked.reply, hout, Chain.marks, Frame.after, Chain.note]
      | some child =>
        refine .delegate frame.handler.mark frame.handler.children
          (rest.map fun f => (f.handler.mark, f.handler.children)) ?_ ?_ ?_ ?_ <;>
          simp [Marked.child, Chain.marks, Frame.after, Chain.note, Frame.enter]

theorem move_characters (text : String) : Move c (c.characters hs.marked text).2 := by
  obtain ⟨stack, completed, k, log⟩ := c
  cases stack with
  | nil => exact .refl _
  | cons frame rest =>
    refine .stay [.called frame.handler.mark] ?_ rfl rfl ?_ <;>
      simp [Chain.marks, Chain.characters, Handlers.marked, Marked.reply, Frame.after, Chain.note]

theorem move_endElement (name : QualifiedName) : Move c (c.endElement hs.marked name).2 := by
  obtain ⟨stack, completed, k, log⟩ := c
  cases stack with
  | nil => exact .stay [] rfl rfl (List.append_nil _).symm (by simp)
  | cons frame rest =>
    let calls : List Deed := [.called frame.handler.mark, .called frame.handler.mark]
    have hasked : hs.marked.isLast frame.handler name ⟨frame.depth, k⟩ =
        ((hs.isLast frame.handler.handler name ⟨frame.depth, k⟩).1,
          [.called frame.handler.mark]) := rfl
    cases hlast : (hs.isLast frame.handler.handler name ⟨frame.depth, k⟩).1 with
    | false =>
      rw [hlast] at hasked
      rw [Chain.endElement_inside hasked]
      simp only [Handlers.marked, Marked.reply]
      generalize hs.onEnd _ _ _ = reply
      cases reply.outcome <;>
        refine .stay calls ?_ rfl ?_ ?_ <;> simp [Chain.marks, Frame.after, calls]
    | true =>
      rw [hlast] at hasked
      rw [Chain.endElement_last hasked]
      simp only [Handlers.marked, Marked.reply]
      generalize hs.onEnd _ _ _ = reply
      cases reply.outcome with
      | error e => refine .stay calls ?_ rfl ?_ ?_ <;> simp [Chain.marks, Frame.after, calls]
      | ok _ =>
        cases rest with
        | nil =>
          refine .complete frame.handler.mark frame.handler.children calls rfl rfl rfl ?_ ?_ <;>
            simp [Chain.retire, calls]
        | cons parent outer =>
          refine .handOver frame.handler.mark frame.handler.children parent.handler.mark
            parent.handler.children (outer.map fun f => (f.handler.mark, f.handler.children))
            rfl ?_ rfl ?_ <;>
            simp [Chain.retire, Chain.marks, Chain.note, Frame.after]

theorem move_endDocument : Move c (c.endDocument hs.marked).2 := by
  obtain ⟨stack, completed, k, log⟩ := c
  match stack with
  | [] => cases completed <;> exact .refl _
  | [frame] =>
    exact .complete frame.handler.mark frame.handler.children [] rfl rfl rfl
      (List.append_nil _).symm (by simp)
  | _ :: _ :: _ => exact .refl _

theorem move_receive (event : Event) : Move c (c.receive hs.marked event).2 := by
  cases event with
  | startDocument =>
    obtain ⟨stack, completed, k, log⟩ := c
    cases stack <;> exact .refl _
  | startElement name attributes => exact move_startElement name attributes
  | characters text => exact move_characters text
  | endElement name => exact move_endElement name
  | endDocument => exact move_endDocument

end Moves

/-! ## Places -/

namespace Deed

def mark : Deed → List Nat
  | called m => m
  | delegated m _ => m
  | received m _ => m

def placed? : Deed → Option (List Nat)
  | delegated _ child => some child
  | _ => none

def handedOver? : Deed → Option (List Nat)
  | received _ child => some child
  | _ => none

end Deed

namespace Chain

variable (c : Chain (Marked H) Deed)

/-- All handlers that were ever put on the chain: the root, and the delegated ones in their
order. -/
def placed : List (List Nat) := [] :: c.log.filterMap Deed.placed?

def onStack : List (List Nat) := c.stack.map (·.handler.mark)

/-- The handlers that a parent was told of, once for each time. -/
def handedOver : List (List Nat) := c.log.filterMap Deed.handedOver?

def kept : List (List Nat) := (c.completed.map (·.mark)).toList

def retired : List (List Nat) := c.handedOver ++ c.kept

/-- Each handler is in its one place. -/
structure Accounted : Prop where
  /-- No handler is put on the chain twice. -/
  nodup_placed : c.placed.Nodup
  /-- Nothing is lost and nothing is there twice. -/
  places : (c.onStack ++ c.handedOver ++ c.kept).Perm c.placed
  /-- A retired child goes to the handler that delegated it. -/
  delegated_of_received : ∀ p m, .received p m ∈ c.log → .delegated p m ∈ c.log
  kept_root : ∀ m ∈ c.kept, m = []
  isSome_completed_iff : c.completed.isSome = true ↔ c.stack = []
  bottom_root : ∀ m ∈ c.onStack.getLast?, m = []

/-- What makes the places persist. -/
structure Custody : Prop extends c.Accounted where
  /-- The next child of a handler on the stack gets a new mark. -/
  fresh : ∀ x ∈ c.marks, ∀ k, k :: x.1 ∈ c.placed → k < x.2
  parent_placed : ∀ k m, k :: m ∈ c.placed → m ∈ c.placed
  /-- Below each handler stands the one that delegated it. -/
  chained : c.marks.IsChain fun x y => .delegated y.1 x.1 ∈ c.log

end Chain

section Places

variable {c c' : Chain (Marked H) Deed}

theorem onStack_eq : c.onStack = c.marks.map (·.1) := by
  simp [Chain.onStack, Chain.marks]

theorem marks_eq_nil_iff : c.marks = [] ↔ c.stack = [] := List.map_eq_nil_iff

theorem Chain.Accounted.onStack_nodup (h : c.Accounted) : c.onStack.Nodup := by
  have hnodup := h.places.nodup_iff.mpr h.nodup_placed
  rw [List.append_assoc] at hnodup
  exact (List.nodup_append.mp hnodup).1

theorem Chain.Accounted.not_mem_retired (h : c.Accounted) {m : List Nat} (hm : m ∈ c.onStack) :
    m ∉ c.retired := by
  have hnodup := h.places.nodup_iff.mpr h.nodup_placed
  rw [List.append_assoc] at hnodup
  intro hretired
  exact (List.nodup_append.mp hnodup).2.2 m hm m hretired rfl

theorem Chain.Accounted.mem_placed (h : c.Accounted) {m : List Nat} (hm : m ∈ c.onStack) :
    m ∈ c.placed :=
  h.places.subset (List.mem_append_left _ (List.mem_append_left _ hm))

theorem Chain.Accounted.completed_eq_none (h : c.Accounted) (hmarks : c.marks ≠ []) :
    c.completed = none := by
  have hactive : ¬ c.completed.isSome = true := by
    rw [h.isSome_completed_iff, ← marks_eq_nil_iff]
    exact hmarks
  exact Option.not_isSome_iff_eq_none.mp hactive

/-- If a handler was on the stack and one still is, then again none is kept. -/
theorem Chain.Accounted.isSome_completed_iff_of_marks (h : c.Accounted) (hmarks : c.marks ≠ [])
    (hmarks' : c'.marks ≠ []) (hcompleted : c'.completed = c.completed) :
    c'.completed.isSome = true ↔ c'.stack = [] := by
  rw [hcompleted, h.completed_eq_none hmarks, ← marks_eq_nil_iff]
  simpa using hmarks'

theorem Chain.Custody.ofRoot (root : H) : (Chain.ofRoot (Marked.root root)).Custody where
  nodup_placed := by simp [Chain.placed, Chain.ofRoot]
  places := .refl _
  delegated_of_received := by simp [Chain.ofRoot]
  kept_root := by simp [Chain.kept, Chain.ofRoot]
  isSome_completed_iff := by simp [Chain.ofRoot]
  bottom_root := by simp [Chain.onStack, Chain.ofRoot, Frame.enter, Marked.root]
  fresh := by simp [Chain.placed, Chain.ofRoot]
  parent_placed := by simp [Chain.placed, Chain.ofRoot]
  chained := .singleton _

theorem placed_append {deeds : List Deed} (h : c'.log = c.log ++ deeds) :
    c'.placed = c.placed ++ deeds.filterMap Deed.placed? := by
  simp [Chain.placed, h]

theorem handedOver_append {deeds : List Deed} (h : c'.log = c.log ++ deeds) :
    c'.handedOver = c.handedOver ++ deeds.filterMap Deed.handedOver? := by
  simp [Chain.handedOver, h]

theorem filterMap_calls {calls : List Deed} (h : ∀ deed ∈ calls, ∃ m, deed = .called m) :
    calls.filterMap Deed.placed? = [] ∧ calls.filterMap Deed.handedOver? = [] := by
  constructor <;>
  · rw [List.filterMap_eq_nil_iff]
    intro deed hdeed
    obtain ⟨m, rfl⟩ := h deed hdeed
    rfl

theorem placed_of_calls {calls : List Deed} (hlog : c'.log = c.log ++ calls)
    (h : ∀ deed ∈ calls, ∃ m, deed = .called m) : c'.placed = c.placed := by
  rw [placed_append hlog, (filterMap_calls h).1, List.append_nil]

theorem handedOver_of_calls {calls : List Deed} (hlog : c'.log = c.log ++ calls)
    (h : ∀ deed ∈ calls, ∃ m, deed = .called m) : c'.handedOver = c.handedOver := by
  rw [handedOver_append hlog, (filterMap_calls h).2, List.append_nil]

theorem mem_log_of_calls {calls : List Deed} (hlog : c'.log = c.log ++ calls)
    (h : ∀ deed ∈ calls, ∃ m, deed = .called m) {p m : List Nat}
    (hdeed : .received p m ∈ c'.log) : .received p m ∈ c.log := by
  rw [hlog, List.mem_append] at hdeed
  rcases hdeed with hdeed | hdeed
  · exact hdeed
  · obtain ⟨_, hcalled⟩ := h _ hdeed
    cases hcalled

theorem isChain_mono {xs : List (List Nat × Nat)} {log deeds : List Deed}
    (h : xs.IsChain fun x y => .delegated y.1 x.1 ∈ log) :
    xs.IsChain fun x y => .delegated y.1 x.1 ∈ log ++ deeds :=
  h.imp fun _ _ hmem => List.mem_append_left _ hmem

namespace Chain.Custody

theorem stay (h : c.Custody) {calls : List Deed} (hmarks : c'.marks = c.marks)
    (hcompleted : c'.completed = c.completed) (hlog : c'.log = c.log ++ calls)
    (hcalls : ∀ deed ∈ calls, ∃ m, deed = .called m) : c'.Custody := by
  have hplaced := placed_of_calls hlog hcalls
  have hhanded := handedOver_of_calls hlog hcalls
  have hstack : c'.onStack = c.onStack := by rw [onStack_eq, onStack_eq, hmarks]
  have hkept : c'.kept = c.kept := by rw [kept, kept, hcompleted]
  refine ⟨⟨?_, ?_, ?_, ?_, ?_, ?_⟩, ?_, ?_, ?_⟩
  · rw [hplaced]
    exact h.nodup_placed
  · rw [hplaced, hstack, hhanded, hkept]
    exact h.places
  · intro p m hreceived
    rw [hlog]
    have hbefore := mem_log_of_calls hlog hcalls hreceived
    exact List.mem_append_left _ (h.delegated_of_received p m hbefore)
  · rw [hkept]
    exact h.kept_root
  · rw [hcompleted, h.isSome_completed_iff, ← marks_eq_nil_iff, ← marks_eq_nil_iff, hmarks]
  · rw [hstack]
    exact h.bottom_root
  · rw [hmarks, hplaced]
    exact h.fresh
  · rw [hplaced]
    exact h.parent_placed
  · rw [hmarks, hlog]
    exact isChain_mono h.chained

/-- A child that is delegated has a mark that no other handler had before. -/
theorem delegate (h : c.Custody) {m : List Nat} {n : Nat} {rest : List (List Nat × Nat)}
    (hmarks : c.marks = (m, n) :: rest) (hmarks' : c'.marks = (n :: m, 0) :: (m, n + 1) :: rest)
    (hcompleted : c'.completed = c.completed)
    (hlog : c'.log = c.log ++ [.called m, .delegated m (n :: m)]) : c'.Custody := by
  have hplaced : c'.placed = c.placed ++ [n :: m] := placed_append hlog
  have hhanded : c'.handedOver = c.handedOver := by
    rw [handedOver_append hlog]
    exact List.append_nil _
  have hstack : c.onStack = m :: rest.map (·.1) := by rw [onStack_eq, hmarks, List.map_cons]
  have hstack' : c'.onStack = (n :: m) :: c.onStack := by
    rw [onStack_eq, hmarks', hstack, List.map_cons, List.map_cons]
  have hkept : c'.kept = c.kept := by rw [kept, kept, hcompleted]
  have hm : m ∈ c.placed := h.mem_placed (by simp [hstack])
  have hnew : n :: m ∉ c.placed := by
    intro hmem
    have hlt := h.fresh (m, n) (by simp [hmarks]) n hmem
    exact Nat.lt_irrefl n hlt
  refine ⟨⟨?_, ?_, ?_, ?_, ?_, ?_⟩, ?_, ?_, ?_⟩
  · rw [hplaced]
    refine List.nodup_append.mpr ⟨h.nodup_placed, List.nodup_singleton _, ?_⟩
    rintro a ha b hb rfl
    exact hnew (List.mem_singleton.mp hb ▸ ha)
  · rw [hplaced, hstack', hhanded, hkept]
    exact (h.places.cons (n :: m)).trans (List.perm_append_singleton _ _).symm
  · intro p x hreceived
    rw [hlog] at hreceived ⊢
    have hold : .received p x ∈ c.log := by simpa using hreceived
    exact List.mem_append_left _ (h.delegated_of_received p x hold)
  · rw [hkept]
    exact h.kept_root
  · apply h.isSome_completed_iff_of_marks _ _ hcompleted
    · simp [hmarks]
    · simp [hmarks']
  · rw [hstack', hstack, List.getLast?_cons_cons, ← hstack]
    exact h.bottom_root
  · -- A mark below the child would need the child to be there already.
    have hchild : ∀ k, k :: n :: m ∉ c'.placed := by
      intro k hmem
      rw [hplaced, List.mem_append, List.mem_singleton] at hmem
      rcases hmem with hmem | heq
      · exact hnew (h.parent_placed k (n :: m) hmem)
      · have := congrArg List.length heq
        simp at this
    have hnodup := h.onStack_nodup
    rw [hstack, List.nodup_cons] at hnodup
    rw [hmarks']
    intro x hx k hmem
    rcases List.mem_cons.mp hx with rfl | hparent
    · exact absurd hmem (hchild k)
    rw [hplaced, List.mem_append, List.mem_singleton] at hmem
    rcases List.mem_cons.mp hparent with rfl | hpaused
    · rcases hmem with hmem | heq
      · have := h.fresh (m, n) (by simp [hmarks]) k hmem
        exact Nat.lt_succ_of_lt this
      · cases heq
        exact Nat.lt_succ_self _
    · rcases hmem with hmem | heq
      · exact h.fresh x (by simp [hmarks, hpaused]) k hmem
      · obtain ⟨-, hxm⟩ := List.cons.inj heq
        exact absurd (hxm ▸ List.mem_map_of_mem hpaused) hnodup.1
  · intro k x hmem
    rw [hplaced, List.mem_append, List.mem_singleton] at hmem ⊢
    rcases hmem with hmem | heq
    · exact Or.inl (h.parent_placed k x hmem)
    · obtain ⟨rfl, rfl⟩ := List.cons.inj heq
      exact Or.inl hm
  · have hchained := h.chained
    rw [hmarks, List.isChain_cons] at hchained
    rw [hmarks', hlog, List.isChain_cons_cons, List.isChain_cons]
    refine ⟨by simp, ?_, isChain_mono hchained.2⟩
    intro y hy
    exact List.mem_append_left _ (hchained.1 y hy)

/-- A child that retires goes from the stack to its parent. -/
theorem handOver (h : c.Custody) {m p : List Nat} {n k : Nat} {rest : List (List Nat × Nat)}
    (hmarks : c.marks = (m, n) :: (p, k) :: rest) (hmarks' : c'.marks = (p, k) :: rest)
    (hcompleted : c'.completed = c.completed)
    (hlog : c'.log = c.log ++ [.called m, .called m, .received p m]) : c'.Custody := by
  have hplaced : c'.placed = c.placed := by
    rw [placed_append hlog]
    exact List.append_nil _
  have hhanded : c'.handedOver = c.handedOver ++ [m] := handedOver_append hlog
  have hstack : c.onStack = m :: c'.onStack := by
    rw [onStack_eq, onStack_eq, hmarks, hmarks', List.map_cons]
  have hkept : c'.kept = c.kept := by rw [kept, kept, hcompleted]
  have hchained := h.chained
  rw [hmarks, List.isChain_cons_cons] at hchained
  have hne : c'.onStack ≠ [] := by simp [onStack_eq, hmarks']
  refine ⟨⟨?_, ?_, ?_, ?_, ?_, ?_⟩, ?_, ?_, ?_⟩
  · rw [hplaced]
    exact h.nodup_placed
  · -- The mark moves from the front of the stack to the end of those handed over.
    have hplaces := h.places
    rw [hstack] at hplaces
    rw [hplaced, hhanded, hkept]
    have hmiddle : c'.onStack ++ (c.handedOver ++ [m]) ++ c.kept =
        (c'.onStack ++ c.handedOver) ++ m :: c.kept := by simp
    rw [hmiddle]
    exact List.perm_middle.trans hplaces
  · intro q x hreceived
    rw [hlog] at hreceived ⊢
    apply List.mem_append_left
    rcases List.mem_append.mp hreceived with hold | hnew
    · exact h.delegated_of_received q x hold
    · obtain ⟨rfl, rfl⟩ : q = p ∧ x = m := by simpa using hnew
      exact hchained.1
  · rw [hkept]
    exact h.kept_root
  · apply h.isSome_completed_iff_of_marks _ _ hcompleted
    · simp [hmarks]
    · simp [hmarks']
  · have hbottom := h.bottom_root
    obtain ⟨top, others, hcons⟩ := List.exists_cons_of_ne_nil hne
    rw [hstack, hcons, List.getLast?_cons_cons, ← hcons] at hbottom
    exact hbottom
  · rw [hmarks', hplaced]
    intro x hx
    exact h.fresh x (by rw [hmarks]; exact List.mem_cons_of_mem _ hx)
  · rw [hplaced]
    exact h.parent_placed
  · rw [hmarks', hlog]
    exact isChain_mono hchained.2

/-- The last handler on the stack is the root, and it is kept. -/
theorem complete (h : c.Custody) {m : List Nat} {n : Nat} {calls : List Deed}
    (hmarks : c.marks = [(m, n)]) (hmarks' : c'.marks = [])
    (hcompleted : c'.completed.map (·.mark) = some m) (hlog : c'.log = c.log ++ calls)
    (hcalls : ∀ deed ∈ calls, ∃ m, deed = .called m) : c'.Custody := by
  have hplaced := placed_of_calls hlog hcalls
  have hhanded := handedOver_of_calls hlog hcalls
  have hstack : c.onStack = [m] := by rw [onStack_eq, hmarks, List.map_singleton]
  have hstack' : c'.onStack = [] := by rw [onStack_eq, hmarks', List.map_nil]
  have hkept : c.kept = [] := by
    rw [kept, h.completed_eq_none (by simp [hmarks])]
    rfl
  have hkept' : c'.kept = [m] := by rw [kept, hcompleted, Option.toList_some]
  have hroot : m = [] := h.bottom_root m (by simp [hstack])
  refine ⟨⟨?_, ?_, ?_, ?_, ?_, ?_⟩, ?_, ?_, ?_⟩
  · rw [hplaced]
    exact h.nodup_placed
  · have hplaces := h.places
    rw [hstack, hkept, List.append_nil] at hplaces
    rw [hplaced, hstack', hhanded, hkept', List.nil_append]
    exact (List.perm_append_singleton _ _).trans hplaces
  · intro p x hreceived
    rw [hlog]
    have hbefore := mem_log_of_calls hlog hcalls hreceived
    exact List.mem_append_left _ (h.delegated_of_received p x hbefore)
  · intro x hx
    rw [hkept', List.mem_singleton] at hx
    exact hx.trans hroot
  · rw [← marks_eq_nil_iff, hmarks']
    cases hc' : c'.completed with
    | none => simp [hc'] at hcompleted
    | some root => simp
  · simp [hstack']
  · simp [hmarks']
  · rw [hplaced]
    exact h.parent_placed
  · rw [hmarks']
    exact .nil

end Chain.Custody

theorem Chain.Custody.move (h : c.Custody) (hmove : Move c c') : c'.Custody := by
  cases hmove with
  | stay calls hmarks hcompleted hlog hcalls =>
    refine h.stay hmarks hcompleted hlog ?_
    intro deed hdeed
    obtain ⟨top, -, hcalled⟩ := hcalls deed hdeed
    exact ⟨top.1, hcalled⟩
  | delegate m n rest hmarks hmarks' hcompleted hlog =>
    exact h.delegate hmarks hmarks' hcompleted hlog
  | handOver m n p k rest hmarks hmarks' hcompleted hlog =>
    exact h.handOver hmarks hmarks' hcompleted hlog
  | complete m n calls hmarks hmarks' hcompleted hlog hcalls =>
    exact h.complete hmarks hmarks' hcompleted hlog fun deed hdeed => ⟨m, hcalls deed hdeed⟩

theorem Move.deeds (h : Move c c') :
    ∃ deeds, c'.log = c.log ++ deeds ∧ ∀ deed ∈ deeds, deed.mark ∈ c.onStack := by
  cases h with
  | stay calls hmarks hcompleted hlog hcalls =>
    refine ⟨calls, hlog, ?_⟩
    intro deed hdeed
    obtain ⟨top, htop, rfl⟩ := hcalls deed hdeed
    rw [onStack_eq]
    exact List.mem_map_of_mem (List.mem_of_mem_head? htop)
  | delegate m n rest hmarks hmarks' hcompleted hlog =>
    refine ⟨_, hlog, ?_⟩
    simp [onStack_eq, hmarks, Deed.mark]
  | handOver m n p k rest hmarks hmarks' hcompleted hlog =>
    refine ⟨_, hlog, ?_⟩
    simp [onStack_eq, hmarks, Deed.mark]
  | complete m n calls hmarks hmarks' hcompleted hlog hcalls =>
    refine ⟨calls, hlog, ?_⟩
    intro deed hdeed
    rw [hcalls deed hdeed]
    simp [onStack_eq, hmarks, Deed.mark]

theorem Move.retired_subset (h : c.Custody) (hmove : Move c c') : c.retired ⊆ c'.retired := by
  obtain ⟨deeds, hlog, -⟩ := hmove.deeds
  have hkept : c.kept ⊆ c'.kept := by
    cases hmove with
    | stay _ _ hcompleted => simp [Chain.kept, hcompleted]
    | delegate _ _ _ _ _ hcompleted => simp [Chain.kept, hcompleted]
    | handOver _ _ _ _ _ _ _ hcompleted => simp [Chain.kept, hcompleted]
    | complete m n calls hmarks =>
      have hnone : c.completed = none := h.completed_eq_none (by simp [hmarks])
      simp [Chain.kept, hnone]
  rw [Chain.retired, Chain.retired, handedOver_append hlog]
  intro m hm
  rcases List.mem_append.mp hm with hm | hm
  · exact List.mem_append_left _ (List.mem_append_left _ hm)
  · exact List.mem_append_right _ (hkept hm)

end Places

/-! ## Runs -/

/-- A chain behind some events, with its answers, going on whatever they are. -/
def Chain.receiveAll (hs : Handlers H N) (c : Chain H N) :
    List Event → List (Except ReadFailure Unit) × Chain H N
  | [] => ([], c)
  | event :: events =>
    let (answer, next) := c.receive hs event
    let (answers, last) := next.receiveAll hs events
    (answer :: answers, last)

section Runs

variable {hs : Handlers H N}

theorem Chain.Custody.receiveAll {c : Chain (Marked H) Deed} (h : c.Custody)
    (events : List Event) : (c.receiveAll hs.marked events).2.Custody := by
  induction events generalizing c with
  | nil => exact h
  | cons event events ih => exact ih (h.move (move_receive event))

/-- Nothing that comes later is done by a handler that has retired. -/
theorem Chain.Custody.deeds {c : Chain (Marked H) Deed} (h : c.Custody) (events : List Event) :
    ∃ deeds, (c.receiveAll hs.marked events).2.log = c.log ++ deeds ∧
      ∀ deed ∈ deeds, deed.mark ∉ c.retired := by
  induction events generalizing c with
  | nil => exact ⟨[], (List.append_nil _).symm, by simp⟩
  | cons event events ih =>
    have hmove : Move c (c.receive hs.marked event).2 := move_receive event
    obtain ⟨deeds, hlog, hdeeds⟩ := hmove.deeds
    obtain ⟨later, hlater, hquiet⟩ := ih (h.move hmove)
    refine ⟨deeds ++ later, ?_, ?_⟩
    · rw [← List.append_assoc, ← hlog, ← hlater]
      rfl
    · intro deed hdeed
      rcases List.mem_append.mp hdeed with hdeed | hdeed
      · exact h.not_mem_retired (hdeeds deed hdeed)
      · exact fun hretired => hquiet deed hdeed (hmove.retired_subset h hretired)

/-! ## Marks change nothing else -/

def Frame.unmarked (f : Frame (Marked H)) : Frame H :=
  ⟨f.handler.handler, f.text, f.attributes, f.depth⟩

/-- The chain without marks, with another log. -/
def Chain.unmarked (c : Chain (Marked H) Deed) (log : List N) : Chain H N :=
  ⟨c.stack.map Frame.unmarked, c.completed.map (·.handler), c.documentDepth, log⟩

/-- The answers are equal, and so are the chains but for their marks and logs. -/
def SameButMarks {A : Type} (x : A × Chain H N) (y : A × Chain (Marked H) Deed) : Prop :=
  x.1 = y.1 ∧ ∃ log, x.2 = y.2.unmarked log

variable (c : Chain (Marked H) Deed) (log : List N)

theorem sameButMarks_startElement (name : QualifiedName) (attributes : Attributes) :
    SameButMarks ((c.unmarked log).startElement hs name attributes)
      (c.startElement hs.marked name attributes) := by
  obtain ⟨stack, completed, k, notes⟩ := c
  cases stack with
  | nil => exact ⟨rfl, log, rfl⟩
  | cons frame rest =>
    simp only [Chain.startElement, Chain.unmarked, List.map_cons, Frame.unmarked, Handlers.marked,
      Marked.startReply, Marked.delegate, Frame.view]
    generalize hs.onStart _ _ _ _ = reply
    cases hout : reply.outcome with
    | error e =>
      simp only [Marked.reply, hout]
      exact ⟨rfl, _, rfl⟩
    | ok _ =>
      cases hchild : reply.child with
      | none =>
        simp only [Marked.reply, hout, Option.map_none]
        exact ⟨rfl, _, rfl⟩
      | some child =>
        simp only [Option.map_some]
        exact ⟨rfl, _, rfl⟩

theorem sameButMarks_endElement (name : QualifiedName) :
    SameButMarks ((c.unmarked log).endElement hs name) (c.endElement hs.marked name) := by
  obtain ⟨stack, completed, k, notes⟩ := c
  cases stack with
  | nil => exact ⟨rfl, log, rfl⟩
  | cons frame rest =>
    cases hlast : hs.isLast frame.handler.handler name ⟨frame.depth, k⟩ with
    | mk last asked =>
      have hplain : hs.isLast frame.unmarked.handler name ⟨frame.unmarked.depth, k⟩ =
          (last, asked) := hlast
      have hmarked : hs.marked.isLast frame.handler name ⟨frame.depth, k⟩ =
          (last, [.called frame.handler.mark]) := by
        simp only [Handlers.marked, hlast]
      cases last with
      | false =>
        rw [Chain.unmarked, List.map_cons, Chain.endElement_inside hplain,
          Chain.endElement_inside hmarked]
        simp only [Handlers.marked, Marked.reply, Frame.unmarked, Frame.view]
        generalize hs.onEnd _ _ _ = reply
        cases reply.outcome <;> exact ⟨rfl, _, rfl⟩
      | true =>
        rw [Chain.unmarked, List.map_cons, Chain.endElement_last hplain,
          Chain.endElement_last hmarked]
        simp only [Handlers.marked, Marked.reply, Frame.unmarked, Frame.view]
        generalize hs.onEnd _ _ _ = reply
        cases reply.outcome with
        | error e => exact ⟨rfl, _, rfl⟩
        | ok _ => cases rest <;> exact ⟨rfl, _, rfl⟩

theorem sameButMarks_receive (event : Event) :
    SameButMarks ((c.unmarked log).receive hs event) (c.receive hs.marked event) := by
  cases event with
  | startDocument =>
    obtain ⟨stack, completed, k, notes⟩ := c
    cases stack <;> exact ⟨rfl, _, rfl⟩
  | startElement name attributes => exact sameButMarks_startElement c log name attributes
  | characters text =>
    obtain ⟨stack, completed, k, notes⟩ := c
    cases stack <;> exact ⟨rfl, _, rfl⟩
  | endElement name => exact sameButMarks_endElement c log name
  | endDocument =>
    obtain ⟨stack, completed, k, notes⟩ := c
    match stack with
    | [] => cases completed <;> exact ⟨rfl, log, rfl⟩
    | [_] => exact ⟨rfl, log, rfl⟩
    | _ :: _ :: rest =>
      refine ⟨?_, log, rfl⟩
      simp [Chain.unmarked, Chain.receive, Chain.endDocument, Handlers.marked, Frame.unmarked]

theorem sameButMarks_receiveAll (events : List Event) :
    SameButMarks ((c.unmarked log).receiveAll hs events) (c.receiveAll hs.marked events) := by
  induction events generalizing c log with
  | nil => exact ⟨rfl, log, rfl⟩
  | cons event events ih =>
    have hreceived : SameButMarks ((c.unmarked log).receive hs event) (c.receive hs.marked event) :=
      sameButMarks_receive c log event
    obtain ⟨hanswer, log', hnext⟩ := hreceived
    obtain ⟨hanswers, log'', hlast⟩ := ih (c.receive hs.marked event).2 log'
    refine ⟨?_, log'', ?_⟩
    · simp only [Chain.receiveAll, hanswer, hnext, hanswers]
    · simp only [Chain.receiveAll, hnext, hlast]

end Runs

/-- **Custody.** Whatever handlers there are, whatever events come in whatever order, and going on
after failures: each handler that was ever put on the chain is in its one place, and one that has
retired never does anything again. The marked chain is the given one but for the marks. -/
theorem Chain.accounted (hs : Handlers H N) (root : H) (events more : List Event) :
    let run := (ofRoot root : Chain H N).receiveAll hs events
    let marked := (ofRoot (Marked.root root)).receiveAll hs.marked events
    SameButMarks run marked ∧ marked.2.Accounted ∧
      ∃ deeds, (marked.2.receiveAll hs.marked more).2.log = marked.2.log ++ deeds ∧
        ∀ deed ∈ deeds, deed.mark ∉ marked.2.retired := by
  intro run marked
  have hcustody : marked.2.Custody := (Custody.ofRoot root).receiveAll events
  have hsame : SameButMarks run marked :=
    sameButMarks_receiveAll (.ofRoot (Marked.root root)) [] events
  exact ⟨hsame, hcustody.toAccounted, hcustody.deeds more⟩

end ScopedXml.Scope
