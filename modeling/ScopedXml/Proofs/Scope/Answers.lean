import ScopedXml.Proofs.Scope.Simulation

/-!
# What a descent owes to its calls

A descent fails with the answer of its last call, and nothing else makes it fail. A handler at work
changes only by its own replies, so it stays within any kind of handlers that its replies stay
within.

* `Call.outcome`: how a call was answered.
* `Descent.Meets`: what holds of a program's result, or else its last call failed.
* `Chain.feed_raised`, `Chain.feed_of_descend`, `Chain.exists_descend`: the same of a chain that is
  fed with a document.
-/

namespace ScopedXml.Scope

variable {H N : Type}

/-- The answer that was given to a call. -/
def Call.outcome (hs : Handlers H N) : Call H → Except ReadFailure Unit
  | opened h view name attributes => (hs.onStart h view name attributes).outcome
  | text h view s => (hs.onText h view s).outcome
  | closed h view name => (hs.onEnd h view name).outcome
  | completed h view child => (hs.onChild h view child).outcome

/-- No reply of a handler of this kind leads to a handler of another kind. -/
structure Handlers.StaysWithin (hs : Handlers H N) (kind : H → Bool) : Prop where
  onStart : ∀ h view name attributes, kind h →
    kind (hs.onStart h view name attributes).handler
  onText : ∀ h view s, kind h → kind (hs.onText h view s).handler
  onEnd : ∀ h view name, kind h → kind (hs.onEnd h view name).handler
  onChild : ∀ h view child, kind h → kind (hs.onChild h view child).handler

/-! ## Programs in sequence -/

section Inversion

variable {α β : Type} {x : Descent H α} {f : α → Descent H β} {calls calls' : List (Call H)}
  {e : ReadFailure}

theorem Descent.bind_eq_ok {b : β} (h : (x >>= f) calls = .ok b calls') :
    ∃ a between, x calls = .ok a between ∧ f a between = .ok b calls' := by
  rw [bind_apply] at h
  cases hfirst : x calls with
  | ok a between =>
    rw [hfirst] at h
    exact ⟨a, between, rfl, h⟩
  | error e between =>
    rw [hfirst] at h
    cases h

theorem Descent.bind_eq_error (h : (x >>= f) calls = .error e calls') :
    x calls = .error e calls' ∨
      ∃ a between, x calls = .ok a between ∧ f a between = .error e calls' := by
  rw [bind_apply] at h
  cases hfirst : x calls with
  | ok a between =>
    rw [hfirst] at h
    exact .inr ⟨a, between, rfl, h⟩
  | error e' between =>
    rw [hfirst] at h
    cases h
    exact .inl rfl

theorem Running.call_eq_ok {r r' : Running H} {c : Call H} {reply : Reply H N}
    (h : r.call c reply calls = .ok r' calls') : r' = r.after reply := by
  rw [call_eq] at h
  split at h
  · cases h
    rfl
  · cases h

theorem Running.call_eq_error {r : Running H} {c : Call H} {reply : Reply H N}
    (h : r.call c reply calls = .error e calls') : c ∈ calls' ∧ reply.outcome = .error e := by
  rw [call_eq] at h
  split at h
  · cases h
  · next hreply =>
    cases h
    exact ⟨by simp, hreply⟩

end Inversion

theorem Handlers.staysWithin_all (hs : Handlers H N) : hs.StaysWithin fun _ => true :=
  ⟨fun _ _ _ _ _ => rfl, fun _ _ _ _ => rfl, fun _ _ _ _ => rfl, fun _ _ _ _ => rfl⟩

/-- A program whose results satisfy `good`, and that fails only as one of its calls is answered. -/
structure Descent.Meets {α : Type} (hs : Handlers H N) (good : α → Prop) (x : Descent H α) :
    Prop where
  result : ∀ {calls a calls'}, x calls = .ok a calls' → good a
  failure : ∀ {calls e calls'}, x calls = .error e calls' →
    ∃ call ∈ calls', call.outcome hs = .error e

namespace Descent.Meets

variable {α β : Type} {hs : Handlers H N} {good : α → Prop}

theorem pure {a : α} (h : good a) : Meets hs good (return a) where
  result hresult := by
    cases hresult
    exact h
  failure hresult := by cases hresult

theorem bind {after : β → Prop} {x : Descent H α} {f : α → Descent H β} (hx : Meets hs good x)
    (hf : ∀ a, good a → Meets hs after (f a)) : Meets hs after (x >>= f) where
  result hresult := by
    obtain ⟨a, between, hfirst, hrest⟩ := bind_eq_ok hresult
    exact (hf a (hx.result hfirst)).result hrest
  failure hresult := by
    rcases bind_eq_error hresult with hfirst | ⟨a, between, hfirst, hrest⟩
    · exact hx.failure hfirst
    · exact (hf a (hx.result hfirst)).failure hrest

theorem call {r : Running H} {c : Call H} {reply : Reply H N} {good : Running H → Prop}
    (houtcome : c.outcome hs = reply.outcome) (h : good (r.after reply)) :
    Meets hs good (r.call c reply) where
  result hresult := by
    rw [Running.call_eq_ok hresult]
    exact h
  failure hresult := by
    obtain ⟨hmem, herror⟩ := Running.call_eq_error hresult
    exact ⟨c, hmem, houtcome.trans herror⟩

theorem mono {after : α → Prop} {x : Descent H α} (hx : Meets hs good x)
    (h : ∀ a, good a → after a) : Meets hs after x :=
  ⟨fun hresult => h _ (hx.result hresult), hx.failure⟩

end Descent.Meets

/-! ## Handlers at work -/

section Running

open Descent (Meets)

variable {hs : Handlers H N} {kind : H → Bool}

/-- The handler is of the kind if the first one was. -/
def Running.Follows (kind : H → Bool) (r r' : Running H) : Prop :=
  kind r.handler → kind r'.handler

mutual

theorem Running.node_meets (hkind : hs.StaysWithin kind) (d k : Nat) (r : Running H) : (n : Node) →
    Meets hs (r.Follows kind) (r.node hs d k n)
  | .text s => by
    rw [Running.node]
    exact .call rfl (hkind.onText _ _ _)
  | .element name attributes content => by
    rw [Running.node]
    have hstart : Meets hs (fun opened : Running H × Option H => r.Follows kind opened.1)
        (r.start hs (d + 1) (k + 1) name attributes) :=
      Meets.bind (.call rfl (hkind.onStart _ _ _ _)) fun opened hopened => .pure hopened
    refine hstart.bind ?_
    rintro ⟨opened, child⟩ hopened
    cases child with
    | none =>
      have hcontent := Running.nodes_meets hkind (d + 1) (k + 1) opened content
      refine hcontent.bind fun inside hinside => ?_
      exact .call rfl fun hr => hkind.onEnd _ _ _ (hinside (hopened hr))
    | some child =>
      have hcontent := Running.nodes_meets hkind 1 (k + 1) (.fresh child) content
      refine hcontent.bind fun inside _ => ?_
      have hclose : Meets hs (fun _ => True) (inside.close hs 1 (k + 1) name) := .call rfl trivial
      refine hclose.bind fun closed _ => ?_
      exact .call rfl fun hr => hkind.onChild _ _ _ (hopened hr)

theorem Running.nodes_meets (hkind : hs.StaysWithin kind) (d k : Nat) (r : Running H) :
    (ns : List Node) → Meets hs (r.Follows kind) (r.nodes hs d k ns)
  | [] => by
    rw [Running.nodes]
    exact .pure id
  | n :: rest => by
    rw [Running.nodes]
    refine (Running.node_meets hkind d k r n).bind fun r' hr' => ?_
    exact (Running.nodes_meets hkind d k r' rest).mono fun r'' hr'' hr => hr'' (hr' hr)

end

theorem descend_meets (hkind : hs.StaysWithin kind) (root : H) (name : QualifiedName)
    (attributes : Attributes) (content : List Node) :
    Meets hs (fun last => kind root → kind last) (do
      let r ← (Running.fresh root).node hs 0 0 (.element name attributes content)
      return r.handler : Descent H H) :=
  (Running.node_meets hkind 0 0 (.fresh root) _).bind fun _ hr => .pure hr

end Running

/-! ## Chains -/

namespace Chain

variable {hs : Handlers H N}

theorem feed_fails_within {C : Type} {receiver : Receiver C} {c c' : C} {events all : List Event}
    {e : ReadFailure} (hbegin : events <+: all) (h : receiver.feed c events = (.error e, c')) :
    receiver.feed c all = (.error e, c') := by
  obtain ⟨rest, rfl⟩ := hbegin
  rw [Receiver.feed_append, h]

/-- A chain that fails within a document fails as one of its handlers said. -/
theorem feed_raised (hk : hs.KeepsBoundary) {root : H} {name : QualifiedName}
    {attributes : Attributes} {content : List Node} {events : List Event} {e : ReadFailure}
    (hbegin : events <+: Node.documentEvents name attributes content)
    (h : ((receiver hs.traced).feed (.ofRoot root) events).1 = .error e) :
    ∃ call ∈ ((receiver hs.traced).feed (.ofRoot root) events).2.log,
      call.outcome hs = .error e := by
  have hagrees := agrees_document hk root name attributes content
  generalize hfed : (receiver hs.traced).feed (.ofRoot root) events = fed at h
  obtain ⟨answer, c⟩ := fed
  obtain rfl : answer = .error e := h
  rw [feed_fails_within hbegin hfed] at hagrees
  cases hresult : descend hs root name attributes content with
  | ok last calls =>
    rw [hresult] at hagrees
    cases hagrees
  | error e' calls =>
    rw [hresult] at hagrees
    obtain ⟨herror, -, hlog⟩ := hagrees
    obtain rfl := Except.error.inj herror
    rw [hlog]
    exact (descend_meets hs.staysWithin_all root name attributes content).failure hresult

/-- A chain ends a document as the descent does, with its result as the root. -/
theorem feed_of_descend (hk : hs.KeepsBoundary) {root last : H} {name : QualifiedName}
    {attributes : Attributes} {content : List Node} {calls : List (Call H)}
    (h : descend hs root name attributes content = .ok last calls) :
    let fed := (receiver hs).feed (.ofRoot root) (Node.documentEvents name attributes content)
    fed.1 = .ok () ∧ fed.2.completed = some last := by
  intro fed
  have hagrees := agrees_document hk root name attributes content
  obtain ⟨houtcome, log, hchain⟩ : SameButLog fed ((receiver hs.traced).feed (.ofRoot root)
      (Node.documentEvents name attributes content)) := feed_traced (.ofRoot root) [] _
  rw [h] at hagrees
  have htraced : (receiver hs.traced).feed (.ofRoot root)
      (Node.documentEvents name attributes content) = (.ok (), ⟨[], some last, 0, calls⟩) := hagrees
  rw [htraced] at houtcome hchain
  exact ⟨houtcome, congrArg Chain.completed hchain.symm⟩

theorem exists_descend (hk : hs.KeepsBoundary) {root : H} {name : QualifiedName}
    {attributes : Attributes} {content : List Node}
    (h : ((receiver hs).feed (.ofRoot root) (Node.documentEvents name attributes content)).1 =
      .ok ()) :
    ∃ last calls, descend hs root name attributes content = .ok last calls := by
  have hagrees := agrees_document hk root name attributes content
  have htraced : SameButLog
      ((receiver hs).feed (.ofRoot root) (Node.documentEvents name attributes content))
      ((receiver hs.traced).feed (.ofRoot root) (Node.documentEvents name attributes content)) :=
    feed_traced (.ofRoot root) [] _
  cases hresult : descend hs root name attributes content with
  | ok last calls => exact ⟨last, calls, rfl⟩
  | error e calls =>
    rw [hresult] at hagrees
    have herror := htraced.1.trans hagrees.1
    rw [h] at herror
    cases herror

end Chain

end ScopedXml.Scope
