import ScopedXml.Proofs.Scope.Answers
import ScopedXml.Proofs.Scope.Records
import ScopedXml.Scope.MediaCatalog

/-!
# Descriptors hold copies

The handlers of a catalogue take any document. Of each `item` they make an object, with a descriptor
for each `desc` in it, and a descriptor holds a copy of every element that stands directly in its
`desc`. What is copied may itself look like a catalogue: the root of a copy is known by its depth,
not by its name.

* `Node.copies`: the copies of the elements in some content.
* `Describes`, `Lists`: a descriptor and an object say of their elements what they should.
* `Descent.Leaves`: a program that succeeds, with one rule for each way in which a node is taken.
* `Collector`: a handler that gives elements to children and collects what they become.
* `CatalogHandler.fragment_nodes`: a copy follows the content that it is made of.
* `CatalogHandler.catalogs_document`: a whole document.
-/

namespace ScopedXml

namespace Node

open Scope (Fragment)

mutual

def copiesAt : Node → List Fragment
  | text _ => []
  | element name attributes content => [⟨name, attributes, directText content, copies content⟩]

/-- The copies of the elements in some content, each with its name, its attributes, the text that
stands directly in it, and the copies of the elements in it. -/
def copies : List Node → List Fragment
  | [] => []
  | node :: rest => copiesAt node ++ copies rest

end

end Node

namespace Scope

variable {H N : Type}

open Node (directText copies copiesAt)

/-! ## What a catalogue should say -/

/-- The descriptor says of the `desc` what it should. -/
inductive Describes : Node → Descriptor → Prop
  | desc {name : QualifiedName} {attributes : Attributes} {content : List Node} :
    Describes (.element name attributes content)
      ⟨(attributes.get? "id").getD "", attributes.get? "type", attributes.get? "nameSpace",
        { Fragment.wrapper with children := copies content }⟩

/-- The object is that of the `item`, and has the descriptors of the `desc` elements in it that do
not lie within another one, in document order. -/
inductive Lists : Node → MediaObject → Prop
  | item {name : QualifiedName} {attributes : Attributes} {content : List Node}
    {object : MediaObject} :
    object.id = (attributes.get? "id").getD "" → object.parentId = attributes.get? "parentID" →
    List.Forall₂ Describes ((Delegation.names ["desc"]).nearest content) object.descriptors →
    Lists (.element name attributes content) object

namespace CatalogHandler

/-- There is an element of the copy that text and elements can go to. -/
def Intact : CatalogHandler → Prop
  | fragment openElements => openElements ≠ []
  | _ => True

/-- Of a copy only its root is left open. -/
def Whole : CatalogHandler → Prop
  | fragment openElements => ∃ root, openElements = [root]
  | _ => True

end CatalogHandler

/-- The child that a handler is told of. -/
def Call.child? : Call H → Option H
  | completed _ _ child => some child
  | _ => none

/-- No copy is out of elements at this callback, and one that its parent is told of is whole. -/
structure Call.Smooth (call : Call CatalogHandler) : Prop where
  intact : call.handler.Intact
  whole : ∀ child ∈ call.child?, child.Whole

theorem Call.Smooth.childless {call : Call CatalogHandler} (hintact : call.handler.Intact)
    (hchild : call.child? = none) : call.Smooth := by
  refine ⟨hintact, ?_⟩
  rw [hchild]
  simp

theorem Call.Smooth.told {h child : CatalogHandler} {view : View} (hintact : h.Intact)
    (hwhole : child.Whole) : (Call.completed h view child).Smooth :=
  ⟨hintact, fun _ hmem => Option.mem_some.mp hmem ▸ hwhole⟩

/-! ## Programs that succeed -/

/-- The reply that is given to a call. -/
def Call.reply (hs : Handlers H N) : Call H → Reply H N
  | opened h view name attributes => (hs.onStart h view name attributes).toReply
  | text h view s => hs.onText h view s
  | closed h view name => hs.onEnd h view name
  | completed h view child => hs.onChild h view child

/-- A call that is safe and succeeds, with a good handler behind it. -/
structure Call.Goes (hs : Handlers H N) (safe : Call H → Prop) (good : H → Prop) (call : Call H) :
    Prop where
  outcome : call.outcome hs = .ok ()
  safe : safe call
  handler : good (call.reply hs).handler

/-- A program that succeeds with a good result, making nothing but safe calls that succeed, whatever
calls were made before. -/
def Descent.Succeeds {α : Type} (hs : Handlers H N) (safe : Call H → Prop) (good : α → Prop)
    (x : Descent H α) : Prop :=
  ∀ calls, ∃ a made, x calls = .ok a (calls ++ made) ∧ good a ∧
    ∀ call ∈ made, call.outcome hs = .ok () ∧ safe call

/-- The same of a program that leaves a handler at work. -/
def Descent.Leaves (hs : Handlers H N) (safe : Call H → Prop) (good : H → Prop)
    (x : Descent H (Running H)) : Prop :=
  x.Succeeds hs safe fun r => good r.handler

section Programs

variable {hs : Handlers H N} {safe : Call H → Prop} {good : H → Prop}

namespace Descent

theorem Succeeds.pure {α : Type} {good : α → Prop} {a : α} (h : good a) :
    Succeeds hs safe good (return a) :=
  fun calls => ⟨a, [], congrArg _ (List.append_nil calls).symm, h, by simp⟩

theorem Succeeds.bind {α β : Type} {good : α → Prop} {after : β → Prop} {x : Descent H α}
    {f : α → Descent H β} (hx : Succeeds hs safe good x)
    (hf : ∀ a, good a → Succeeds hs safe after (f a)) : Succeeds hs safe after (x >>= f) := by
  intro calls
  obtain ⟨a, made, hfirst, ha, hmade⟩ := hx calls
  obtain ⟨b, more, hrest, hb, hmore⟩ := hf a ha (calls ++ made)
  refine ⟨b, made ++ more, ?_, hb, List.forall_mem_append.mpr ⟨hmade, hmore⟩⟩
  rw [bind_apply, hfirst, ← List.append_assoc]
  exact hrest

namespace Leaves

variable {x : Descent H (Running H)} {f : Running H → Descent H (Running H)} {after : H → Prop}

theorem pure {r : Running H} (h : good r.handler) : Leaves hs safe good (return r) :=
  Succeeds.pure h

theorem bind (hx : Leaves hs safe good x)
    (hf : ∀ r : Running H, good r.handler → Leaves hs safe after (f r)) :
    Leaves hs safe after (x >>= f) :=
  Succeeds.bind hx hf

theorem mono (hx : Leaves hs safe good x) (h : ∀ handler, good handler → after handler) :
    Leaves hs safe after x := by
  intro calls
  obtain ⟨r, made, hresult, hr, hmade⟩ := hx calls
  exact ⟨r, made, hresult, h r.handler hr, hmade⟩

theorem call {r : Running H} {c : Call H} {reply : Reply H N} (hreply : c.reply hs = reply)
    (hgoes : c.Goes hs safe good) : Leaves hs safe good (r.call c reply) := by
  subst hreply
  have houtcome : (c.reply hs).outcome = .ok () := by
    rw [← hgoes.outcome]
    cases c <;> rfl
  intro calls
  refine ⟨r.after (c.reply hs), [c], ?_, hgoes.handler, ?_⟩
  · rw [Running.call_eq, houtcome]
  · simpa using ⟨hgoes.outcome, hgoes.safe⟩

end Leaves

end Descent

open Descent (Succeeds Leaves)

variable {d k : Nat} {r : Running H} {name : QualifiedName} {attributes : Attributes}
  {content : List Node}

theorem Running.leaves_start {opened : H → Prop} {child : Option H}
    (h : ∀ view, view.position.depth = d →
      (Call.opened r.handler view name attributes).Goes hs safe opened ∧
        (hs.onStart r.handler view name attributes).child = child) :
    Succeeds hs safe (fun o => opened o.1.handler ∧ o.2 = child)
      (r.start hs d k name attributes) := by
  obtain ⟨hgoes, hchild⟩ := h ((r.entering attributes).view d k) rfl
  have hcall : Leaves hs safe opened ((r.entering attributes).call _ _) := .call rfl hgoes
  exact Succeeds.bind hcall fun r' hr' => .pure ⟨hr', hchild⟩

theorem Running.leaves_close
    (h : ∀ view, view.position.depth = d → (Call.closed r.handler view name).Goes hs safe good) :
    Leaves hs safe good (r.close hs d k name) :=
  .call rfl (h _ rfl)

theorem Running.leaves_text {s : String}
    (h : ∀ view, (Call.text r.handler view s).Goes hs safe good) :
    Leaves hs safe good (r.node hs d k (.text s)) := by
  rw [Running.node]
  exact .call rfl (h _)

/-- An element that the handler keeps to itself. -/
theorem Running.leaves_kept {opened inside : H → Prop}
    (hopen : ∀ view, view.position.depth = d + 1 →
      (Call.opened r.handler view name attributes).Goes hs safe opened ∧
        (hs.onStart r.handler view name attributes).child = none)
    (hcontent : ∀ r' : Running H, opened r'.handler →
      Leaves hs safe inside (r'.nodes hs (d + 1) (k + 1) content))
    (hclose : ∀ h view, inside h → view.position.depth = d + 1 →
      (Call.closed h view name).Goes hs safe good) :
    Leaves hs safe good (r.node hs d k (.element name attributes content)) := by
  rw [Running.node]
  refine (leaves_start hopen).bind ?_
  rintro ⟨r', child⟩ ⟨hr', hnone⟩
  obtain rfl : child = none := hnone
  refine (hcontent r' hr').bind fun r'' hr'' => ?_
  exact leaves_close fun view => hclose _ view hr''

/-- An element that the handler gives to a child. -/
theorem Running.leaves_given {opened inside last : H → Prop} {child : H}
    (hopen : ∀ view, view.position.depth = d + 1 →
      (Call.opened r.handler view name attributes).Goes hs safe opened ∧
        (hs.onStart r.handler view name attributes).child = some child)
    (hcontent : Leaves hs safe inside ((Running.fresh child).nodes hs 1 (k + 1) content))
    (hclose : ∀ h view, inside h → view.position.depth = 1 →
      (Call.closed h view name).Goes hs safe last)
    (hcomplete : ∀ h view c, opened h → last c → (Call.completed h view c).Goes hs safe good) :
    Leaves hs safe good (r.node hs d k (.element name attributes content)) := by
  rw [Running.node]
  refine (leaves_start hopen).bind ?_
  rintro ⟨r', child'⟩ ⟨hr', hsome⟩
  obtain rfl : child' = some child := hsome
  refine hcontent.bind fun inner hinner => ?_
  have hlast : Leaves hs safe last (inner.close hs 1 (k + 1) name) :=
    leaves_close fun view => hclose _ view hinner
  exact hlast.bind fun c hc => .call rfl (hcomplete _ _ _ hr' hc)

/-- If the root handler succeeds with a document, so does the chain. -/
theorem Chain.feed_of_leaves (hk : hs.KeepsBoundary) {root : H}
    (h : Leaves hs safe good
      ((Running.fresh root).node hs 0 0 (.element name attributes content))) :
    let events := Node.documentEvents name attributes content
    let fed := (receiver hs).feed (.ofRoot root) events
    let traced := (receiver hs.traced).feed (.ofRoot root) events
    SameButLog fed traced ∧ fed.1 = .ok () ∧ (∃ last, fed.2.completed = some last ∧ good last) ∧
      ∀ call ∈ traced.2.log, call.outcome hs = .ok () ∧ safe call := by
  intro events fed traced
  have hprogram : Succeeds hs safe good (do
      let r ← (Running.fresh root).node hs 0 0 (.element name attributes content)
      return r.handler) := Succeeds.bind h fun r hr => .pure hr
  obtain ⟨last, calls, hresult, hlast, hcalls⟩ := hprogram []
  have hdescend : descend hs root name attributes content = .ok last calls := hresult
  obtain ⟨hok, hcompleted⟩ := feed_of_descend hk hdescend
  have hagrees := agrees_document hk root name attributes content
  rw [hdescend] at hagrees
  have htraced : traced = (.ok (), ⟨[], some last, 0, calls⟩) := hagrees
  refine ⟨feed_traced (.ofRoot root) [] events, hok, ⟨last, hcompleted, hlast⟩, ?_⟩
  rw [htraced]
  exact hcalls

end Programs

/-! ## Handlers that collect -/

/-- The child has made what it should of its element. -/
def Made {β : Type} (tells : Node → β → Prop) (becomes : β → H → Prop) (element : Node) (c : H) :
    Prop :=
  ∃ b, tells element b ∧ becomes b c

/-- A handler that gives the wanted elements to children and collects what these have become:
`tells` says what an element should make of a child, `becomes` which child has made it, and `holds`
which handler has collected a list of such. It is at work at depths where it `standsAt`. -/
structure Collector {β : Type} (hs : Handlers H N) (safe : Call H → Prop) (wanted : Delegation)
    (tells : Node → β → Prop) (standsAt : Nat → Prop) (becomes : β → H → Prop)
    (holds : List β → H → Prop) : Prop where
  hears : ∀ {found h}, holds found h → ∀ view s, (Call.text h view s).Goes hs safe (holds found)
  keeps : ∀ {found h name}, holds found h → wanted.wants name.localName = false →
    ∀ view attributes, (Call.opened h view name attributes).Goes hs safe (holds found) ∧
      (hs.onStart h view name attributes).child = none
  deeper : ∀ {d name}, standsAt d → wanted.wants name = false → standsAt (d + 1)
  closes : ∀ {found h}, holds found h → ∀ view name,
    (Call.closed h view name).Goes hs safe (holds found)
  gives : ∀ {found h d name}, holds found h → standsAt d → wanted.wants name.localName = true →
    ∀ attributes content, ∃ child,
      (∀ view, view.position.depth = d + 1 →
        (Call.opened h view name attributes).Goes hs safe (holds found) ∧
          (hs.onStart h view name attributes).child = some child) ∧
      ∀ k, Descent.Leaves hs safe (Made tells becomes (.element name attributes content))
        ((Running.fresh child).nodes hs 1 k content)
  ends : ∀ {b c name}, becomes b c → wanted.wants name.localName = true → ∀ view,
    view.position.depth = 1 → (Call.closed c view name).Goes hs safe (becomes b)
  receives : ∀ {found h b c}, holds found h → becomes b c → ∀ view,
    (Call.completed h view c).Goes hs safe (holds (found ++ [b]))

namespace Collector

open Descent (Leaves)

variable {β : Type} {hs : Handlers H N} {safe : Call H → Prop} {wanted : Delegation}
  {tells : Node → β → Prop} {standsAt : Nat → Prop} {becomes : β → H → Prop}
  {holds : List β → H → Prop}

/-- The handler has collected what it should of some elements more. -/
def Collected (tells : Node → β → Prop) (holds : List β → H → Prop) (found : List β)
    (elements : List Node) (h : H) : Prop :=
  ∃ new, List.Forall₂ tells elements new ∧ holds (found ++ new) h

theorem Collected.nothing {found : List β} {h : H} (hh : holds found h) :
    Collected tells holds found [] h :=
  ⟨[], .nil, (List.append_nil found).symm ▸ hh⟩

mutual

theorem node (hc : Collector hs safe wanted tells standsAt becomes holds) {d : Nat}
    (hd : standsAt d) (k : Nat) {r : Running H} {found : List β} (hr : holds found r.handler) :
    (n : Node) → Leaves hs safe (Collected tells holds found (wanted.nearestAt n)) (r.node hs d k n)
  | .text s => by
    rw [Delegation.nearestAt]
    apply Running.leaves_text
    intro view
    have hgoes := hc.hears hr view s
    exact ⟨hgoes.outcome, hgoes.safe, .nothing hgoes.handler⟩
  | .element name attributes content => by
    rw [Delegation.nearestAt]
    cases hwants : wanted.wants name.localName with
    | false =>
      rw [if_neg Bool.false_ne_true]
      apply Running.leaves_kept fun view _ => hc.keeps hr hwants view attributes
      · intro r' hr'
        exact nodes hc (hc.deeper hd hwants) (k + 1) hr' content
      · rintro h view ⟨new, hnew, hh⟩ -
        have hgoes := hc.closes hh view name
        exact ⟨hgoes.outcome, hgoes.safe, new, hnew, hgoes.handler⟩
    | true =>
      rw [if_pos rfl]
      obtain ⟨child, hopen, hcontent⟩ := hc.gives hr hd hwants attributes content
      have hclose : ∀ c (view : View), Made tells becomes (.element name attributes content) c →
          view.position.depth = 1 → (Call.closed c view name).Goes hs safe
            (Made tells becomes (.element name attributes content)) := by
        rintro c view ⟨b, hb, hbecomes⟩ hdepth
        have hgoes := hc.ends hbecomes hwants view hdepth
        exact ⟨hgoes.outcome, hgoes.safe, b, hb, hgoes.handler⟩
      apply Running.leaves_given hopen (hcontent (k + 1)) hclose
      rintro h view c hh ⟨b, hb, hbecomes⟩
      have hgoes := hc.receives hh hbecomes view
      exact ⟨hgoes.outcome, hgoes.safe, [b], .cons hb .nil, hgoes.handler⟩

theorem nodes (hc : Collector hs safe wanted tells standsAt becomes holds) {d : Nat}
    (hd : standsAt d) (k : Nat) {r : Running H} {found : List β} (hr : holds found r.handler) :
    (ns : List Node) →
    Leaves hs safe (Collected tells holds found (wanted.nearest ns)) (r.nodes hs d k ns)
  | [] => by
    rw [Running.nodes, Delegation.nearest]
    exact .pure (.nothing hr)
  | n :: rest => by
    rw [Running.nodes, Delegation.nearest]
    refine (node hc hd k hr n).bind ?_
    rintro r' ⟨new, hnew, hr'⟩
    refine (nodes hc hd k hr' rest).mono ?_
    rintro h ⟨more, hmore, hh⟩
    exact ⟨new ++ more, List.rel_append hnew hmore, List.append_assoc found new more ▸ hh⟩

end

end Collector

/-! ## Copies -/

/-- The copy of an element behind some content of it. -/
def Fragment.copying (f : Fragment) (content : List Node) : Fragment :=
  { f with text := f.text ++ directText content, children := f.children ++ copies content }

namespace Fragment

theorem copying_nil (f : Fragment) : f.copying [] = f := by
  obtain ⟨name, attributes, text, children⟩ := f
  simp [copying, directText, copies]

theorem copying_text (f : Fragment) (s : String) :
    f.copying [.text s] = { f with text := f.text ++ s } := by
  simp [copying, directText, copies, copiesAt]

theorem copying_element (f : Fragment) (name : QualifiedName) (attributes : Attributes)
    (content : List Node) :
    f.copying [.element name attributes content] =
      f.add ((ofStart name attributes).copying content) := by
  simp [copying, directText, copies, copiesAt, add, ofStart]

theorem copying_cons (f : Fragment) (node : Node) (rest : List Node) :
    f.copying (node :: rest) = (f.copying [node]).copying rest := by
  cases node with
  | text s => simp [copying, directText, copies, copiesAt, String.append_assoc]
  | element name attributes content => simp [copying, directText, copies, copiesAt]

end Fragment

namespace CatalogHandler

open Descent (Leaves)

mutual

/-- A copy follows the content that it is made of, whatever is open around it. -/
theorem fragment_node {d : Nat} (hd : d ≠ 0) (k : Nat) {r : Running CatalogHandler} {f : Fragment}
    {outer : List Fragment} (hr : r.handler = fragment (f :: outer)) : (n : Node) →
    Leaves (handlers (N := N)) Call.Smooth (· = fragment (f.copying [n] :: outer))
      (r.node (handlers (N := N)) d k n)
  | .text s => by
    rw [Fragment.copying_text]
    apply Running.leaves_text
    intro view
    rw [hr]
    exact ⟨rfl, .childless (List.cons_ne_nil _ _) rfl, rfl⟩
  | .element name attributes content => by
    let opened : Fragment := .ofStart name attributes
    have hopen : ∀ view : View, view.position.depth = d + 1 →
        (Call.opened r.handler view name attributes).Goes (handlers (N := N)) Call.Smooth
          (· = fragment (opened :: f :: outer)) ∧
          ((handlers (N := N)).onStart r.handler view name attributes).child = none := by
      intro view _
      rw [hr]
      exact ⟨⟨rfl, .childless (List.cons_ne_nil _ _) rfl, rfl⟩, rfl⟩
    rw [Fragment.copying_element]
    apply Running.leaves_kept hopen
    · intro r' hr'
      exact fragment_nodes (Nat.succ_ne_zero d) (k + 1) hr' content
    · rintro h view rfl hdepth
      have hinside : view.position.isBoundary = false := by
        rw [Position.isBoundary, hdepth]
        simpa using hd
      refine ⟨?_, .childless (List.cons_ne_nil _ _) rfl, ?_⟩ <;>
        simp [Call.outcome, Call.reply, handlers, onEnd, hinside, closeFragment, Reply.done,
          opened]

theorem fragment_nodes {d : Nat} (hd : d ≠ 0) (k : Nat) {r : Running CatalogHandler} {f : Fragment}
    {outer : List Fragment} (hr : r.handler = fragment (f :: outer)) : (ns : List Node) →
    Leaves (handlers (N := N)) Call.Smooth (· = fragment (f.copying ns :: outer))
      (r.nodes (handlers (N := N)) d k ns)
  | [] => by
    rw [Running.nodes, Fragment.copying_nil]
    exact .pure hr
  | n :: rest => by
    rw [Running.nodes, Fragment.copying_cons]
    exact (fragment_node hd k hr n).bind fun r' hr' => fragment_nodes hd k hr' rest

end

/-! ## The handlers of a catalogue -/

/-- The fragment is the copy of the element. -/
def Copies (element : Node) (f : Fragment) : Prop := copiesAt element = [f]

theorem copies_of_forall₂ {content : List Node} {fs : List Fragment}
    (h : List.Forall₂ Copies (Delegation.all.nearest content) fs) : copies content = fs := by
  induction content generalizing fs with
  | nil =>
    cases h
    rfl
  | cons node rest ih =>
    cases node with
    | text s => exact ih h
    | element name attributes content =>
      cases h with
      | cons hcopy hrest => rw [copies, hcopy, ih hrest, List.singleton_append]

/-- A `desc` collects the copies of the elements in it. -/
theorem desc_collector (descriptor : Descriptor) :
    Collector (handlers (N := N)) Call.Smooth .all Copies (· = 1) (fun f c => c = fragment [f])
      fun fs h => h = desc { descriptor with metadata := { Fragment.wrapper with children := fs } }
    where
  hears := by
    rintro fs h rfl view s
    exact ⟨rfl, .childless trivial rfl, rfl⟩
  keeps := by
    intro fs h name _ hwants
    cases hwants
  deeper := by
    intro d name _ hwants
    cases hwants
  closes := by
    rintro fs h rfl view name
    exact ⟨rfl, .childless trivial rfl, rfl⟩
  gives := by
    rintro fs h d name rfl rfl - attributes content
    refine ⟨fragment [.ofStart name attributes], ?_, ?_⟩
    · intro view hdepth
      refine ⟨⟨?_, .childless trivial rfl, ?_⟩, ?_⟩ <;>
        simp [Call.outcome, Call.reply, handlers, onStart, hdepth, Reply.delegating, Reply.done]
    · intro k
      let r : Running CatalogHandler := .fresh (fragment [.ofStart name attributes])
      have hr : r.handler = fragment [.ofStart name attributes] := rfl
      refine (fragment_nodes (N := N) Nat.one_ne_zero k hr content).mono ?_
      rintro c rfl
      refine ⟨_, ?_, rfl⟩
      simp [Copies, copiesAt, Fragment.copying, Fragment.ofStart]
  ends := by
    rintro f c name rfl - view hdepth
    have hboundary : view.position.isBoundary = true := by
      rw [Position.isBoundary, hdepth]
      rfl
    refine ⟨?_, .childless (List.cons_ne_nil _ _) rfl, ?_⟩ <;>
      simp [Call.outcome, Call.reply, handlers, onEnd, hboundary, Reply.done]
  receives := by
    rintro fs h f c rfl rfl view
    exact ⟨rfl, .told trivial ⟨f, rfl⟩, rfl⟩

/-- An `item` collects the descriptors of the `desc` elements in it. -/
theorem item_collector (id : String) (parentId : Option String) :
    Collector (handlers (N := N)) Call.Smooth (.names ["desc"]) Describes (fun _ => True)
      (fun d c => c = desc d)
      fun ds h => ∃ object, h = item object ∧ object.id = id ∧ object.parentId = parentId ∧
        object.descriptors = ds where
  hears := by
    rintro ds h ⟨object, rfl, hobject⟩ view s
    exact ⟨rfl, .childless trivial rfl, object, rfl, hobject⟩
  keeps := by
    rintro ds h name ⟨object, rfl, hobject⟩ hwants view attributes
    have hname : name.localName ≠ "desc" := by simpa [Delegation.wants] using hwants
    by_cases htitle : name.localName = "title"
    · let language := attributes.getIn? (some Namespace.xmlUri) "lang"
      refine ⟨⟨?_, .childless trivial rfl, { object with language := language }, ?_, hobject⟩,
        ?_⟩ <;>
        simp [Call.outcome, Call.reply, handlers, onStart, htitle, Reply.alone, Reply.done,
          language]
    · refine ⟨⟨?_, .childless trivial rfl, object, ?_, hobject⟩, ?_⟩ <;>
        simp [Call.outcome, Call.reply, handlers, onStart, hname, htitle, Reply.alone, Reply.done]
  deeper _ _ := trivial
  closes := by
    rintro ds h ⟨object, rfl, hobject⟩ view name
    by_cases htitle : name.localName = "title"
    · refine ⟨?_, .childless trivial rfl, { object with title := view.text }, ?_, hobject⟩ <;>
        simp [Call.outcome, Call.reply, handlers, onEnd, htitle, Reply.taking]
    · refine ⟨?_, .childless trivial rfl, object, ?_, hobject⟩ <;>
        simp [Call.outcome, Call.reply, handlers, onEnd, htitle, Reply.done]
  gives := by
    rintro ds h d name ⟨object, rfl, hobject⟩ - hwants attributes content
    have hname : name.localName = "desc" := by simpa [Delegation.wants] using hwants
    refine ⟨ofDesc attributes, ?_, ?_⟩
    · intro view _
      refine ⟨⟨?_, .childless trivial rfl, object, ?_, hobject⟩, ?_⟩ <;>
        simp [Call.outcome, Call.reply, handlers, onStart, hname, Reply.delegating, Reply.done]
    · intro k
      let descriptor : Descriptor := ⟨(attributes.get? "id").getD "", attributes.get? "type",
        attributes.get? "nameSpace", .wrapper⟩
      let r : Running CatalogHandler := .fresh (desc descriptor)
      have hr : r.handler = desc descriptor := rfl
      refine ((desc_collector (N := N) descriptor).nodes rfl k hr content).mono ?_
      rintro c ⟨fs, hfs, rfl⟩
      refine ⟨_, ?_, rfl⟩
      rw [List.nil_append, ← copies_of_forall₂ hfs]
      exact .desc
  ends := by
    rintro f c name rfl - view hdepth
    exact ⟨rfl, .childless trivial rfl, rfl⟩
  receives := by
    rintro ds h f c ⟨object, rfl, hid, hparent, rfl⟩ rfl view
    exact ⟨rfl, .told trivial trivial, _, rfl, hid, hparent, rfl⟩

/-- A catalogue collects the objects of the `item` elements in it. -/
theorem catalog_collector :
    Collector (handlers (N := N)) Call.Smooth (.names ["item"]) Lists (fun _ => True)
      (fun object c => c = item object) (fun objects h => h = catalog objects) where
  hears := by
    rintro os h rfl view s
    exact ⟨rfl, .childless trivial rfl, rfl⟩
  keeps := by
    rintro os h name rfl hwants view attributes
    have hname : name.localName ≠ "item" := by simpa [Delegation.wants] using hwants
    refine ⟨⟨?_, .childless trivial rfl, ?_⟩, ?_⟩ <;>
      simp [Call.outcome, Call.reply, handlers, onStart, hname, Reply.alone, Reply.done]
  deeper _ _ := trivial
  closes := by
    rintro os h rfl view name
    exact ⟨rfl, .childless trivial rfl, rfl⟩
  gives := by
    rintro os h d name rfl - hwants attributes content
    have hname : name.localName = "item" := by simpa [Delegation.wants] using hwants
    refine ⟨ofItem attributes, ?_, ?_⟩
    · intro view _
      refine ⟨⟨?_, .childless trivial rfl, ?_⟩, ?_⟩ <;>
        simp [Call.outcome, Call.reply, handlers, onStart, hname, Reply.delegating, Reply.done]
    · intro k
      let object : MediaObject :=
        ⟨(attributes.get? "id").getD "", attributes.get? "parentID", "", none, []⟩
      let r : Running CatalogHandler := .fresh (item object)
      have hitems := item_collector (N := N) object.id object.parentId
      have hr : ∃ o, r.handler = item o ∧ o.id = object.id ∧ o.parentId = object.parentId ∧
          o.descriptors = [] := ⟨object, rfl, rfl, rfl, rfl⟩
      refine (hitems.nodes trivial k hr content).mono ?_
      rintro c ⟨ds, hds, o, rfl, hid, hparent, ho⟩
      exact ⟨o, .item hid hparent (ho ▸ hds), rfl⟩
  ends := by
    rintro object c name rfl hwants view hdepth
    have hname : name.localName = "item" := by simpa [Delegation.wants] using hwants
    refine ⟨?_, .childless trivial rfl, ?_⟩ <;>
      simp [Call.outcome, Call.reply, handlers, onEnd, hname, Reply.done]
  receives := by
    rintro os h object c rfl rfl view
    exact ⟨rfl, .told trivial trivial, rfl⟩

/-! ## Documents -/

/-- **Copies.** The handlers of a catalogue take every document to its end, and no call fails on the
way. There is an object for each outermost `item`, and in it a descriptor for each outermost `desc`
within it, both in document order. What a descriptor holds are copies of the elements that stand
directly in its `desc`. -/
theorem catalogs_document (name : QualifiedName) (attributes : Attributes) (content : List Node) :
    let root : Node := .element name attributes content
    let events := Node.documentEvents name attributes content
    let fed := (Chain.receiver (handlers (N := N))).feed (.ofRoot (catalog [])) events
    let traced := (Chain.receiver (handlers (N := N)).traced).feed (.ofRoot (catalog [])) events
    Chain.SameButLog fed traced ∧ fed.1 = .ok () ∧
      (∃ objects, fed.2.completed = some (catalog objects) ∧
        List.Forall₂ Lists ((Delegation.names ["item"]).nearest [root]) objects) ∧
      ∀ call ∈ traced.2.log, call.outcome (handlers (N := N)) = .ok () ∧ call.Smooth := by
  intro root events fed traced
  have hk : (handlers (N := N)).KeepsBoundary := fun _ _ _ => rfl
  let r : Running CatalogHandler := .fresh (catalog [])
  have hr : r.handler = catalog [] := rfl
  have hcollected := catalog_collector.node (N := N) (d := 0) trivial 0 hr root
  obtain ⟨hsame, hok, ⟨last, hcompleted, objects, hobjects, rfl⟩, hcalls⟩ :=
    Chain.feed_of_leaves hk hcollected
  refine ⟨hsame, hok, ⟨objects, hcompleted, ?_⟩, hcalls⟩
  rw [Delegation.nearest, Delegation.nearest, List.append_nil]
  exact hobjects

end CatalogHandler

end Scope

end ScopedXml
