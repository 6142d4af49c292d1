import Mathlib.Data.List.Nodup
import ScopedXml.Proofs.Scope.Trace
import ScopedXml.Scope.Recording

/-!
# Depths in a chain of handlers

A chain knows no elements, only depths: that of the document and one in each frame. A handler that
retires early leaves the depth that it had reached to its parent, so a depth is right only if it
fits all those around it. This module compares the depths with the elements themselves.

* `openElements`: the elements that are open behind some events. An element is told from all others
  by the number of events before it, so names play no part.
* `owners`: for each handler of a chain the element that it was delegated for, as can be seen from
  outside, by watching the stack grow and shrink.
* `Chain.depths_exact`: with handlers that retire at their own element, or earlier, every depth is
  the one that the open elements give, and a handler sees its boundary exactly when its own element
  closes.

The step lemma is `Exact.receive`. It rests on two facts about the owners: they form a sublist of
the open elements, innermost first, and each frame fits the base of the frame above it (`Fits`).
-/

namespace ScopedXml.Scope

variable {H N : Type}

/-! ## Elements and owners -/

/-- The open elements behind one more event, which is number `number`, unless it closes an element
and none is open. -/
def openedAfter (number : Nat) (opened : List Nat) : Event → Option (List Nat)
  | .startElement _ _ => some (number :: opened)
  | .endElement _ =>
    match opened with
    | [] => none
    | _ :: outer => some outer
  | _ => some opened

/-- The open elements behind some events, the innermost first, if the events are well nested. -/
def openElements (number : Nat) (opened : List Nat) : List Event → Option (List Nat)
  | [] => some opened
  | event :: events => do openElements (number + 1) (← openedAfter number opened event) events

/-- The owners behind an event in which the stack went from one height to another. -/
def ownersAfter (number before after : Nat) (owners : List (Option Nat)) : List (Option Nat) :=
  if before < after then some number :: owners else owners.drop (before - after)

/-- For each handler of a chain, the active one first, the element that it was delegated for. The
root handler, which nobody delegated, has `none`. -/
def owners (hs : Handlers H N) (number : Nat) (c : Chain H N) (sofar : List (Option Nat)) :
    List Event → List (Option Nat)
  | [] => sofar
  | event :: events =>
    let next := (c.receive hs event).2
    owners hs (number + 1) next (ownersAfter number c.depth next.depth sofar) events

/-- How deep in the document an open element stands. -/
def depthOf (opened : List Nat) (e : Nat) : Nat := (opened.dropWhile (· != e)).length

/-- The document depth of the element that a handler was delegated for. -/
def base (opened : List Nat) : Option Nat → Nat
  | none => 1
  | some e => depthOf opened e

/-- The element that a handler was delegated for. The root handler is there for the outermost
one. -/
def elementOf (opened : List Nat) : Option Nat → Option Nat
  | none => opened.getLast?
  | some e => some e

/-- How deep in the document the scope of the `i`-th handler goes now: down to the innermost open
element if the handler is active, and to the element of the handler above it if not. -/
def reach (opened : List Nat) (owners : List (Option Nat)) : Nat → Nat
  | 0 => opened.length
  | i + 1 => ((owners[i]?).map (base opened)).getD 0

/-- Handlers that retire at the element that they were made for, if they have not done so before. -/
def Handlers.RetiresByBoundary (hs : Handlers H N) : Prop :=
  ∀ h name p, p.isBoundary = true → (hs.isLast h name p).1 = true

/-! ## Depths of open elements -/

theorem depthOf_cons_self (e : Nat) (outer : List Nat) :
    depthOf (e :: outer) e = outer.length + 1 := by
  simp [depthOf]

theorem depthOf_cons_of_ne {e e' : Nat} (h : e' ≠ e) (outer : List Nat) :
    depthOf (e :: outer) e' = depthOf outer e' := by
  have hne : (e != e') = true := by simpa using h.symm
  simp [depthOf, hne]

theorem depthOf_le (opened : List Nat) (e : Nat) : depthOf opened e ≤ opened.length :=
  (List.dropWhile_sublist _).length_le

theorem depthOf_pos {opened : List Nat} {e : Nat} (h : e ∈ opened) : 0 < depthOf opened e := by
  induction opened with
  | nil => cases h
  | cons a outer ih =>
    by_cases ha : e = a
    · subst ha
      rw [depthOf_cons_self]
      omega
    · rw [depthOf_cons_of_ne ha]
      apply ih
      simpa [ha] using h

/-- Of two open elements the outer one stands higher. -/
theorem pairwise_depthOf {opened : List Nat} (hnodup : opened.Nodup) :
    opened.Pairwise fun e e' => depthOf opened e' < depthOf opened e := by
  induction opened with
  | nil => exact .nil
  | cons a outer ih =>
    obtain ⟨ha, houter⟩ := List.nodup_cons.mp hnodup
    have hkept : ∀ e ∈ outer, depthOf (a :: outer) e = depthOf outer e := by
      intro e he
      apply depthOf_cons_of_ne
      rintro rfl
      exact ha he
    apply List.Pairwise.cons
    · intro e he
      have hle := depthOf_le outer e
      rw [hkept e he, depthOf_cons_self]
      omega
    · refine (ih houter).imp_of_mem ?_
      intro e e' he he' hlt
      rw [hkept e he, hkept e' he']
      exact hlt

/-! ## What an event does to the depths -/

namespace Chain

/-- The depths of all scopes, that of the active handler first. -/
def depths (c : Chain H N) : List Nat := c.stack.map (·.depth)

theorem length_depths (c : Chain H N) : c.depths.length = c.depth := List.length_map _

section Depths

variable {hs : Handlers H N} {c c' : Chain H N}

theorem depths_startElement {name : QualifiedName} {attributes : Attributes}
    (h : c.startElement hs name attributes = (.ok (), c')) :
    c'.documentDepth = c.documentDepth + 1 ∧ ∃ d ds, c.depths = d :: ds ∧
      (c'.depths = (d + 1) :: ds ∨ c'.depths = 1 :: (d + 1) :: ds) := by
  obtain ⟨stack, completed, k, log⟩ := c
  cases stack with
  | nil => cases h
  | cons frame rest =>
    simp only [startElement] at h
    generalize hs.onStart _ _ _ _ = reply at h
    cases hout : reply.outcome with
    | error e => simp [hout] at h
    | ok _ =>
      cases hchild : reply.child <;> simp only [hout, hchild] at h <;> cases h
      · exact ⟨rfl, frame.depth, rest.map (·.depth), rfl, Or.inl rfl⟩
      · exact ⟨rfl, frame.depth, rest.map (·.depth), rfl, Or.inr rfl⟩

/-- An element that closes within a scope takes one off its depth; the last one leaves the rest of
the depth to the parent. -/
theorem depths_endElement (hb : hs.RetiresByBoundary) {name : QualifiedName}
    (h : c.endElement hs name = (.ok (), c')) :
    c'.documentDepth = c.documentDepth - 1 ∧ ∃ d ds, c.depths = d :: ds ∧
      ((d ≠ 1 ∧ c'.depths = (d - 1) :: ds) ∨ (ds = [] ∧ c'.depths = []) ∨
        ∃ parent outer, ds = parent :: outer ∧ c'.depths = (parent + (d - 1) - 1) :: outer) := by
  obtain ⟨stack, completed, k, log⟩ := c
  cases stack with
  | nil => cases h
  | cons frame rest =>
    refine And.imp_right (fun hd => ⟨frame.depth, rest.map (·.depth), rfl, hd⟩) ?_
    cases hlast : hs.isLast frame.handler name ⟨frame.depth, k⟩ with
    | mk last notes =>
      cases last with
      | false =>
        rw [endElement_inside hlast] at h
        have hinside : frame.depth ≠ 1 := by
          intro hone
          have hretires := hb frame.handler name ⟨frame.depth, k⟩
            (by simp [Position.isBoundary, hone])
          rw [hlast] at hretires
          cases hretires
        dsimp only at h
        generalize hs.onEnd frame.handler (frame.view k) name = reply at h
        cases hout : reply.outcome with
        | error e => simp [hout] at h
        | ok _ =>
          simp only [hout] at h
          cases h
          exact ⟨rfl, Or.inl ⟨hinside, rfl⟩⟩
      | true =>
        rw [endElement_last hlast] at h
        dsimp only at h
        generalize hs.onEnd _ _ _ = reply at h
        cases hout : reply.outcome with
        | error e => simp [hout] at h
        | ok _ =>
          simp only [hout] at h
          cases rest with
          | nil =>
            cases h
            exact ⟨rfl, Or.inr (Or.inl ⟨rfl, rfl⟩)⟩
          | cons parent outer =>
            have hnext := congrArg Prod.snd h
            subst hnext
            exact ⟨rfl, Or.inr (Or.inr ⟨parent.depth, outer.map (·.depth), rfl, rfl⟩)⟩

end Depths

end Chain

/-! ## Exact depths -/

/-- Each depth reaches from the base of its handler down to the level below it, which is the base of
the handler above. -/
def Fits : Nat → List Nat → List Nat → Prop
  | _, [], [] => True
  | level, d :: ds, b :: bs => d + b = level + 1 ∧ Fits b ds bs
  | _, _, _ => False

section Fits

variable {level d b : Nat} {ds bs : List Nat}

theorem Fits.length_eq (h : Fits level ds bs) : ds.length = bs.length := by
  induction ds generalizing level bs with
  | nil =>
    cases bs with
    | nil => rfl
    | cons b bs => exact h.elim
  | cons d ds ih =>
    cases bs with
    | nil => exact h.elim
    | cons b bs => exact congrArg (· + 1) (ih h.2)

theorem Fits.getElem? (h : Fits level ds bs) {i : Nat} (hd : ds[i]? = some d)
    (hb : bs[i]? = some b) : d + b = ((level :: bs)[i]?).getD 0 + 1 := by
  induction i generalizing level ds bs with
  | zero =>
    cases ds <;> cases bs <;> simp at hd hb
    subst hd hb
    exact h.1
  | succ i ih =>
    cases ds <;> cases bs <;> simp at hd hb
    exact ih h.2 hd hb

/-- No depth is zero where each base stands in the scope below it. -/
theorem Fits.pos (h : Fits level ds bs) (hle : (level :: bs).Pairwise (· ≥ ·)) :
    ∀ d ∈ ds, 0 < d := by
  induction ds generalizing level bs with
  | nil => simp
  | cons d ds ih =>
    cases bs with
    | nil => exact h.elim
    | cons b bs =>
      obtain ⟨hd, hrest⟩ := h
      obtain ⟨hlevel, hbs⟩ := List.pairwise_cons.mp hle
      have hb : level ≥ b := hlevel b List.mem_cons_self
      intro x hx
      rcases List.mem_cons.mp hx with rfl | hx
      · omega
      · exact ih hrest hbs x hx

theorem Fits.deeper (h : Fits level (d :: ds) bs) : Fits (level + 1) ((d + 1) :: ds) bs := by
  cases bs with
  | nil => exact h.elim
  | cons b bs =>
    obtain ⟨hd, hrest⟩ := h
    exact ⟨by omega, hrest⟩

theorem Fits.higher (h : Fits (level + 1) (d :: ds) bs) (hd : 0 < d) :
    Fits level ((d - 1) :: ds) bs := by
  cases bs with
  | nil => exact h.elim
  | cons b bs =>
    obtain ⟨hb, hrest⟩ := h
    exact ⟨by omega, hrest⟩

/-- What is left of a retired scope fits below its parent. -/
theorem Fits.retire {parent : Nat} (h : Fits (level + 1) (d :: parent :: ds) (b :: bs))
    (hd : 0 < d) (hparent : 0 < parent) : Fits level ((parent + (d - 1) - 1) :: ds) bs := by
  obtain ⟨hb, hrest⟩ := h
  cases bs with
  | nil => exact hrest.elim
  | cons b' bs =>
    obtain ⟨hb', hrest⟩ := hrest
    exact ⟨by omega, hrest⟩

end Fits

/-! ## Owners -/

/-- Behind the active handler come those that delegated, each for an element further out, and the
root at last. Their depths fit. -/
def Owned (opened : List Nat) (owners : List (Option Nat)) (ds : List Nat) : Prop :=
  ∃ es : List Nat, owners = es.map some ++ [none] ∧ es.Sublist opened ∧
    Fits opened.length ds (owners.map (base opened))

theorem map_base_cons {opened es : List Nat} {e : Nat} (h : e ∉ es) :
    (es.map some ++ [none]).map (base (e :: opened)) =
      (es.map some ++ [none]).map (base opened) := by
  apply List.map_congr_left
  intro owner howner
  cases owner with
  | none => rfl
  | some e' =>
    have hmem : e' ∈ es := by simpa using howner
    apply depthOf_cons_of_ne
    rintro rfl
    exact h hmem

theorem pairwise_base {opened es : List Nat} (hes : es.Sublist opened) (hnodup : opened.Nodup)
    (hopened : opened ≠ []) :
    (opened.length :: (es.map some ++ [none]).map (base opened)).Pairwise (· ≥ ·) := by
  have hlength : 0 < opened.length := List.length_pos_iff.mpr hopened
  have hpairs := (pairwise_depthOf hnodup).sublist hes
  rw [List.pairwise_cons, List.pairwise_map, List.pairwise_append, List.pairwise_map]
  refine ⟨?_, hpairs.imp Nat.le_of_lt, List.pairwise_singleton _ _, ?_⟩
  · intro b hb
    obtain ⟨owner, -, rfl⟩ := List.mem_map.mp hb
    cases owner with
    | none => exact hlength
    | some e => exact depthOf_le opened e
  · intro owner howner root hroot
    obtain ⟨e, he, rfl⟩ := List.mem_map.mp howner
    obtain rfl := List.mem_singleton.mp hroot
    exact depthOf_pos (hes.subset he)

namespace Owned

variable {opened outer : List Nat} {owners : List (Option Nat)} {d : Nat} {ds : List Nat} {e : Nat}

theorem start : Owned [] [none] [0] := ⟨[], rfl, .slnil, rfl, trivial⟩

theorem opens (h : Owned opened owners (d :: ds)) (he : e ∉ opened) :
    Owned (e :: opened) owners ((d + 1) :: ds) := by
  obtain ⟨es, rfl, hes, hfits⟩ := h
  have hnot : e ∉ es := fun hmem => he (hes.subset hmem)
  refine ⟨es, rfl, hes.cons e, ?_⟩
  rw [map_base_cons hnot]
  exact hfits.deeper

theorem delegates (h : Owned opened owners (d :: ds)) (he : e ∉ opened) :
    Owned (e :: opened) (some e :: owners) (1 :: (d + 1) :: ds) := by
  obtain ⟨es, rfl, hes, hfits⟩ := h
  have hnot : e ∉ es := fun hmem => he (hes.subset hmem)
  refine ⟨e :: es, rfl, hes.cons_cons e, ?_⟩
  rw [List.map_cons, map_base_cons hnot, base, depthOf_cons_self]
  exact ⟨Nat.add_comm _ _, hfits.deeper⟩

theorem pos (h : Owned opened owners ds) (hnodup : opened.Nodup) (hopened : opened ≠ []) :
    ∀ d ∈ ds, 0 < d := by
  obtain ⟨es, rfl, hes, hfits⟩ := h
  exact hfits.pos (pairwise_base hes hnodup hopened)

/-- The active handler stands at its boundary exactly if the innermost open element is its own. -/
theorem eq_one_iff {owner : Option Nat} (h : Owned (e :: outer) (owner :: owners) (d :: ds))
    (hnodup : (e :: outer).Nodup) : d = 1 ↔ elementOf (e :: outer) owner = some e := by
  obtain ⟨es, howners, hes, hd, -⟩ := h
  cases owner with
  | none =>
    -- The root is there for the outermost element, which is the innermost one if it is alone.
    have hone : d = 1 ↔ outer = [] := by
      rw [← List.length_eq_zero_iff]
      simp only [base, List.length_cons] at hd
      omega
    rw [hone, elementOf]
    constructor
    · rintro rfl
      rfl
    · intro hlast
      cases outer with
      | nil => rfl
      | cons a outer =>
        have hmem : e ∈ a :: outer := List.mem_of_getLast? (by simpa using hlast)
        exact absurd hmem (List.nodup_cons.mp hnodup).1
  | some a =>
    by_cases ha : a = e
    · subst ha
      simp only [base, depthOf_cons_self, List.length_cons] at hd
      simp only [elementOf, iff_true]
      omega
    · have hle := depthOf_le outer a
      simp only [base, depthOf_cons_of_ne ha, List.length_cons] at hd
      simp only [elementOf, Option.some.injEq, ha, iff_false]
      omega

theorem closes_inside (h : Owned (e :: outer) owners (d :: ds)) (hnodup : (e :: outer).Nodup)
    (hd : d ≠ 1) : Owned outer owners ((d - 1) :: ds) := by
  have hpos := h.pos hnodup (List.cons_ne_nil _ _) d List.mem_cons_self
  obtain ⟨es, rfl, hes, hfits⟩ := id h
  have houter : es.Sublist outer := by
    cases hes with
    | cons _ hes => exact hes
    | cons_cons _ hes => exact absurd ((h.eq_one_iff hnodup).mpr rfl) hd
  have hnot : e ∉ es := fun hmem => (List.nodup_cons.mp hnodup).1 (houter.subset hmem)
  refine ⟨es, rfl, houter, ?_⟩
  rw [map_base_cons hnot] at hfits
  exact hfits.higher hpos

theorem closes_last {parent : Nat} (h : Owned (e :: outer) owners (d :: parent :: ds))
    (hnodup : (e :: outer).Nodup) :
    Owned outer (owners.drop 1) ((parent + (d - 1) - 1) :: ds) := by
  have hpos := h.pos hnodup (List.cons_ne_nil _ _)
  obtain ⟨es, rfl, hes, hfits⟩ := h
  cases es with
  | nil => exact hfits.2.elim
  | cons a es =>
    have houter : es.Sublist outer := hes.tail
    have hnot : e ∉ es := fun hmem => (List.nodup_cons.mp hnodup).1 (houter.subset hmem)
    refine ⟨es, rfl, houter, ?_⟩
    rw [List.map_cons, List.cons_append, List.map_cons, map_base_cons hnot] at hfits
    exact hfits.retire (hpos d (by simp)) (hpos parent (by simp))

end Owned

/-! ## Steps and runs -/

/-- All depths are exact, as long as there are handlers. -/
structure Exact (number : Nat) (opened : List Nat) (owners : List (Option Nat)) (c : Chain H N) :
    Prop where
  documentDepth : c.documentDepth = opened.length
  earlier : ∀ e ∈ opened, e < number
  nodup : opened.Nodup
  owned : c.stack = [] ∨ Owned opened owners c.depths

theorem ownersAfter_self (number k : Nat) (owners : List (Option Nat)) :
    ownersAfter number k k owners = owners := by
  simp [ownersAfter]

section Steps

variable {hs : Handlers H N} {number : Nat} {opened opened' : List Nat}
  {owners : List (Option Nat)} {c c' : Chain H N}

theorem Exact.start (root : H) : Exact 0 [] [none] (.ofRoot root : Chain H N) :=
  ⟨rfl, by simp, .nil, Or.inr .start⟩

/-- An event that neither opens nor closes anything. -/
theorem Exact.keeps (h : Exact number opened owners c) (hdepths : c'.depths = c.depths)
    (hdocument : c'.documentDepth = c.documentDepth) :
    Exact (number + 1) opened (ownersAfter number c.depth c'.depth owners) c' := by
  have hdepth : c'.depth = c.depth := by
    rw [← Chain.length_depths, hdepths, Chain.length_depths]
  rw [hdepth, ownersAfter_self]
  refine ⟨hdocument.trans h.documentDepth, fun e he => Nat.lt_succ_of_lt (h.earlier e he),
    h.nodup, ?_⟩
  rcases h.owned with hnil | howned
  · left
    have hlength := congrArg List.length hdepths
    simp only [Chain.depths, List.length_map, hnil, List.length_nil] at hlength
    exact List.length_eq_zero_iff.mp hlength
  · right
    rw [hdepths]
    exact howned

theorem Exact.owned_cons {d : Nat} {ds : List Nat} (h : Exact number opened owners c)
    (hd : c.depths = d :: ds) : Owned opened owners (d :: ds) := by
  rcases h.owned with hnil | howned
  · simp [Chain.depths, hnil] at hd
  · rwa [hd] at howned

theorem Exact.startElement {name : QualifiedName} {attributes : Attributes}
    (h : Exact number opened owners c)
    (hc : c.startElement hs name attributes = (.ok (), c')) :
    Exact (number + 1) (number :: opened) (ownersAfter number c.depth c'.depth owners) c' := by
  have hnew : number ∉ opened := fun hmem => Nat.lt_irrefl _ (h.earlier number hmem)
  obtain ⟨hdocument, d, ds, hd, hdepths⟩ := Chain.depths_startElement hc
  have howned := h.owned_cons hd
  refine ⟨?_, ?_, List.nodup_cons.mpr ⟨hnew, h.nodup⟩, Or.inr ?_⟩
  · rw [hdocument, h.documentDepth, List.length_cons]
  · intro e he
    rcases List.mem_cons.mp he with rfl | he
    · omega
    · have := h.earlier e he
      omega
  · rcases hdepths with hkept | hpushed
    · have hdepth : c'.depth = c.depth := by
        simp only [← Chain.length_depths, hkept, hd, List.length_cons]
      rw [hdepth, ownersAfter_self, hkept]
      exact howned.opens hnew
    · have hdepth : c.depth < c'.depth := by
        simp only [← Chain.length_depths, hpushed, hd, List.length_cons]
        omega
      rw [ownersAfter, if_pos hdepth, hpushed]
      exact howned.delegates hnew

theorem Exact.endElement (hb : hs.RetiresByBoundary) {name : QualifiedName} {e : Nat}
    {outer : List Nat} (h : Exact number (e :: outer) owners c)
    (hc : c.endElement hs name = (.ok (), c')) :
    Exact (number + 1) outer (ownersAfter number c.depth c'.depth owners) c' := by
  obtain ⟨hdocument, d, ds, hd, hdepths⟩ := Chain.depths_endElement hb hc
  have howned := h.owned_cons hd
  refine ⟨?_, ?_, (List.nodup_cons.mp h.nodup).2, ?_⟩
  · rw [hdocument, h.documentDepth, List.length_cons, Nat.add_sub_cancel]
  · intro e' he'
    have := h.earlier e' (List.mem_cons_of_mem _ he')
    omega
  · rcases hdepths with ⟨hne, hinside⟩ | ⟨-, hgone⟩ | ⟨parent, paused, rfl, hretired⟩
    · right
      have hdepth : c'.depth = c.depth := by
        simp only [← Chain.length_depths, hinside, hd, List.length_cons]
      rw [hdepth, ownersAfter_self, hinside]
      exact howned.closes_inside h.nodup hne
    · left
      exact List.map_eq_nil_iff.mp hgone
    · right
      have hdepth : c.depth = c'.depth + 1 := by
        simp only [← Chain.length_depths, hretired, hd, List.length_cons]
      rw [hdepth, ownersAfter, if_neg (by omega), Nat.add_sub_cancel_left, hretired]
      exact howned.closes_last h.nodup

/-- **Step.** An event that is received without failure keeps all depths exact. -/
theorem Exact.receive (hb : hs.RetiresByBoundary) {event : Event}
    (h : Exact number opened owners c) (hopened : openedAfter number opened event = some opened')
    (hc : c.receive hs event = (.ok (), c')) :
    Exact (number + 1) opened' (ownersAfter number c.depth c'.depth owners) c' := by
  cases event with
  | startDocument =>
    cases hopened
    have hsame : c' = c := by
      simp only [Chain.receive, Chain.startDocument] at hc
      split at hc
      · cases hc
      · cases hc
        rfl
    exact h.keeps (by rw [hsame]) (by rw [hsame])
  | startElement name attributes =>
    cases hopened
    exact h.startElement hc
  | characters text =>
    cases hopened
    simp only [Chain.receive, Chain.characters] at hc
    split at hc
    · cases hc
    · next frame rest hstack =>
      have hnext := congrArg Prod.snd hc
      subst hnext
      exact h.keeps (by simp [Chain.depths, hstack, Frame.after]) rfl
  | endElement name =>
    cases opened with
    | nil => cases hopened
    | cons e outer =>
      cases hopened
      exact h.endElement hb hc
  | endDocument =>
    cases hopened
    simp only [Chain.receive, Chain.endDocument] at hc
    split at hc
    · next hstack =>
      split at hc
      · cases hc
        exact h.keeps rfl rfl
      · cases hc
    · cases hc
      exact ⟨h.documentDepth, fun e he => Nat.lt_succ_of_lt (h.earlier e he), h.nodup,
        Or.inl rfl⟩
    · cases hc

/-- **Run.** -/
theorem Exact.feed (hb : hs.RetiresByBoundary) {events : List Event}
    (h : Exact number opened owners c)
    (hopened : openElements number opened events = some opened')
    (hc : (Chain.receiver hs).feed c events = (.ok (), c')) :
    Exact (number + events.length) opened' (Scope.owners hs number c owners events) c' := by
  induction events generalizing number opened owners c with
  | nil =>
    cases hopened
    cases hc
    exact h
  | cons event events ih =>
    obtain ⟨next, hnext, hopened⟩ := Option.bind_eq_some_iff.mp hopened
    rw [Receiver.feed] at hc
    cases hstep : (Chain.receiver hs).receive c event with
    | mk answer c₁ =>
      rw [hstep] at hc
      have hreceived : (c.receive hs event).2 = c₁ := congrArg Prod.snd hstep
      cases answer with
      | error _ => cases hc
      | ok _ =>
        have hlength : number + (event :: events).length = number + 1 + events.length := by
          rw [List.length_cons]
          omega
        rw [Scope.owners, hreceived, hlength]
        exact ih (h.receive hb hnext hstep) hopened hc

end Steps

/-! ## The depths of a chain -/

theorem reach_eq_getElem? (opened : List Nat) (owners : List (Option Nat)) (i : Nat) :
    reach opened owners i = ((opened.length :: owners.map (base opened))[i]?).getD 0 := by
  cases i with
  | zero => rfl
  | succ i => rw [List.getElem?_cons_succ, List.getElem?_map, reach]

/-- Behind any well nested events that a chain has received without failure, and as long as it has
handlers, its depths are those of the elements: a handler's depth counts the open elements from its
own one to where its scope ends now. An element can then close without any depth going below zero,
and the active handler sees its boundary exactly when that element is its own. -/
theorem Chain.depths_exact {hs : Handlers H N} (hb : hs.RetiresByBoundary) {root : H}
    {events : List Event} {opened : List Nat} {c : Chain H N}
    (hnested : openElements 0 [] events = some opened)
    (hfeed : (receiver hs).feed (.ofRoot root) events = (.ok (), c)) (hactive : c.stack ≠ []) :
    let owners := owners hs 0 (.ofRoot root) [none] events
    c.documentDepth = opened.length ∧
      owners.length = c.stack.length ∧ (∀ e, some e ∈ owners → e ∈ opened) ∧
      (∀ (i : Nat) frame owner, c.stack[i]? = some frame → owners[i]? = some owner →
        (frame.depth : Int) = reach opened owners i - base opened owner + 1) ∧
      ∀ e outer frame rest owner, opened = e :: outer → c.stack = frame :: rest →
        owners[0]? = some owner →
        (0 < c.documentDepth ∧ 0 < frame.depth ∧
          ∀ parent ∈ rest.head?, 0 < parent.depth + (frame.depth - 1)) ∧
        ((frame.view c.documentDepth).position.isBoundary = true ↔
          elementOf opened owner = some e) := by
  intro owners
  have hexact : Exact (0 + events.length) opened owners c :=
    (Exact.start root).feed hb hnested hfeed
  have howned : Owned opened owners c.depths := hexact.owned.resolve_left hactive
  obtain ⟨es, howners, hes, hfits⟩ := id howned
  have hlength : owners.length = c.stack.length := by
    have hbases := hfits.length_eq
    rw [List.length_map, Chain.length_depths] at hbases
    exact hbases.symm
  refine ⟨hexact.documentDepth, hlength, ?_, ?_, ?_⟩
  · intro e he
    rw [howners] at he
    exact hes.subset (by simpa using he)
  · intro i frame owner hframe howner
    have hdepth : c.depths[i]? = some frame.depth := by
      rw [depths, List.getElem?_map, hframe]
      rfl
    have hbase : (owners.map (base opened))[i]? = some (base opened owner) := by
      rw [List.getElem?_map, howner]
      rfl
    have hfit := hfits.getElem? hdepth hbase
    rw [← reach_eq_getElem?] at hfit
    omega
  · intro e outer frame rest owner hopened hstack howner
    subst hopened
    have hpos := howned.pos hexact.nodup (List.cons_ne_nil e outer)
    rw [depths, hstack, List.map_cons] at howned hpos
    have hframe : 0 < frame.depth := hpos _ List.mem_cons_self
    refine ⟨⟨?_, hframe, ?_⟩, ?_⟩
    · rw [hexact.documentDepth, List.length_cons]
      omega
    · intro parent hparent
      have hmem : parent ∈ rest := List.mem_of_head? hparent
      have := hpos parent.depth (List.mem_cons_of_mem _ (List.mem_map_of_mem hmem))
      omega
    · obtain ⟨others, hothers⟩ : ∃ others, owners = owner :: others := by
        cases howners' : owners with
        | nil => simp [howners'] at howner
        | cons o others =>
          rw [howners'] at howner
          exact ⟨others, by simpa using howner⟩
      rw [hothers] at howned
      have hone := howned.eq_one_iff hexact.nodup
      simpa [Position.isBoundary, Frame.view] using hone

/-- The same handlers, retiring also at every element with this local name. -/
def Handlers.stoppingAt (hs : Handlers H N) (stop : String) : Handlers H N :=
  { hs with isLast := fun _ name p => (p.isBoundary || name.localName == stop, []) }

/-- In `<a><b><stop/></b></a>` the recorder of `b` retires at the end of `stop`. Behind it `b` is
still open and belongs to the recorder of `a`, whose depth is 2. -/
theorem Chain.depths_exact_stop :
    let hs := Recorder.handlers.stoppingAt "stop"
    let events : List Event :=
      [.startDocument, .startElement (.ofLocal "a") .empty, .startElement (.ofLocal "b") .empty,
        .startElement (.ofLocal "stop") .empty, .endElement (.ofLocal "stop")]
    let c := ((receiver hs).feed (.ofRoot (.fresh "a" (.names ["b"]) none)) events).2
    hs.RetiresByBoundary ∧ openElements 0 [] events = some [2, 1] ∧
      (receiver hs).feed (.ofRoot (.fresh "a" (.names ["b"]) none)) events = (.ok (), c) ∧
      c.stack ≠ [] ∧ c.documentDepth = 2 ∧ c.depths = [2] := by
  intro hs events c
  have hb : hs.RetiresByBoundary := by
    intro h name p hp
    simp [hs, Handlers.stoppingAt, hp]
  have hnested : openElements 0 [] events = some [2, 1] := rfl
  have hfeed : (receiver hs).feed (.ofRoot (.fresh "a" (.names ["b"]) none)) events =
      (.ok (), c) := rfl
  have hactive : c.stack ≠ [] := List.cons_ne_nil _ _
  obtain ⟨hdocument, -, -, -, -⟩ := depths_exact hb hnested hfeed hactive
  exact ⟨hb, hnested, hfeed, hactive, hdocument, rfl⟩

end ScopedXml.Scope
