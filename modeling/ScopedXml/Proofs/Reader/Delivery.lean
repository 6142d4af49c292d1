import Mathlib.Data.List.Infix
import ScopedXml.Proofs.Reader.Driving

/-!
# What reaches the listeners

Listeners that write down in one row what they are told learn what a reader hands over, diagnostics
and events in their order (`DocumentReader.handed`). It is the beginning of a transcript, up to the
first item that is answered with a failure (`handed`).

Two policies that listen to the same document therefore get two prefixes of one row, and a fatal
diagnostic always ends it. `DocumentReader.handed_policies` says so, and what that means for the
policy that gives up at once beside the one that only keeps a record.
-/

namespace ScopedXml

variable {P Q C : Type}

/-! ## Handing over -/

/-- The items that reach their listeners: all up to the first one that is answered with a failure,
that one included. -/
def handed (policy : Policy P) (receiver : Receiver C) (p : P) (c : C) : List Item → List Item
  | [] => []
  | item :: items =>
    match item.deliver policy receiver p c with
    | (.error _, _, _) => [item]
    | (.ok (), p, c) => item :: handed policy receiver p c items

def Item.event? : Item → Option Event
  | event e => some e
  | report _ => none

def Item.diagnostic? : Item → Option Diagnostic
  | event _ => none
  | report d => some d

def eventsOf (items : List Item) : List Event := items.filterMap Item.event?

def diagnosticsOf (items : List Item) : List Diagnostic := items.filterMap Item.diagnostic?

/-- The same policy, writing down what it is told in a row that it shares with a receiver. -/
def Policy.inRow {S : Type} (policy : Policy S) : Policy (S × List Item) where
  receive := fun (s, row) entry d =>
    let (answer, s) := policy.receive s entry d
    (answer, s, row ++ [.report d])

/-- The same receiver, writing down its events in a row that it shares with a policy. -/
def Receiver.inRow {S : Type} (receiver : Receiver S) : Receiver (S × List Item) where
  receive := fun (s, row) event =>
    let (answer, s) := receiver.receive s event
    (answer, s, row ++ [.event event])

/-- The same policy, writing down what it is told. -/
def Policy.logged (policy : Policy P) : Policy (P × List Diagnostic) where
  receive := fun (p, log) entry d =>
    let (answer, p) := policy.receive p entry d
    (answer, p, log ++ [d])

/-- The same receiver, writing down its events. -/
def Receiver.logged (receiver : Receiver C) : Receiver (C × List Event) where
  receive := fun (c, log) event =>
    let (answer, c) := receiver.receive c event
    (answer, c, log ++ [event])

section Handed

variable {policy : Policy P} {receiver : Receiver C} {p p' : P} {c c' : C} {item : Item}
  {e : ReadFailure}

theorem deliverItems_cons_error (h : item.deliver policy receiver p c = (.error e, p', c'))
    (items : List Item) :
    deliverItems policy receiver p c (item :: items) = (.error e, p', c') := by
  rw [deliverItems, h]

theorem deliverItems_cons_ok (h : item.deliver policy receiver p c = (.ok (), p', c'))
    (items : List Item) :
    deliverItems policy receiver p c (item :: items) =
      deliverItems policy receiver p' c' items := by
  rw [deliverItems, h]

theorem handed_cons_error (h : item.deliver policy receiver p c = (.error e, p', c'))
    (items : List Item) : handed policy receiver p c (item :: items) = [item] := by
  rw [handed, h]

theorem handed_cons_ok (h : item.deliver policy receiver p c = (.ok (), p', c'))
    (items : List Item) :
    handed policy receiver p c (item :: items) = item :: handed policy receiver p' c' items := by
  rw [handed, h]

theorem handed_isPrefix (items : List Item) : handed policy receiver p c items <+: items := by
  induction items generalizing p c with
  | nil => exact List.prefix_refl []
  | cons item items ih =>
    match hitem : item.deliver policy receiver p c with
    | (.error _, _, _) =>
      rw [handed_cons_error hitem]
      exact List.prefix_append [item] items
    | (.ok (), _, _) =>
      rw [handed_cons_ok hitem]
      exact (List.prefix_cons_inj item).mpr ih

theorem handed_eq_of_ok {items : List Item}
    (h : (deliverItems policy receiver p c items).1 = .ok ()) :
    handed policy receiver p c items = items := by
  induction items generalizing p c with
  | nil => rfl
  | cons item items ih =>
    match hitem : item.deliver policy receiver p c with
    | (.error _, _, _) =>
      rw [deliverItems_cons_error hitem] at h
      cases h
    | (.ok (), _, _) =>
      rw [deliverItems_cons_ok hitem] at h
      rw [handed_cons_ok hitem, ih h]

/-- A fatal diagnostic is answered with a failure, whatever the policy says. -/
theorem Policy.report_fatal {d : Diagnostic} (h : d.severity = .fatal) :
    (policy.report p d).1 ≠ .ok () := by
  unfold Policy.report
  split
  · simp
  · simp [h]

/-- Nothing is handed over behind a fatal diagnostic. -/
theorem handed_fatal {items before after : List Item} {d : Diagnostic}
    (h : handed policy receiver p c items = before ++ .report d :: after)
    (hfatal : d.severity = .fatal) :
    after = [] ∧ (deliverItems policy receiver p c items).1 ≠ .ok () := by
  induction items generalizing p c before with
  | nil => simp [handed] at h
  | cons item items ih =>
    match hitem : item.deliver policy receiver p c with
    | (.error _, _, _) =>
      rw [handed_cons_error hitem] at h
      rw [deliverItems_cons_error hitem]
      have hlength := congrArg List.length h
      simp only [List.length_cons, List.length_nil, List.length_append] at hlength
      have hafter : after.length = 0 := by omega
      exact ⟨List.length_eq_zero_iff.mp hafter, by simp⟩
    | (.ok (), _, _) =>
      rw [handed_cons_ok hitem] at h
      rw [deliverItems_cons_ok hitem]
      cases before with
      | nil =>
        obtain ⟨rfl, -⟩ := List.cons.inj h
        have hanswer : (policy.report p d).1 = .ok () := congrArg Prod.fst hitem
        exact absurd hanswer (Policy.report_fatal hfatal)
      | cons first before => exact ih (List.cons.inj h).2

/-! ## Logs -/

theorem Policy.report_logged (d : Diagnostic) (log : List Diagnostic) :
    policy.logged.report (p, log) d =
      ((policy.report p d).1, (policy.report p d).2, log ++ [d]) := by
  match hreceive : policy.receive p d.severity d with
  | (.error e, after) => simp only [Policy.report, Policy.logged, hreceive]
  | (.ok (), after) =>
    simp only [Policy.report, Policy.logged, hreceive]
    split <;> rfl

theorem Item.deliver_logged (policy : Policy P) (receiver : Receiver C) (p : P) (c : C)
    (item : Item) (ds : List Diagnostic) (es : List Event) :
    item.deliver policy.logged receiver.logged (p, ds) (c, es) =
      ((item.deliver policy receiver p c).1,
        ((item.deliver policy receiver p c).2.1, ds ++ diagnosticsOf [item]),
        ((item.deliver policy receiver p c).2.2, es ++ eventsOf [item])) := by
  cases item with
  | report d =>
    simp [Item.deliver, Policy.report_logged, diagnosticsOf, eventsOf, diagnostic?, event?]
  | event e => simp [Item.deliver, Receiver.logged, diagnosticsOf, eventsOf, diagnostic?, event?]

theorem deliverItems_logged (items : List Item) (ds : List Diagnostic) (es : List Event) :
    deliverItems policy.logged receiver.logged (p, ds) (c, es) items =
      ((deliverItems policy receiver p c items).1,
        ((deliverItems policy receiver p c items).2.1,
          ds ++ diagnosticsOf (handed policy receiver p c items)),
        ((deliverItems policy receiver p c items).2.2,
          es ++ eventsOf (handed policy receiver p c items))) := by
  induction items generalizing p c ds es with
  | nil => simp [deliverItems, handed, diagnosticsOf, eventsOf]
  | cons item items ih =>
    have hlogged := item.deliver_logged policy receiver p c ds es
    match hitem : item.deliver policy receiver p c with
    | (.error _, _, _) =>
      rw [hitem] at hlogged
      rw [deliverItems_cons_error hlogged, deliverItems_cons_error hitem, handed_cons_error hitem]
    | (.ok (), _, _) =>
      rw [hitem] at hlogged
      rw [deliverItems_cons_ok hlogged, deliverItems_cons_ok hitem, handed_cons_ok hitem, ih]
      simp [diagnosticsOf, eventsOf, ← List.filterMap_append]

end Handed

/-! ## Common states -/

section Common

variable {S α β : Type} {policy : Policy P} {receiver : Receiver C} {p : P} {c : C}

theorem Drive.run_bind (x : Drive S α) (f : α → Drive S β) (s : S) :
    (x >>= f).run.run s =
      match x.run.run s with
      | (.ok a, s) => (f a).run.run s
      | (.error e, s) => (.error e, s) := by
  rw [ExceptT.run_bind, StateT.run_bind]
  match x.run.run s with
  | (.ok _, _) => rfl
  | (.error _, _) => rfl

theorem Policy.report_onFirst (d : Diagnostic) :
    (policy.onFirst C).report (p, c) d = ((policy.report p d).1, (policy.report p d).2, c) := by
  match hreceive : policy.receive p d.severity d with
  | (.error e, after) => simp only [Policy.report, Policy.onFirst, hreceive]
  | (.ok (), after) =>
    simp only [Policy.report, Policy.onFirst, hreceive]
    split <;> rfl

theorem Policy.report_inRow (policy : Policy S) (s : S) (row : List Item) (d : Diagnostic) :
    policy.inRow.report (s, row) d =
      ((policy.report s d).1, (policy.report s d).2, row ++ [.report d]) := by
  match hreceive : policy.receive s d.severity d with
  | (.error e, after) => simp only [Policy.report, Policy.inRow, hreceive]
  | (.ok (), after) =>
    simp only [Policy.report, Policy.inRow, hreceive]
    split <;> rfl

theorem Item.tell_pair (policy : Policy P) (receiver : Receiver C) (p : P) (c : C) (item : Item) :
    (item.tell (policy.onFirst C) (receiver.onSecond P)).run.run (p, c) =
      item.deliver policy receiver p c := by
  cases item with
  | report d => exact Policy.report_onFirst d
  | event e => rfl

theorem Item.tell_inRow (policy : Policy S) (receiver : Receiver S) (s : S) (row : List Item)
    (item : Item) :
    (item.tell policy.inRow receiver.inRow).run.run (s, row) =
      (((item.tell policy receiver).run.run s).1, ((item.tell policy receiver).run.run s).2,
        row ++ [item]) := by
  cases item with
  | report d => exact policy.report_inRow s row d
  | event e => rfl

theorem tellItems_pair (items : List Item) :
    (tellItems (policy.onFirst C) (receiver.onSecond P) items).run.run (p, c) =
      deliverItems policy receiver p c items := by
  induction items generalizing p c with
  | nil => rfl
  | cons item items ih =>
    rw [Drive.tellItems_cons, Drive.run_bind, Item.tell_pair, deliverItems]
    split
    · next h => rw [h]; exact ih
    · next h => rw [h]

/-- Listeners that write down in a row what they are told are handed the same. -/
theorem tellItems_inRow (row items : List Item) :
    (tellItems (policy.onFirst C).inRow (receiver.onSecond P).inRow items).run.run ((p, c), row) =
      ((deliverItems policy receiver p c items).1, (deliverItems policy receiver p c items).2,
        row ++ handed policy receiver p c items) := by
  induction items generalizing p c row with
  | nil => simp [deliverItems, handed]; rfl
  | cons item items ih =>
    rw [Drive.tellItems_cons, Drive.run_bind, Item.tell_inRow, Item.tell_pair]
    match hitem : item.deliver policy receiver p c with
    | (.error _, _, _) =>
      rw [deliverItems_cons_error hitem, handed_cons_error hitem]
    | (.ok (), _, _) =>
      rw [deliverItems_cons_ok hitem, handed_cons_ok hitem]
      dsimp only
      rw [ih, List.append_assoc]
      rfl

end Common

/-! ## Two policies -/

section Policies

variable {policy : Policy P} {other : Policy Q} {receiver : Receiver C} {p : P} {q : Q} {c : C}
  {items : List Item}

theorem diagnosticsOf_cons_report (d : Diagnostic) (items : List Item) :
    diagnosticsOf (.report d :: items) = d :: diagnosticsOf items := rfl

theorem diagnosticsOf_cons_event (e : Event) (items : List Item) :
    diagnosticsOf (.event e :: items) = diagnosticsOf items := rfl

theorem Item.deliver_event {e : Event} {c' : C} {answer : Except ReadFailure Unit}
    (h : receiver.receive c e = (answer, c')) :
    Item.deliver policy receiver p c (.event e) = (answer, p, c') := by
  simp [Item.deliver, h]

/-- The first item reaches its listener, whoever that is. -/
theorem handed_cons (policy : Policy P) (receiver : Receiver C) (p : P) (c : C) (item : Item)
    (items : List Item) :
    ∃ rest, handed policy receiver p c (item :: items) = item :: rest := by
  match hitem : item.deliver policy receiver p c with
  | (.error _, _, _) => exact ⟨[], handed_cons_error hitem items⟩
  | (.ok (), _, _) => exact ⟨_, handed_cons_ok hitem items⟩

theorem handed_first {item first : Item} {rest : List Item}
    (h : handed policy receiver p c (item :: items) = first :: rest) : item = first := by
  obtain ⟨more, hmore⟩ := handed_cons policy receiver p c item items
  rw [hmore] at h
  exact (List.cons.inj h).1

/-- As long as nothing is reported, the policy does not matter. -/
theorem handed_silent (other : Policy Q) (q : Q)
    (h : diagnosticsOf (handed policy receiver p c items) = []) :
    handed other receiver q c items = handed policy receiver p c items ∧
      (deliverItems other receiver q c items).1 = (deliverItems policy receiver p c items).1 := by
  induction items generalizing p q c with
  | nil => exact ⟨rfl, rfl⟩
  | cons item items ih =>
    cases item with
    | report d =>
      obtain ⟨rest, hrest⟩ := handed_cons policy receiver p c (.report d) items
      rw [hrest, diagnosticsOf_cons_report] at h
      cases h
    | event e =>
      match hreceive : receiver.receive c e with
      | (.error _, _) =>
        rw [handed_cons_error (Item.deliver_event hreceive),
          handed_cons_error (Item.deliver_event hreceive),
          deliverItems_cons_error (Item.deliver_event hreceive),
          deliverItems_cons_error (Item.deliver_event hreceive)]
        exact ⟨rfl, rfl⟩
      | (.ok (), _) =>
        rw [handed_cons_ok (Item.deliver_event hreceive), diagnosticsOf_cons_event] at h
        rw [handed_cons_ok (Item.deliver_event hreceive),
          handed_cons_ok (Item.deliver_event hreceive),
          deliverItems_cons_ok (Item.deliver_event hreceive),
          deliverItems_cons_ok (Item.deliver_event hreceive)]
        obtain ⟨hrest, hanswer⟩ := ih q h
        exact ⟨congrArg _ hrest, hanswer⟩

/-- A policy that gives up on the first diagnostic of another run has been handed what came before
it, and the diagnostic. -/
theorem handed_refused {before after : List Item} {d : Diagnostic} {e : ReadFailure}
    (h : handed policy receiver p c items = before ++ .report d :: after)
    (hbefore : diagnosticsOf before = []) (hrefused : (other.report q d).1 = .error e) :
    handed other receiver q c items = before ++ [.report d] ∧
      (deliverItems other receiver q c items).1 = .error e := by
  -- The two runs go in step up to `d`: before it no policy is asked.
  induction items generalizing p c before with
  | nil => simp [handed] at h
  | cons item items ih =>
    cases before with
    | nil =>
      obtain rfl := handed_first h
      have hitem : Item.deliver other receiver q c (.report d) =
          (.error e, (other.report q d).2, c) := by
        simp [Item.deliver, hrefused]
      rw [handed_cons_error hitem, deliverItems_cons_error hitem]
      exact ⟨rfl, rfl⟩
    | cons first before =>
      obtain rfl := handed_first h
      cases item with
      | report d => cases hbefore
      | event event =>
        match hreceive : receiver.receive c event with
        | (.error _, _) =>
          rw [handed_cons_error (Item.deliver_event hreceive)] at h
          simp at h
        | (.ok (), _) =>
          rw [handed_cons_ok (Item.deliver_event hreceive)] at h
          rw [handed_cons_ok (Item.deliver_event hreceive),
            deliverItems_cons_ok (Item.deliver_event hreceive)]
          obtain ⟨hrest, hanswer⟩ := ih (List.cons.inj h).2 hbefore
          exact ⟨congrArg _ hrest, hanswer⟩

/-- The diagnostics that were handed over, from the first one on. -/
theorem diagnosticsOf_eq_cons {d : Diagnostic} {ds : List Diagnostic} {items : List Item}
    (h : diagnosticsOf items = d :: ds) :
    ∃ before after, items = before ++ .report d :: after ∧ diagnosticsOf before = [] := by
  obtain ⟨before, item, after, rfl, hbefore, hitem, -⟩ := List.filterMap_eq_cons_iff.mp h
  cases item with
  | event _ => cases hitem
  | report found =>
    obtain rfl := Option.some.inj hitem
    exact ⟨before, after, rfl, List.filterMap_eq_nil_iff.mpr hbefore⟩

/-- The collecting policy keeps a record of all it is told. -/
theorem collecting_record (receiver : Receiver C) (c : C) (items : List Item)
    (record : List Diagnostic) :
    (deliverItems Ledger.policy receiver ⟨.collecting, record⟩ c items).2.1.record =
      record ++ diagnosticsOf (handed Ledger.policy receiver ⟨.collecting, record⟩ c items) := by
  induction items generalizing record c with
  | nil => simp [deliverItems, handed, diagnosticsOf]
  | cons item items ih =>
    cases item with
    | event e =>
      match hreceive : receiver.receive c e with
      | (.error _, _) =>
        rw [handed_cons_error (Item.deliver_event hreceive),
          deliverItems_cons_error (Item.deliver_event hreceive), diagnosticsOf_cons_event]
        simp [diagnosticsOf]
      | (.ok (), _) =>
        rw [handed_cons_ok (Item.deliver_event hreceive),
          deliverItems_cons_ok (Item.deliver_event hreceive), diagnosticsOf_cons_event, ih]
    | report d =>
      by_cases hfatal : d.severity = .fatal
      · have hitem : Item.deliver Ledger.policy receiver ⟨.collecting, record⟩ c (.report d) =
            (.error (.invalid d), ⟨.collecting, record ++ [d]⟩, c) := by
          simp [Item.deliver, Policy.report, Ledger.policy, Ledger.receive, hfatal]
        rw [handed_cons_error hitem, deliverItems_cons_error hitem]
        rfl
      · have hitem : Item.deliver Ledger.policy receiver ⟨.collecting, record⟩ c (.report d) =
            (.ok (), ⟨.collecting, record ++ [d]⟩, c) := by
          simp [Item.deliver, Policy.report, Ledger.policy, Ledger.receive, hfatal]
        rw [handed_cons_ok hitem, deliverItems_cons_ok hitem, diagnosticsOf_cons_report, ih]
        simp

theorem failFast_refuses (l : Ledger) (h : l.stance = .failFast) (d : Diagnostic) :
    (Ledger.policy.report l d).1 = .error (.invalid d) := by
  simp [Policy.report, Ledger.policy, Ledger.receive, h]

end Policies

/-! ## Readers -/

theorem Transcript.deliver_eq (t : Transcript) (policy : Policy P) (receiver : Receiver C) (p : P)
    (c : C) :
    t.deliver policy receiver p c =
      ((deliverItems policy receiver p c t.items).1 >>= fun _ =>
          (t.failure.map Except.error).getD (.ok ()),
        (deliverItems policy receiver p c t.items).2) := by
  unfold Transcript.deliver
  match deliverItems policy receiver p c t.items with
  | (.error _, _, _) => rfl
  | (.ok (), _, _) => cases t.failure <;> rfl

theorem Transcript.tell_pair (t : Transcript) (policy : Policy P) (receiver : Receiver C) (p : P)
    (c : C) :
    (t.tell (policy.onFirst C) (receiver.onSecond P)).run.run (p, c) =
      t.deliver policy receiver p c := by
  rw [Transcript.tell, Drive.run_bind, tellItems_pair, Transcript.deliver]
  obtain ⟨answer, p', c'⟩ := deliverItems policy receiver p c t.items
  cases answer with
  | error e => rfl
  | ok _ => cases t.failure <;> rfl

theorem Transcript.tell_inRow (t : Transcript) (policy : Policy P) (receiver : Receiver C) (p : P)
    (c : C) :
    (t.tell (policy.onFirst C).inRow (receiver.onSecond P).inRow).run.run ((p, c), []) =
      ((t.deliver policy receiver p c).1, (t.deliver policy receiver p c).2,
        handed policy receiver p c t.items) := by
  rw [Transcript.tell, Drive.run_bind, tellItems_inRow, Transcript.deliver, List.nil_append]
  obtain ⟨answer, p', c'⟩ := deliverItems policy receiver p c t.items
  cases answer with
  | error e => rfl
  | ok _ => cases t.failure <;> rfl

theorem Transcript.deliver_logged (t : Transcript) (policy : Policy P) (receiver : Receiver C)
    (p : P) (c : C) (ds : List Diagnostic) (es : List Event) :
    t.deliver policy.logged receiver.logged (p, ds) (c, es) =
      ((t.deliver policy receiver p c).1,
        ((t.deliver policy receiver p c).2.1,
          ds ++ diagnosticsOf (handed policy receiver p c t.items)),
        ((t.deliver policy receiver p c).2.2,
          es ++ eventsOf (handed policy receiver p c t.items))) := by
  rw [t.deliver_eq, t.deliver_eq, deliverItems_logged]

/-- A transcript that is carried out without a failure is carried out to its end, and has nothing
fatal in it. -/
theorem Transcript.complete_of_ok {t : Transcript} {policy : Policy P} {receiver : Receiver C}
    {p : P} {c : C} (h : (t.deliver policy receiver p c).1 = .ok ()) :
    handed policy receiver p c t.items = t.items ∧ t.failure = none ∧
      ∀ d, .report d ∈ t.items → d.severity ≠ .fatal := by
  rw [t.deliver_eq] at h
  match hitems : (deliverItems policy receiver p c t.items).1 with
  | .error e =>
    rw [hitems] at h
    cases h
  | .ok () =>
    have hhanded := handed_eq_of_ok hitems
    refine ⟨hhanded, ?_, fun d hd hfatal => ?_⟩
    · rw [hitems] at h
      cases hfailure : t.failure with
      | none => rfl
      | some e =>
        rw [hfailure] at h
        cases h
    · obtain ⟨before, after, hsplit⟩ := List.append_of_mem hd
      exact (handed_fatal (hhanded.trans hsplit) hfatal).2 hitems

namespace DocumentReader

variable [Text.Decoders]

/-- What a reader hands over, diagnostics and events in one row. -/
def handed (r : DocumentReader) (input : Input) (policy : Policy P) (receiver : Receiver C) (p : P)
    (c : C) : List Item :=
  ((r.drive input (policy.onFirst C).inRow (receiver.onSecond P).inRow).run.run ((p, c), [])).2.2

variable {r : DocumentReader} {input : Input}

theorem parse_of_error {e : ReadFailure} (h : r.transcript input = .error e) (policy : Policy P)
    (receiver : Receiver C) (p : P) (c : C) :
    r.parse input policy receiver p c = (.error e, p, c) := by
  rw [parse, drive_eq, h]
  rfl

theorem parse_of_transcript {t : Transcript} (h : r.transcript input = .ok t) (policy : Policy P)
    (receiver : Receiver C) (p : P) (c : C) :
    r.parse input policy receiver p c = t.deliver policy receiver p c := by
  rw [parse, drive_eq, h]
  exact t.tell_pair policy receiver p c

theorem handed_of_error {e : ReadFailure} (h : r.transcript input = .error e) (policy : Policy P)
    (receiver : Receiver C) (p : P) (c : C) :
    r.handed input policy receiver p c = [] := by
  rw [handed, drive_eq, h]
  rfl

theorem handed_of_transcript {t : Transcript} (h : r.transcript input = .ok t) (policy : Policy P)
    (receiver : Receiver C) (p : P) (c : C) :
    r.handed input policy receiver p c = ScopedXml.handed policy receiver p c t.items := by
  rw [handed, drive_eq, h]
  exact congrArg (·.2.2) (t.tell_inRow policy receiver p c)

/-- Listeners that write down in a row what they are told change nothing else. -/
theorem drive_inRow (r : DocumentReader) (input : Input) (policy : Policy P) (receiver : Receiver C)
    (p : P) (c : C) :
    (r.drive input (policy.onFirst C).inRow (receiver.onSecond P).inRow).run.run ((p, c), []) =
      ((r.parse input policy receiver p c).1, (r.parse input policy receiver p c).2,
        r.handed input policy receiver p c) := by
  match htranscript : r.transcript input with
  | .error e =>
    rw [parse_of_error htranscript, handed_of_error htranscript, drive_eq, htranscript]
    rfl
  | .ok t =>
    rw [parse_of_transcript htranscript, handed_of_transcript htranscript, drive_eq, htranscript]
    exact t.tell_inRow policy receiver p c

/-- What there is to be handed over, and how reading ends of itself, do not depend on who
listens. -/
theorem exists_items (r : DocumentReader) (input : Input) :
    ∃ (items : List Item) (ending : Except ReadFailure Unit),
      ∀ {P C : Type} (policy : Policy P) (receiver : Receiver C) (p : P) (c : C),
        r.handed input policy receiver p c = ScopedXml.handed policy receiver p c items ∧
          r.parse input policy receiver p c =
            ((deliverItems policy receiver p c items).1 >>= fun _ => ending,
              (deliverItems policy receiver p c items).2) := by
  match htranscript : r.transcript input with
  | .error e =>
    refine ⟨[], .error e, fun policy receiver p c => ⟨?_, ?_⟩⟩
    · rw [handed_of_error htranscript]
      rfl
    · rw [parse_of_error htranscript]
      rfl
  | .ok t =>
    refine ⟨t.items, (t.failure.map Except.error).getD (.ok ()),
      fun policy receiver p c => ⟨?_, ?_⟩⟩
    · rw [handed_of_transcript htranscript]
    · rw [parse_of_transcript htranscript]
      exact t.deliver_eq policy receiver p c

/-- A policy only decides when to stop. What a reader hands over is what the listeners would log, in
common or each for itself, and that they do so changes nothing; under two policies the one row
begins with the other; a fatal diagnostic ends it and the parse. The policy that gives up at once
stops at the first diagnostic that the collecting policy records, and if there is none the two parse
alike. -/
theorem handed_policies (r : DocumentReader) (input : Input) (receiver : Receiver C) (c : C) :
    (∀ (P : Type) (policy : Policy P) (p : P),
      (r.drive input (policy.onFirst C).inRow (receiver.onSecond P).inRow).run.run ((p, c), []) =
          ((r.parse input policy receiver p c).1, (r.parse input policy receiver p c).2,
            r.handed input policy receiver p c) ∧
        r.parse input policy.logged receiver.logged (p, []) (c, []) =
          ((r.parse input policy receiver p c).1,
            ((r.parse input policy receiver p c).2.1,
              diagnosticsOf (r.handed input policy receiver p c)),
            ((r.parse input policy receiver p c).2.2,
              eventsOf (r.handed input policy receiver p c))) ∧
        ∀ before d after,
          r.handed input policy receiver p c = before ++ .report d :: after →
          d.severity = .fatal →
          after = [] ∧ ∃ e, (r.parse input policy receiver p c).1 = .error e) ∧
    (∀ (P Q : Type) (policy : Policy P) (other : Policy Q) (p : P) (q : Q),
      r.handed input policy receiver p c <+: r.handed input other receiver q c ∨
        r.handed input other receiver q c <+: r.handed input policy receiver p c) ∧
    (∀ d ds,
      (r.parse input Ledger.policy receiver (.fresh .collecting) c).2.1.record = d :: ds →
      (r.parse input Ledger.policy receiver (.fresh .failFast) c).1 = .error (.invalid d) ∧
        ∃ before after,
          r.handed input Ledger.policy receiver (.fresh .collecting) c =
              before ++ .report d :: after ∧
            diagnosticsOf before = [] ∧
            r.handed input Ledger.policy receiver (.fresh .failFast) c = before ++ [.report d]) ∧
    ((r.parse input Ledger.policy receiver (.fresh .collecting) c).2.1.record = [] →
      r.handed input Ledger.policy receiver (.fresh .failFast) c =
          r.handed input Ledger.policy receiver (.fresh .collecting) c ∧
        (r.parse input Ledger.policy receiver (.fresh .failFast) c).1 =
          (r.parse input Ledger.policy receiver (.fresh .collecting) c).1) := by
  obtain ⟨items, ending, hrun⟩ := r.exists_items input
  have hhanded {P C : Type} (policy : Policy P) (receiver : Receiver C) (p : P) (c : C) :=
    (hrun policy receiver p c).1
  have hparse {P C : Type} (policy : Policy P) (receiver : Receiver C) (p : P) (c : C) :=
    (hrun policy receiver p c).2
  have hrow (P : Type) (policy : Policy P) (p : P) := r.drive_inRow input policy receiver p c
  simp only [hhanded, hparse] at hrow ⊢
  have hrecord := collecting_record receiver c items []
  rw [List.nil_append] at hrecord
  refine ⟨fun P policy p => ⟨hrow P policy p, ?logs, ?fatal⟩, ?prefixes, ?strict, ?silent⟩
  case logs => rw [deliverItems_logged]; rfl
  case fatal =>
    intro before d after hreport hfatal
    obtain ⟨hafter, hfailed⟩ := handed_fatal hreport hfatal
    refine ⟨hafter, ?_⟩
    match hanswer : (deliverItems policy receiver p c items).1 with
    | .error e => exact ⟨e, rfl⟩
    | .ok () => exact absurd hanswer hfailed
  case prefixes =>
    intro P Q policy other p q
    exact List.prefix_or_prefix_of_prefix (handed_isPrefix items) (handed_isPrefix items)
  case strict =>
    intro d ds hfirst
    obtain ⟨before, after, hcollecting, hbefore⟩ :=
      diagnosticsOf_eq_cons (hrecord.symm.trans hfirst)
    obtain ⟨hstrict, hanswer⟩ :=
      handed_refused hcollecting hbefore (failFast_refuses (.fresh .failFast) rfl d)
    rw [hanswer]
    exact ⟨rfl, before, after, hcollecting, hbefore, hstrict⟩
  case silent =>
    intro hnone
    obtain ⟨hstrict, hanswer⟩ :=
      handed_silent Ledger.policy (.fresh .failFast) (hrecord.symm.trans hnone)
    rw [hanswer]
    exact ⟨hstrict, rfl⟩

end DocumentReader

end ScopedXml
