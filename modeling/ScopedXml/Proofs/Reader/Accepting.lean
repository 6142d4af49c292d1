import ScopedXml.Proofs.Reader.Ending

/-!
# Listeners that accept everything

A reading that reports a fatal diagnostic ends there, and in no failure of its own
(`Reading.run_fatal`). Before listeners that accept everything, a document is therefore malformed
if and only if its transcript says so (`Transcript.deliver_accepting_malformed`).
-/

namespace ScopedXml

open Markup

/-- A policy that accepts every diagnostic. -/
def Policy.accepting : Policy Unit := ⟨fun _ _ _ => (.ok (), ())⟩

/-- A receiver that accepts every event. -/
def Receiver.accepting : Receiver Unit := ⟨fun _ _ => (.ok (), ())⟩

theorem Policy.report_accepting (d : Diagnostic) :
    Policy.accepting.report () d =
      (if d.severity = .fatal then .error (.invalid d) else .ok (), ()) := by
  rw [Policy.report, Policy.accepting]
  split
  · next h => cases h
  · split <;> rfl

/-- What a list of items reports as fatal, if anything. -/
def firstFatal? (items : List Item) : Option Diagnostic :=
  (diagnosticsOf items).find? fun d => d.severity = .fatal

/-- Before listeners that accept everything, only a fatal diagnostic ends the row. -/
theorem deliverItems_accepting (items : List Item) :
    (deliverItems .accepting .accepting () () items).1 =
      match firstFatal? items with
      | some d => .error (.invalid d)
      | none => .ok () := by
  induction items with
  | nil => rfl
  | cons item items ih =>
    cases item with
    | event e =>
      have hitem : (Item.event e).deliver .accepting .accepting () () = (.ok (), (), ()) := rfl
      rw [deliverItems_cons_ok hitem, ih]
      rfl
    | report d =>
      by_cases hfatal : d.severity = .fatal
      · have hitem : (Item.report d).deliver .accepting .accepting () () =
            (.error (.invalid d), (), ()) := by
          rw [Item.deliver, Policy.report_accepting, if_pos hfatal]
        have hfirst : firstFatal? (.report d :: items) = some d :=
          List.find?_cons_of_pos (by simp [hfatal])
        rw [deliverItems_cons_error hitem, hfirst]
      · have hitem : (Item.report d).deliver .accepting .accepting () () = (.ok (), (), ()) := by
          rw [Item.deliver, Policy.report_accepting, if_neg hfatal]
        have hfirst : firstFatal? (.report d :: items) = firstFatal? items :=
          List.find?_cons_of_neg (by simp [hfatal])
        rw [deliverItems_cons_ok hitem, hfirst, ih]

theorem Transcript.deliver_accepting_malformed {t : Transcript} {p : Nat} {message : String}
    (hfatal : ∀ d, .report d ∈ t.items → d.severity = .fatal → t.failure = none) :
    (t.deliver .accepting .accepting () ()).1 = .error (.malformed p message) ↔
      t.failure = some (.malformed p message) := by
  have hitems := deliverItems_accepting t.items
  rw [Transcript.deliver]
  generalize deliverItems .accepting .accepting () () t.items = delivered at hitems
  obtain ⟨answer, p', c'⟩ := delivered
  dsimp only at hitems
  subst hitems
  cases hfirst : firstFatal? t.items with
  | none =>
    cases t.failure with
    | none => simp
    | some e => simp
  | some d =>
    have hmem : d ∈ diagnosticsOf t.items := List.mem_of_find?_eq_some hfirst
    obtain ⟨item, hitem, hd⟩ := List.mem_filterMap.mp hmem
    have hreport : item = .report d := by
      cases item with
      | event e => cases hd
      | report d' => exact congrArg _ (Option.some.inj hd)
    have hsevere := List.find?_some (p := fun d : Diagnostic => d.severity = .fatal) hfirst
    have hnone := hfatal d (hreport ▸ hitem) (of_decide_eq_true hsevere)
    simp [hnone]

namespace Reading

variable {schema : Schema} {origin : Origin} {setup : LexerSetup} {r r' : Reading} {l : Lexer}
  {d : Diagnostic}

/-- If anything in it is fatal, it ends the reading. -/
def EndsIfFatal (o : Outcome) : Prop :=
  ∀ d, .report d ∈ o.items → d.severity = .fatal → o.onward = .stop none

theorem severity_of_reports {p : Nat} {findings : List Schema.Finding}
    (h : .report d ∈ r.reports p findings) : d.severity ≠ .fatal := by
  obtain ⟨finding, -, hfinding⟩ := List.mem_map.mp h
  obtain rfl := Item.report.inj hfinding
  cases finding <;> simp [diagnostic, Schema.Finding.severity]

theorem endsIfFatal_told (p : Nat) (findings : List Schema.Finding) (event : Event)
    (onward : Onward) : EndsIfFatal ⟨r.reports p findings ++ [.event event], onward⟩ := by
  intro d hd hfatal
  rcases List.mem_append.mp hd with hd | hd
  · exact absurd hfatal (severity_of_reports hd)
  · simp at hd

theorem endsIfFatal_event (event : Event) (onward : Onward) :
    EndsIfFatal ⟨[.event event], onward⟩ := by
  intro d hd
  simp at hd

theorem endsIfFatal_nothing (onward : Onward) : EndsIfFatal ⟨[], onward⟩ := by
  intro d hd
  cases hd

theorem endsIfFatal_fatal (p : Nat) (fault : DocumentFault) : EndsIfFatal (r.fatal p fault) :=
  fun _ _ _ => rfl

theorem endsIfFatal_orFail {α : Type} (result : Except ReadFailure α) {f : α → Outcome}
    (hf : ∀ a, EndsIfFatal (f a)) : EndsIfFatal (orFail result f) := by
  cases result with
  | error e => exact endsIfFatal_nothing _
  | ok a => exact hf a

theorem openElement_endsIfFatal (p : Nat) (name : String) (attributes : List WrittenAttribute) :
    EndsIfFatal (openElement schema r p name attributes) := by
  unfold openElement
  split
  · exact endsIfFatal_fatal p _
  · split
    · exact endsIfFatal_fatal p _
    · split
      · exact endsIfFatal_fatal p _
      · dsimp only
        split
        · exact endsIfFatal_event _ _
        · exact endsIfFatal_told _ _ _ _

theorem closeElement_endsIfFatal (p : Nat) (written : String) :
    EndsIfFatal (closeElement schema r p written) := by
  unfold closeElement
  split
  · exact endsIfFatal_fatal p _
  · split
    · exact endsIfFatal_event _ _
    · exact endsIfFatal_told _ _ _ _

theorem characters_endsIfFatal (p : Nat) (s : String) : EndsIfFatal (r.characters p s) := by
  unfold characters
  split
  · exact endsIfFatal_nothing _
  · split
    · split
      · exact endsIfFatal_nothing _
      · exact endsIfFatal_fatal p _
    · split
      · exact endsIfFatal_event _ _
      · exact endsIfFatal_told _ _ _ _

theorem step_endsIfFatal [Text.Decoders] (x : Lexeme) : EndsIfFatal (r.step schema origin x) := by
  unfold step
  split
  · exact endsIfFatal_orFail _ fun _ => openElement_endsIfFatal _ _ _
  · exact endsIfFatal_orFail _ fun _ => closeElement_endsIfFatal _ _
  · exact endsIfFatal_orFail _ (characters_endsIfFatal _)
  · exact endsIfFatal_orFail _ (characters_endsIfFatal _)
  · exact endsIfFatal_orFail _ fun _ => endsIfFatal_nothing _
  · exact endsIfFatal_orFail _ fun _ => endsIfFatal_nothing _
  · exact endsIfFatal_nothing _
  · exact endsIfFatal_nothing _

theorem finish_endsIfFatal [Text.Decoders] (p : Nat) (fault : Option LexFault) :
    EndsIfFatal (r.finish p fault) := by
  unfold finish
  split
  · exact endsIfFatal_orFail _ (endsIfFatal_fatal p)
  · split
    · exact endsIfFatal_fatal p _
    · split
      · exact endsIfFatal_event _ _
      · exact endsIfFatal_fatal p _

/-- A fatal diagnostic takes the place of a failure. -/
theorem run_fatal [Text.Decoders] (p : Nat) (fault : Option LexFault) (lexemes : List Lexeme)
    (hd : .report d ∈ (run schema origin p fault r lexemes).items) (hfatal : d.severity = .fatal) :
    (run schema origin p fault r lexemes).failure = none := by
  induction lexemes generalizing r with
  | nil =>
    have hends : EndsIfFatal (r.finish p fault) := finish_endsIfFatal p fault
    unfold run at hd ⊢
    cases honward : (r.finish p fault).onward with
    | stop failure =>
      simp only [honward] at hd ⊢
      exact Onward.stop.inj (honward.symm.trans (hends d hd hfatal))
    | «continue» r' => simp only [honward]
  | cons x lexemes ih =>
    have hends : EndsIfFatal (r.step schema origin x) := step_endsIfFatal x
    unfold run at hd ⊢
    cases honward : (r.step schema origin x).onward with
    | stop failure =>
      simp only [honward] at hd ⊢
      exact Onward.stop.inj (honward.symm.trans (hends d hd hfatal))
    | «continue» r' =>
      simp only [honward] at hd ⊢
      rcases List.mem_append.mp hd with hd | hd
      · have hstop := hends d hd hfatal
        rw [honward] at hstop
        cases hstop
      · exact ih hd

end Reading

/-- Whatever a document reports as fatal takes the place of a failure. -/
theorem transcriptOf_fatal [Text.Decoders] {schema : Option Schema} {origin : Origin}
    {lexing : Lexing} {d : Diagnostic} (hd : .report d ∈ (transcriptOf schema origin lexing).items)
    (hfatal : d.severity = .fatal) : (transcriptOf schema origin lexing).failure = none := by
  rcases List.mem_cons.mp hd with hstart | hd
  · cases hstart
  · exact Reading.run_fatal _ _ _ hd hfatal

end ScopedXml
