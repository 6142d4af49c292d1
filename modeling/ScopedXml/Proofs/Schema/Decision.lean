import ScopedXml.Proofs.Schema.Validity

/-!
# A validator decides validity

* `Validator.run`: a validator over many events, with all that it finds.
* `Validator.Clean`, `Validator.Closes`: what a frame holds while nothing has been found, and what
  the rest of its content has to be so that nothing ever will.
* `Validator.findings_eq_nil_iff_valid`: nothing is found exactly if the document is valid.
-/

namespace ScopedXml.Schema

open Content (Particle Progress)

/-! ## Attributes -/

section Attributes

variable {schema : Schema} {t : ComplexType} {element : String} {attributes : Attributes}

theorem Validator.isInstance_iff {a : Attribute} :
    Validator.isInstance a = true ↔ a.name.space = some instanceUri := by
  simp [Validator.isInstance]

theorem Validator.useRule?_eq_some_iff {use : AttributeUse} {rule : ValueRule} :
    Validator.useRule? schema use = some rule ↔
      ∃ type, useType? schema use = some type ∧ schema.resolveValue type = .value rule := by
  unfold Validator.useRule? useType?
  cases use.type with
  | some type => cases hres : schema.resolveValue type <;> simp [hres]
  | none =>
    cases schema.attr? use.space use.name with
    | none => simp
    | some a => cases hres : schema.resolveValue a.type <;> simp [hres]

theorem Validator.checkUse_eq_nil_iff {use : AttributeUse} :
    Validator.checkUse schema element attributes use = [] ↔
      (use.required = true → attributes.getIn? use.space use.name ≠ none) ∧
      ∀ value, attributes.getIn? use.space use.name = some value →
        ∀ type rule, useType? schema use = some type → schema.resolveValue type = .value rule →
          rule.accepts value = true := by
  rw [Validator.checkUse]
  cases attributes.getIn? use.space use.name with
  | none => cases use.required <;> simp
  | some value =>
    have hrules : (∀ type rule, useType? schema use = some type →
        schema.resolveValue type = .value rule → rule.accepts value = true) ↔
        ∀ rule, Validator.useRule? schema use = some rule → rule.accepts value = true := by
      constructor
      · intro h rule hrule
        obtain ⟨type, htype, hres⟩ := Validator.useRule?_eq_some_iff.mp hrule
        exact h type rule htype hres
      · intro h type rule htype hres
        exact h rule (Validator.useRule?_eq_some_iff.mpr ⟨type, htype, hres⟩)
    dsimp only
    cases hrule : Validator.useRule? schema use with
    | none => simp [hrules, hrule]
    | some rule => cases hacc : rule.accepts value <;> simp [hrules, hrule, hacc]

theorem Validator.checkAttributes_eq_nil_iff :
    Validator.checkAttributes schema t element attributes = [] ↔
      ValidAttributes schema t attributes := by
  have hdeclares : ∀ a, Validator.declares t a = true ↔
      ∃ use ∈ t.attributes, a.name.denotes use.space use.name = true := fun a => by
    simp [Validator.declares]
  have hundeclared : (if t.anyAttribute then []
      else (attributes.toList.filter fun a =>
        !Validator.isInstance a && !Validator.declares t a).map fun a =>
          Finding.undeclaredAttribute a.name.written element) = [] ↔
      (t.anyAttribute = true ∨ ∀ a ∈ attributes.toList, a.name.space = some instanceUri ∨
        ∃ use ∈ t.attributes, a.name.denotes use.space use.name = true) := by
    cases t.anyAttribute with
    | true => simp
    | false =>
      simp only [Bool.false_eq_true, if_false, List.map_eq_nil_iff, List.filter_eq_nil_iff,
        Bool.and_eq_true, Bool.not_eq_true', not_and, Bool.not_eq_false, false_or]
      refine forall₂_congr fun a _ => ?_
      rw [← Validator.isInstance_iff, ← hdeclares]
      cases Validator.isInstance a <;> simp
  rw [Validator.checkAttributes, List.append_eq_nil_iff, List.flatMap_eq_nil_iff, hundeclared]
  simp only [Validator.checkUse_eq_nil_iff]
  constructor
  · rintro ⟨huse, hdeclared⟩
    exact ⟨fun use h => (huse use h).1, fun use h => (huse use h).2, hdeclared⟩
  · rintro ⟨hrequired, haccepted, hdeclared⟩
    exact ⟨fun use h => ⟨hrequired use h, haccepted use h⟩, hdeclared⟩

theorem Validator.undeclared_eq_nil_iff :
    Validator.undeclared element attributes = [] ↔
      ∀ a ∈ attributes.toList, a.name.space = some instanceUri := by
  simp [Validator.undeclared, Validator.isInstance]

end Attributes

/-! ## Frames -/

namespace Validator

/-- Nothing has been found in the element of this frame so far. -/
def Clean : Frame → Prop
  | .complex _ t progress failed text strayed =>
    failed = false ∧ strayed = false ∧ (t.textType = none → text = "") ∧
      ∀ p ∈ t.content, progress.Shaped p
  | _ => True

/-- Nothing will be found in the element of this frame if its content goes on like this. -/
def Closes (schema : Schema) : Frame → List Node → Prop
  | .skipped, _ => True
  | .simple _ rule text, content =>
    (∀ n ∈ content, n.isText = true) ∧ rule.accepts (text ++ Node.directText content) = true
  | .complex _ t progress _ text _, content =>
    ValidChildren schema t.content progress content ∧
      ValidText schema t (text ++ Node.directText content)

variable {schema : Schema}

/-- A frame for a type closes exactly with what is valid for the type. -/
theorem frameFor_closes_iff {name : String} {attributes : Attributes} {type : ElementType}
    {content : List Node} :
    (frameFor schema name attributes (some type)).1 = [] ∧
        Closes schema (frameFor schema name attributes (some type)).2 content ↔
      ValidAs schema type attributes content := by
  rw [frameFor, Option.map_some]
  cases hres : schema.resolve type with
  | anything => exact ⟨fun _ => .anything hres, fun _ => ⟨rfl, trivial⟩⟩
  | unknown n =>
    refine ⟨fun h => (nomatch h.1), fun h => ?_⟩
    cases h <;> simp_all
  | value rule =>
    simp only [Closes, undeclared_eq_nil_iff, String.empty_append]
    constructor
    · rintro ⟨hattributes, htext, haccepts⟩
      exact .value hres hattributes htext haccepts
    · intro h
      cases h with
      | anything h => simp_all
      | value h hattributes htext haccepts =>
        cases hres.symm.trans h
        exact ⟨hattributes, htext, haccepts⟩
      | complex h => simp_all
  | complex t =>
    simp only [Closes, checkAttributes_eq_nil_iff, String.empty_append]
    constructor
    · rintro ⟨hattributes, hchildren, htext⟩
      exact .complex hres hattributes htext hchildren
    · intro h
      cases h with
      | anything h => simp_all
      | value h => simp_all
      | complex h hattributes htext hchildren =>
        cases hres.symm.trans h
        exact ⟨hattributes, hchildren, htext⟩

theorem clean_frameFor (schema : Schema) (name : String) (attributes : Attributes)
    (type : Option ElementType) : Clean (frameFor schema name attributes type).2 := by
  rw [frameFor]
  cases type.map schema.resolve with
  | none => exact trivial
  | some r =>
    cases r with
    | complex t => exact ⟨rfl, rfl, fun _ => rfl, fun p _ => Content.Progress.shaped_fresh p⟩
    | value rule => exact trivial
    | anything => exact trivial
    | unknown n => exact trivial

/-- The frame of a child closes exactly with what is valid for the leaf that takes it. -/
theorem typeOf_closes_iff {name : String} {attributes : Attributes} {leaf : Term}
    {content : List Node} :
    ((typeOf schema leaf).1 = [] ∧
      (frameFor schema name attributes (typeOf schema leaf).2).1 = [] ∧
        Closes schema (frameFor schema name attributes (typeOf schema leaf).2).2 content) ↔
      ValidChild schema leaf attributes content := by
  cases leaf with
  | element n space type =>
    simp only [typeOf, true_and, frameFor_closes_iff]
    refine ⟨.element, fun h => ?_⟩
    cases h
    assumption
  | ref n space =>
    rw [typeOf]
    cases hd : schema.element? space n with
    | none =>
      refine ⟨fun h => (nomatch h.1), fun h => ?_⟩
      cases h with
      | ref hd' => exact nomatch hd.symm.trans hd'
    | some d =>
      simp only [true_and, frameFor_closes_iff]
      refine ⟨.ref hd, fun h => ?_⟩
      cases h with
      | ref hd' h =>
        cases hd.symm.trans hd'
        exact h
  | wildcard w => exact ⟨fun _ => .wildcard, fun _ => ⟨rfl, rfl, trivial⟩⟩

/-! ## Events -/

/-- What a validator does with one event. The reader tells it nothing of where documents begin and
end. -/
def step (schema : Schema) (v : Validator) : Event → List Finding × Validator
  | .startElement name attributes => v.startElement schema name attributes
  | .characters s => v.characters s
  | .endElement _ => v.endElement schema
  | _ => ([], v)

/-- All that a validator finds in some events, and the validator behind them. -/
def run (schema : Schema) (v : Validator) : List Event → List Finding × Validator
  | [] => ([], v)
  | e :: events =>
    let (findings, v) := v.step schema e
    let (more, v) := run schema v events
    (findings ++ more, v)

theorem run_cons (schema : Schema) (v : Validator) (e : Event) (events : List Event) :
    run schema v (e :: events) =
      ((v.step schema e).1 ++ (run schema (v.step schema e).2 events).1,
        (run schema (v.step schema e).2 events).2) := rfl

theorem run_append (schema : Schema) (v : Validator) (events more : List Event) :
    run schema v (events ++ more) =
      ((run schema v events).1 ++ (run schema (run schema v events).2 more).1,
        (run schema (run schema v events).2 more).2) := by
  induction events generalizing v with
  | nil => rfl
  | cons e events ih => rw [List.cons_append, run_cons, ih, run_cons, List.append_assoc]

/-! ## Text -/

theorem allBlank_append (s t : String) :
    Text.allBlank (s ++ t) = (Text.allBlank s && Text.allBlank t) := by
  simp [Text.allBlank, String.toList_append]

/-- Where a text is cut does not matter. -/
theorem closes_texts_iff {frame : Frame} {chunks : List String} {content : List Node} :
    Closes schema frame (chunks.map .text ++ content) ↔
      Closes schema frame (.text (String.join chunks) :: content) := by
  cases frame with
  | skipped => exact Iff.rfl
  | simple name rule text =>
    have htexts := Node.forall_texts_isText chunks
    simp only [Closes, Node.directText_texts, Node.directText, List.forall_mem_append,
      List.forall_mem_cons, Node.isText_text, true_and]
    exact and_congr_left fun _ => and_iff_right htexts
  | complex name t progress failed text strayed =>
    simp [Closes, Node.directText_texts, Node.directText, validChildren_texts_iff,
      validChildren_text_iff]

/-- Text changes the innermost frame only. While nothing is found, the frame stays clean and closes
with the same content as before. -/
theorem characters_closes (schema : Schema) (frame : Frame) (outer : List Frame) (chunk : String) :
    ∃ findings frame',
      (⟨frame :: outer⟩ : Validator).characters chunk = (findings, ⟨frame' :: outer⟩) ∧
      (Clean frame → (findings = [] → Clean frame') ∧ ∀ content,
        (findings = [] ∧ Closes schema frame' content) ↔
          Closes schema frame (.text chunk :: content)) := by
  cases frame with
  | skipped => exact ⟨[], _, rfl, fun _ => ⟨fun _ => trivial, fun _ => by simp [Closes]⟩⟩
  | simple name rule text =>
    refine ⟨[], _, rfl, fun _ => ⟨fun _ => trivial, fun content => ?_⟩⟩
    simp [Closes, Node.directText, String.append_assoc]
  | complex name t progress failed text strayed =>
    have hstep : (⟨.complex name t progress failed text strayed :: outer⟩ : Validator).characters
        chunk =
        if t.textType.isSome then
          ([], ⟨.complex name t progress failed (text ++ chunk) strayed :: outer⟩)
        else if !t.mixed && !strayed && !Text.allBlank chunk then
          ([.strayText name], ⟨.complex name t progress failed text true :: outer⟩)
        else ([], ⟨.complex name t progress failed text strayed :: outer⟩) := rfl
    rw [hstep]
    cases htype : t.textType with
    | some ref =>
      refine ⟨[], _, rfl, ?_⟩
      rintro ⟨rfl, rfl, -, hshaped⟩
      refine ⟨fun _ => ⟨rfl, rfl, fun h => by simp [htype] at h, hshaped⟩, fun content => ?_⟩
      simp [Closes, Node.directText, validChildren_text_iff, String.append_assoc]
    | none =>
      rw [Option.isSome_none, if_neg Bool.false_ne_true]
      by_cases hstray : (!t.mixed && !strayed && !Text.allBlank chunk) = true
      · rw [if_pos hstray]
        refine ⟨_, _, rfl, ?_⟩
        rintro ⟨rfl, rfl, htext, -⟩
        obtain rfl := htext htype
        have hblank : t.mixed = false ∧ Text.allBlank chunk = false := by simpa using hstray
        refine ⟨fun hnil => absurd hnil (List.cons_ne_nil _ _), fun content => ?_⟩
        simp [hblank, Closes, ValidText, htype, Node.directText, allBlank_append]
      · rw [if_neg hstray]
        refine ⟨[], _, rfl, fun hclean => ⟨fun _ => hclean, fun content => ?_⟩⟩
        obtain ⟨rfl, rfl, htext, -⟩ := hclean
        obtain rfl := htext htype
        have hblank : t.mixed = true ∨ Text.allBlank chunk = true := by
          cases hmixed : t.mixed <;> cases hchunk : Text.allBlank chunk <;>
            simp [hmixed, hchunk] at hstray ⊢
        rcases hblank with hblank | hblank <;>
          simp [hblank, Closes, ValidText, htype, Node.directText, validChildren_text_iff,
            allBlank_append]

/-- The same for text in pieces. -/
theorem chunks_closes (schema : Schema) (frame : Frame) (outer : List Frame)
    (chunks : List String) :
    ∃ findings frame',
      run schema ⟨frame :: outer⟩ (chunks.map .characters) = (findings, ⟨frame' :: outer⟩) ∧
      (Clean frame → (findings = [] → Clean frame') ∧ ∀ content,
        (findings = [] ∧ Closes schema frame' content) ↔
          Closes schema frame (chunks.map .text ++ content)) := by
  induction chunks generalizing frame with
  | nil => exact ⟨[], frame, rfl, fun hclean => ⟨fun _ => hclean, fun content => by simp⟩⟩
  | cons chunk chunks ih =>
    obtain ⟨found, frame₁, hstep, hfirst⟩ := characters_closes schema frame outer chunk
    obtain ⟨more, frame', hrun, hrest⟩ := ih frame₁
    refine ⟨found ++ more, frame', ?_, fun hclean => ?_⟩
    · rw [List.map_cons, run_cons, step, hstep, hrun]
    · obtain ⟨hclean₁, hcloses₁⟩ := hfirst hclean
      refine ⟨fun hnil => ?_, fun content => ?_⟩
      · obtain ⟨hfound, hmore⟩ := List.append_eq_nil_iff.mp hnil
        exact (hrest (hclean₁ hfound)).1 hmore
      · rw [List.map_cons, List.cons_append, ← hcloses₁, List.append_eq_nil_iff, and_assoc]
        refine and_congr_right fun hfound => ?_
        exact (hrest (hclean₁ hfound)).2 content

/-! ## Elements -/

theorem endElement_frames (schema : Schema) (frame : Frame) (outer : List Frame) :
    ((⟨frame :: outer⟩ : Validator).endElement schema).2 = ⟨outer⟩ := by
  cases frame <;> rfl

theorem checkContent_eq_nil_iff {t : ComplexType} {progress : Progress}
    (hshaped : ∀ p ∈ t.content, progress.Shaped p) :
    checkContent t progress false = [] ↔ ∀ p ∈ t.content, progress.satisfied p = true := by
  rw [checkContent]
  cases hp : t.content with
  | none => simp
  | some p =>
    have hmissing := Content.Progress.missing_eq_none_iff Term.label (hshaped p hp)
    simp [hmissing]

theorem checkSimpleContent_eq_nil_iff {name : String} {t : ComplexType} {text : String} :
    checkSimpleContent schema name t text = [] ↔
      ∀ ref ∈ t.textType, ∀ rule, schema.resolveRef ref = .value rule →
        rule.accepts text = true := by
  rw [checkSimpleContent]
  cases t.textType with
  | none => simp
  | some ref =>
    rw [Option.map_some]
    cases hres : schema.resolveRef ref with
    | value rule => cases hacc : rule.accepts text <;> simp [checkText, hacc, hres]
    | _ => simp [hres]

theorem endElement_closes {frame : Frame} (outer : List Frame) (hclean : Clean frame) :
    ((⟨frame :: outer⟩ : Validator).endElement schema).1 = [] ↔ Closes schema frame [] := by
  cases frame with
  | skipped => exact ⟨fun _ => trivial, fun _ => rfl⟩
  | simple name rule text =>
    have hstep : ((⟨.simple name rule text :: outer⟩ : Validator).endElement schema).1 =
      checkText name rule text := rfl
    rw [hstep, checkText]
    cases hacc : rule.accepts text <;> simp [Closes, Node.directText, hacc]
  | complex name t progress failed text strayed =>
    obtain ⟨rfl, rfl, htext, hshaped⟩ := hclean
    have hstep : ((⟨.complex name t progress false text false :: outer⟩ : Validator).endElement
        schema).1 =
      checkContent t progress false ++ checkSimpleContent schema name t text := rfl
    rw [hstep, List.append_eq_nil_iff, checkContent_eq_nil_iff hshaped,
      checkSimpleContent_eq_nil_iff, Closes, validChildren_nil_iff, ValidText]
    refine and_congr_right fun _ => ?_
    cases htype : t.textType with
    | none => simp [htext htype, Node.directText, Text.allBlank]
    | some ref => simp [Node.directText]

section Child

variable {parent : String} {t : ComplexType} {progress : Progress} {name : QualifiedName}

theorem startElement_complex (schema : Schema) (outer : List Frame) (attributes : Attributes)
    (failed strayed : Bool) (text : String) :
    (⟨.complex parent t progress failed text strayed :: outer⟩ : Validator).startElement schema name
        attributes =
      let entered := enterChild schema parent t progress name
      let framed := frameFor schema name.localName attributes entered.2.2.2
      (entered.2.2.1 ++ framed.1,
        ⟨framed.2 :: .complex parent t entered.1 (failed || entered.2.1) text strayed :: outer⟩) :=
  rfl

theorem enterChild_accepted {p : Particle Term} {leaf : Term} {progress' : Progress}
    (hp : t.content = some p) (hacc : progress.accept (·.fits name) p = some (leaf, progress')) :
    enterChild schema parent t progress name = (progress', false, typeOf schema leaf) := by
  rw [enterChild, hp]
  simp only [hacc]

theorem enterChild_refused
    (h : ∀ p ∈ t.content, progress.accept (·.fits name) p = none) :
    (enterChild schema parent t progress name).2.2.1 ≠ [] := by
  rw [enterChild]
  cases hp : t.content with
  | none => simp
  | some p =>
    simp only [h p hp]
    cases leafNamed? name p <;> simp

theorem not_validChildren_refused {attributes : Attributes} {content rest : List Node}
    (h : ∀ p ∈ t.content, progress.accept (·.fits name) p = none) :
    ¬ ValidChildren schema t.content progress (.element name attributes content :: rest) := by
  intro hchildren
  cases hp : t.content with
  | none =>
    rw [hp] at hchildren
    exact not_validChildren_element hchildren
  | some p =>
    rw [hp, validChildren_element_iff] at hchildren
    obtain ⟨leaf, s', hacc, -⟩ := hchildren
    rw [h p hp] at hacc
    cases hacc

theorem validChildren_accepted_iff {p : Particle Term} {leaf : Term} {progress' : Progress}
    (hp : t.content = some p) (hacc : progress.accept (·.fits name) p = some (leaf, progress'))
    {attributes : Attributes} {content rest : List Node} :
    ValidChildren schema t.content progress (.element name attributes content :: rest) ↔
      ValidChild schema leaf attributes content ∧
        ValidChildren schema t.content progress' rest := by
  rw [hp, validChildren_element_iff]
  constructor
  · rintro ⟨leaf', s', hacc', h⟩
    cases hacc.symm.trans hacc'
    exact h
  · intro h
    exact ⟨leaf, progress', hacc, h⟩

end Child

/-- What follows an element that opens: its frame, and that of its parent. -/
theorem startElement_closes (schema : Schema) (frame : Frame) (outer : List Frame)
    (name : QualifiedName) (attributes : Attributes) :
    ∃ findings inner frame',
      (⟨frame :: outer⟩ : Validator).startElement schema name attributes =
        (findings, ⟨inner :: frame' :: outer⟩) ∧
      Clean inner ∧
      (Clean frame → (findings = [] → Clean frame') ∧ ∀ content rest,
        (findings = [] ∧ Closes schema inner content ∧ Closes schema frame' rest) ↔
          Closes schema frame (.element name attributes content :: rest)) := by
  cases frame with
  | skipped =>
    exact ⟨[], .skipped, .skipped, rfl, trivial, fun _ =>
      ⟨fun _ => trivial, fun _ _ => by simp [Closes]⟩⟩
  | simple parent rule text =>
    refine ⟨_, _, _, rfl, trivial, fun _ => ⟨fun _ => trivial, fun content rest => ?_⟩⟩
    simp [Closes]
  | complex parent t progress failed text strayed =>
    refine ⟨_, _, _, startElement_complex schema outer attributes failed strayed text,
      clean_frameFor _ _ _ _, ?_⟩
    rintro ⟨rfl, rfl, htext, hshaped⟩
    by_cases hrefused : ∀ p ∈ t.content, progress.accept (·.fits name) p = none
    · have hfound := @enterChild_refused schema parent t progress name hrefused
      refine ⟨fun hnil => absurd (List.append_eq_nil_iff.mp hnil).1 hfound, fun content rest => ?_⟩
      exact ⟨fun h => absurd (List.append_eq_nil_iff.mp h.1).1 hfound,
        fun h => absurd h.1 (not_validChildren_refused hrefused)⟩
    · push Not at hrefused
      obtain ⟨p, hp, hacc⟩ := hrefused
      obtain ⟨⟨leaf, progress'⟩, hacc⟩ := Option.ne_none_iff_exists'.mp hacc
      rw [enterChild_accepted hp hacc]
      have hclean : Clean (.complex parent t progress' (false || false) text false) := by
        refine ⟨rfl, rfl, htext, fun p' hp' => ?_⟩
        cases hp.symm.trans hp'
        exact (hshaped p hp).accept hacc
      refine ⟨fun _ => hclean, fun content rest => ?_⟩
      have hchild := @typeOf_closes_iff schema name.localName attributes leaf content
      simp only [List.append_eq_nil_iff, Closes, validChildren_accepted_iff hp hacc, ← hchild,
        Node.directText]
      tauto

/-- **Simulation.** The content of an element and its end give nothing to find exactly if its frame
closes with the content; in any case the frame is gone then. -/
theorem run_closes {content : List Node} {events : List Event} (h : Tells content events)
    (frame : Frame) (outer : List Frame) (name : QualifiedName) :
    ∃ findings,
      run schema ⟨frame :: outer⟩ (events ++ [.endElement name]) = (findings, ⟨outer⟩) ∧
      (Clean frame → (findings = [] ↔ Closes schema frame content)) := by
  induction h generalizing frame outer name with
  | nil =>
    refine ⟨((⟨frame :: outer⟩ : Validator).endElement schema).1, ?_, endElement_closes outer⟩
    rw [List.nil_append, run_cons, step, endElement_frames]
    simp [run]
  | @text s chunks rest events hs _ ih =>
    obtain ⟨found, frame', hchunks, hcloses⟩ := chunks_closes schema frame outer chunks
    obtain ⟨more, hrest, hends⟩ := ih frame' outer name
    refine ⟨found ++ more, ?_, fun hclean => ?_⟩
    · rw [List.append_assoc, run_append, hchunks, hrest]
    · obtain ⟨hclean', hframe'⟩ := hcloses hclean
      rw [← hs, ← closes_texts_iff, ← hframe', List.append_eq_nil_iff]
      exact and_congr_right fun hfound => hends (hclean' hfound)
  | @element child attributes content rest inner events _ _ ihcontent ihrest =>
    obtain ⟨found, opened, frame', hstart, hinner, hcloses⟩ :=
      startElement_closes schema frame outer child attributes
    obtain ⟨within, hcontent, hends⟩ := ihcontent opened (frame' :: outer) child
    obtain ⟨more, hrest, hends'⟩ := ihrest frame' outer name
    refine ⟨found ++ (within ++ more), ?_, fun hclean => ?_⟩
    · have hsplit : .startElement child attributes :: inner ++ .endElement child :: events ++
          [.endElement name] = .startElement child attributes :: ((inner ++ [.endElement child]) ++
            (events ++ [.endElement name])) := by simp
      rw [hsplit, run_cons, step, hstart, run_append, hcontent, hrest]
    · obtain ⟨hclean', hframe'⟩ := hcloses hclean
      rw [← hframe', List.append_eq_nil_iff, List.append_eq_nil_iff]
      exact and_congr_right fun hfound =>
        and_congr (hends hinner) (hends' (hclean' hfound))

/-- **Decision.** Fed with the events of a document, its text in any pieces, a validator finds
nothing exactly if the document is valid. -/
theorem findings_eq_nil_iff_valid {schema : Schema} {name : QualifiedName} {attributes : Attributes}
    {content : List Node} {events : List Event}
    (h : Tells [.element name attributes content] events) :
    (start.run schema events).1 = [] ↔ ValidDocument schema name attributes content := by
  cases h with
  | @element _ _ _ _ inner _ hinner hnil =>
    cases hnil
    rw [List.cons_append, run_cons]
    cases hd : schema.element? name.space name.localName with
    | none =>
      have hstart : (start.step schema (.startElement name attributes)).1 =
          [.undefinedElement name.localName] := by
        simp [step, startElement, start, hd, frameFor]
      simp [hstart, ValidDocument, hd]
    | some d =>
      have hstart : start.step schema (.startElement name attributes) =
          ((frameFor schema name.localName attributes (some d.type)).1,
            ⟨[(frameFor schema name.localName attributes (some d.type)).2]⟩) := by
        simp [step, startElement, start, hd]
      obtain ⟨found, hrun, hends⟩ := @run_closes schema content inner hinner
        (frameFor schema name.localName attributes (some d.type)).2 [] name
      rw [hstart, hrun, List.append_eq_nil_iff, hends (clean_frameFor _ _ _ _),
        frameFor_closes_iff]
      simp [ValidDocument, hd]

/-- A note to somebody. -/
def noteType : ComplexType where
  content := some
    (.group .sequence [.leaf (.element "to" none (.value (.ref (.builtin .string)))) .once] .once)
  attributes := []
  anyAttribute := false
  mixed := false
  textType := none

def noteSchema : Schema := { empty with elements := [⟨"note", none, .complex noteType⟩] }

theorem valid_note :
    ValidDocument noteSchema (.ofLocal "note") .empty
      [.text " ", .element (.ofLocal "to") .empty [.text "Ada"]] := by
  have htells : Tells
      [.element (.ofLocal "note") .empty
        [.text " ", .element (.ofLocal "to") .empty [.text "Ada"]]]
      [.startElement (.ofLocal "note") .empty, .characters " ",
        .startElement (.ofLocal "to") .empty, .characters "A", .characters "da",
        .endElement (.ofLocal "to"), .endElement (.ofLocal "note")] :=
    .element (@Tells.text _ [" "] _ _ rfl
      (.element (@Tells.text _ ["A", "da"] _ _ rfl .nil) .nil)) .nil
  exact (findings_eq_nil_iff_valid htells).mp (by decide)

end Validator

end ScopedXml.Schema
