import ScopedXml.Proofs.Schema.Decision

/-!
# Unchecked content

Below an element whose content is not checked a validator keeps quiet, and behind it the validator
is as if the element had been empty. What stands in there therefore has no influence on anything
that is found outside (`Validator.skipped_content_silent`).

* `Validator.Standing`: what a schema says of an element that opens, and whether there is anything
  to check in it.
* `Validator.Silent`: events that give nothing to find and leave no trace.
-/

namespace ScopedXml.Schema.Validator

open Content (Particle Progress)

variable {schema : Schema}

/-! ## What is not checked -/

/-- What a schema says of an element that opens. -/
inductive Standing
  /-- It stands within an element whose content is not checked. -/
  | below
  /-- No declaration stands for it. -/
  | undeclared
  /-- A wildcard takes it. -/
  | wildcard
  /-- It is declared with this type. -/
  | declared (type : ElementType)

/-- Whether the schema gives nothing to check. -/
def Standing.Unchecked (schema : Schema) : Standing → Prop
  | .declared type => schema.resolve type = .anything ∨ ∃ n, schema.resolve type = .unknown n
  | _ => True

/-- The leaf that stands for a child: the one that takes it, or else the first one that names it. -/
def leafFor? (name : QualifiedName) (progress : Progress) (p : Particle Term) : Option Term :=
  match progress.accept (·.fits name) p with
  | some (leaf, _) => some leaf
  | none => leafNamed? name p

/-- What a top-level declaration says of an element. -/
def globalStanding (schema : Schema) (space : Option String) (name : String) : Standing :=
  match schema.element? space name with
  | some d => .declared d.type
  | none => .undeclared

/-- What a leaf says of the child that it stands for. -/
def leafStanding (schema : Schema) : Term → Standing
  | .element _ _ type => .declared type
  | .ref name space => globalStanding schema space name
  | .wildcard _ => .wildcard

/-- What the schema says of an element that opens within these frames. -/
def standing (schema : Schema) (name : QualifiedName) : List Frame → Standing
  | [] => globalStanding schema name.space name.localName
  | .skipped :: _ => .below
  | .simple .. :: _ => .undeclared
  | .complex _ t progress .. :: _ =>
    match t.content.bind (leafFor? name progress) with
    | some leaf => leafStanding schema leaf
    | none => .undeclared

/-- The type that a standing gives. -/
def Standing.type? : Standing → Option ElementType
  | .declared type => some type
  | _ => none

theorem typeOf_eq (leaf : Term) : (typeOf schema leaf).2 = (leafStanding schema leaf).type? := by
  cases leaf with
  | element name space type => rfl
  | ref name space =>
    rw [typeOf, leafStanding, globalStanding]
    cases schema.element? space name <;> rfl
  | wildcard w => rfl

theorem enterChild_type (parent : String) (t : ComplexType) (progress : Progress)
    (name : QualifiedName) :
    (enterChild schema parent t progress name).2.2.2 =
      (t.content.bind (leafFor? name progress)).bind fun leaf =>
        (leafStanding schema leaf).type? := by
  rw [enterChild]
  cases t.content with
  | none => rfl
  | some p =>
    rw [Option.bind_some, leafFor?]
    dsimp only
    cases progress.accept (·.fits name) p with
    | some taken => exact typeOf_eq taken.1
    | none =>
      cases leafNamed? name p with
      | some leaf => exact typeOf_eq leaf
      | none => rfl

/-- An element that opens gets the frame of the type that the schema gives it. -/
theorem startElement_frame (v : Validator) (name : QualifiedName) (attributes : Attributes) :
    (v.startElement schema name attributes).2.frames.head? =
      some (frameFor schema name.localName attributes
        (standing schema name v.frames).type?).2 := by
  obtain ⟨frames⟩ := v
  match frames with
  | [] =>
    rw [startElement, standing, globalStanding]
    cases schema.element? name.space name.localName <;> rfl
  | .skipped :: outer => rfl
  | .simple parent rule text :: outer => rfl
  | .complex parent t progress failed text strayed :: outer =>
    have htype : (standing schema name (.complex parent t progress failed text strayed ::
        outer)).type? = (enterChild schema parent t progress name).2.2.2 := by
      rw [enterChild_type, standing]
      cases t.content.bind (leafFor? name progress) <;> rfl
    rw [startElement_complex, htype]
    rfl

theorem frameFor_skipped_iff (name : String) (attributes : Attributes) (s : Standing) :
    (frameFor schema name attributes s.type?).2 = .skipped ↔ s.Unchecked schema := by
  cases s with
  | declared type =>
    rw [Standing.type?, frameFor, Option.map_some, Standing.Unchecked]
    cases schema.resolve type <;> simp
  | _ => exact iff_of_true rfl trivial

/-- The content of an element is not checked exactly if the schema gives nothing to check. -/
theorem startElement_skipped_iff (v : Validator) (name : QualifiedName) (attributes : Attributes) :
    (v.startElement schema name attributes).2.frames.head? = some .skipped ↔
      (standing schema name v.frames).Unchecked schema := by
  rw [startElement_frame, Option.some_inj, frameFor_skipped_iff]

/-! ## Answers -/

/-- What a validator finds at each of some events. -/
def answers (schema : Schema) (v : Validator) : List Event → List (List Finding)
  | [] => []
  | e :: events => (v.step schema e).1 :: answers schema (v.step schema e).2 events

theorem length_answers (v : Validator) (events : List Event) :
    (v.answers schema events).length = events.length := by
  induction events generalizing v with
  | nil => rfl
  | cons e events ih => rw [answers, List.length_cons, ih, List.length_cons]

theorem answers_append (v : Validator) (events more : List Event) :
    v.answers schema (events ++ more) =
      v.answers schema events ++ (v.run schema events).2.answers schema more := by
  induction events generalizing v with
  | nil => rfl
  | cons e events ih => rw [List.cons_append, answers, ih, answers, run_cons, List.cons_append]

/-! ## Silence -/

/-- Nothing is found at these events, and the validator behind them is the one before them. -/
structure Silent (schema : Schema) (v : Validator) (events : List Event) : Prop where
  answers : v.answers schema events = List.replicate events.length []
  restored : (v.run schema events).2 = v

theorem Silent.nil (v : Validator) : Silent schema v [] := ⟨rfl, rfl⟩

theorem Silent.append {v : Validator} {events more : List Event} (h : Silent schema v events)
    (hmore : Silent schema v more) : Silent schema v (events ++ more) where
  answers := by
    rw [answers_append, h.answers, h.restored, hmore.answers, List.length_append,
      List.replicate_add]
  restored := by rw [run_append, h.restored, hmore.restored]

theorem silent_chunks (outer : List Frame) (chunks : List String) :
    Silent schema ⟨.skipped :: outer⟩ (chunks.map .characters) := by
  induction chunks with
  | nil => exact .nil _
  | cons chunk chunks ih =>
    have hchunk : Silent schema ⟨.skipped :: outer⟩ [.characters chunk] := ⟨rfl, rfl⟩
    exact hchunk.append ih

/-- The frame of a skipped element comes and goes with it. -/
theorem Silent.element {outer : List Frame} {events : List Event}
    (h : Silent schema ⟨.skipped :: .skipped :: outer⟩ events) (name : QualifiedName)
    (attributes : Attributes) :
    Silent schema ⟨.skipped :: outer⟩
      (.startElement name attributes :: (events ++ [.endElement name])) := by
  have hopened : (⟨.skipped :: outer⟩ : Validator).step schema (.startElement name attributes) =
      ([], ⟨.skipped :: .skipped :: outer⟩) := rfl
  constructor
  · rw [Validator.answers, hopened, answers_append, h.answers, h.restored, List.length_cons,
      List.length_append, List.replicate_succ, List.replicate_add]
    rfl
  · rw [run_cons, hopened, run_append, h.restored]
    rfl

/-- **Silence.** Whatever stands in an element that is not checked gives nothing to find and leaves
no trace. -/
theorem silent_content {content : List Node} {events : List Event} (h : Tells content events)
    (outer : List Frame) : Silent schema ⟨.skipped :: outer⟩ events := by
  induction h generalizing outer with
  | nil => exact .nil _
  | text _ _ ih => exact (silent_chunks outer _).append (ih outer)
  | @element name attributes content rest inner events _ _ ihcontent ihrest =>
    have helement := (ihcontent (.skipped :: outer)).element name attributes
    have hsplit : .startElement name attributes :: inner ++ .endElement name :: events =
        .startElement name attributes :: (inner ++ [.endElement name]) ++ events := by simp
    rw [hsplit]
    exact helement.append (ihrest outer)

/-! ## Replaced content -/

theorem eq_skipped_of_head? {v : Validator} (h : v.frames.head? = some .skipped) :
    ∃ outer, v = ⟨.skipped :: outer⟩ := by
  obtain ⟨frames⟩ := v
  obtain ⟨outer, rfl⟩ := List.head?_eq_some_iff.mp h
  exact ⟨outer, rfl⟩

/-- What is found in a document around some content that gives nothing to find. -/
theorem answers_around (before after : List Event) {content : List Event}
    (h : Silent schema (start.run schema before).2 content) :
    start.answers schema (before ++ (content ++ after)) =
      start.answers schema before ++ List.replicate content.length [] ++
        (start.run schema before).2.answers schema after := by
  rw [answers_append, answers_append, h.answers, h.restored, List.append_assoc]

/-- **No influence.** The content of an element is not checked exactly if the element is not
declared, stands below one that is not checked, is taken by a wildcard, or has a type that admits
anything or that nobody defines. Nothing is then found at any event of its content, and whatever the
content is, the same is found at every other event of the document. -/
theorem skipped_content_silent (schema : Schema) (before after : List Event) (name : QualifiedName)
    (attributes : Attributes) :
    let v := (start.run schema before).2
    let opened := (v.startElement schema name attributes).2
    (opened.frames.head? = some .skipped ↔ (standing schema name v.frames).Unchecked schema) ∧
    (opened.frames.head? = some .skipped →
      ∃ outside behind : List (List Finding),
        outside.length = before.length + 1 ∧ behind.length = after.length + 1 ∧
        ∀ content inner, Tells content inner →
          start.answers schema
              (before ++ .startElement name attributes :: (inner ++ .endElement name :: after)) =
            outside ++ List.replicate inner.length [] ++ behind) := by
  intro v opened
  refine ⟨v.startElement_skipped_iff name attributes, fun hskipped => ?_⟩
  have hopened : (start.run schema (before ++ [.startElement name attributes])).2 = opened := by
    rw [run_append]
    rfl
  refine ⟨start.answers schema (before ++ [.startElement name attributes]),
    opened.answers schema (.endElement name :: after), ?_, ?_, ?_⟩
  · rw [length_answers, List.length_append, List.length_singleton]
  · rw [length_answers, List.length_cons]
  · intro content inner hinner
    obtain ⟨outer, houter⟩ := eq_skipped_of_head? hskipped
    have hsilent : Silent schema opened inner := houter ▸ silent_content hinner outer
    have haround := answers_around (before ++ [.startElement name attributes])
      (.endElement name :: after) (hopened.symm ▸ hsilent)
    rw [hopened, List.append_assoc] at haround
    exact haround

/-- A box with anything in it, and whether it is full. -/
def boxType : ComplexType where
  content := some (.group .sequence [.leaf (.wildcard .any) .once,
    .leaf (.element "full" none (.value (.ref (.builtin ⟨"boolean", .boolean⟩)))) .once] .once)
  attributes := []
  anyAttribute := false
  mixed := false
  textType := none

def boxSchema : Schema := { empty with elements := [⟨"box", none, .complex boxType⟩] }

/-- What is in the box, be it a text or another box, has no influence on the fault behind it. -/
theorem skipped_content_silent_box :
    let before : List Event := [.startDocument, .startElement (.ofLocal "box") .empty]
    let after : List Event := [.startElement (.ofLocal "full") .empty, .characters "perhaps",
      .endElement (.ofLocal "full"), .endElement (.ofLocal "box"), .endDocument]
    let found (inner : List Event) := start.answers boxSchema (before ++
      .startElement (.ofLocal "x") .empty :: (inner ++ .endElement (.ofLocal "x") :: after))
    found [.characters "1"] =
      [[], [], [], [], [], [], [], [.badText "full" "xs:boolean" "perhaps"], [], []] ∧
    ∃ outside behind : List (List Finding), outside.length = 3 ∧ behind.length = 6 ∧
      found [.characters "1"] = outside ++ [[]] ++ behind ∧
      found [.startElement (.ofLocal "box") .empty, .endElement (.ofLocal "box")] =
        outside ++ [[], []] ++ behind := by
  intro before after found
  have hskipped : ((start.run boxSchema before).2.startElement boxSchema (.ofLocal "x")
      .empty).2.frames.head? = some .skipped := rfl
  obtain ⟨outside, behind, houtside, hbehind, hfound⟩ :=
    (skipped_content_silent boxSchema before after (.ofLocal "x") .empty).2 hskipped
  have htext : Tells [.text "1"] [.characters "1"] := @Tells.text _ ["1"] _ _ rfl .nil
  have hbox : Tells [.element (.ofLocal "box") .empty []]
      [.startElement (.ofLocal "box") .empty, .endElement (.ofLocal "box")] := .element .nil .nil
  refine ⟨by decide, outside, behind, houtside, hbehind, ?_, ?_⟩
  · exact hfound _ _ htext
  · exact hfound _ _ hbox

end ScopedXml.Schema.Validator
