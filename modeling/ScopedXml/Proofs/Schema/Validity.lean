import ScopedXml.Proofs.Nodes
import ScopedXml.Proofs.Content.Shape
import ScopedXml.Schema.Validator

/-!
# Valid documents

Validity is a property of a tree, by recursion over its elements: `ValidAs` says when an element is
valid for a type, `ValidChildren` when its children follow the content model. A validator never sees
the tree. It follows the events with a stack of frames, and it finds nothing exactly if the document
is valid (`Validator.findings_eq_nil_iff_valid`).
-/

namespace ScopedXml.Schema

open Content (Particle Progress)

/-! ## Validity -/

/-- The type of an attribute, its own or that of the declaration that it refers to. -/
def useType? (schema : Schema) (use : AttributeUse) : Option ValueType :=
  match use.type with
  | some t => some t
  | none => (schema.attr? use.space use.name).map (·.type)

/-- All that a complex type asks of attributes. -/
structure ValidAttributes (schema : Schema) (t : ComplexType) (attributes : Attributes) : Prop where
  required : ∀ use ∈ t.attributes, use.required = true →
    attributes.getIn? use.space use.name ≠ none
  accepted : ∀ use ∈ t.attributes, ∀ value, attributes.getIn? use.space use.name = some value →
    ∀ type rule, useType? schema use = some type → schema.resolveValue type = .value rule →
      rule.accepts value = true
  declared : t.anyAttribute = true ∨ ∀ a ∈ attributes.toList, a.name.space = some instanceUri ∨
    ∃ use ∈ t.attributes, a.name.denotes use.space use.name = true

/-- All that a complex type asks of the text of an element. -/
def ValidText (schema : Schema) (t : ComplexType) (text : String) : Prop :=
  match t.textType with
  | some ref => ∀ rule, schema.resolveRef ref = .value rule → rule.accepts text = true
  | none => t.mixed = true ∨ Text.allBlank text = true

mutual

/-- An element with these attributes and this content is valid for a type. -/
inductive ValidAs (schema : Schema) : ElementType → Attributes → List Node → Prop
  | anything {type : ElementType} {attributes : Attributes} {content : List Node} :
    schema.resolve type = .anything → ValidAs schema type attributes content
  | value {type : ElementType} {attributes : Attributes} {content : List Node} {rule : ValueRule} :
    schema.resolve type = .value rule →
    (∀ a ∈ attributes.toList, a.name.space = some instanceUri) →
    (∀ n ∈ content, n.isText = true) → rule.accepts (Node.directText content) = true →
    ValidAs schema type attributes content
  | complex {type : ElementType} {attributes : Attributes} {content : List Node}
    {t : ComplexType} :
    schema.resolve type = .complex t → ValidAttributes schema t attributes →
    ValidText schema t (Node.directText content) → ValidChildren schema t.content .fresh content →
    ValidAs schema type attributes content

/-- The elements in some content follow a model, from this progress to the end. -/
inductive ValidChildren (schema : Schema) :
    Option (Particle Term) → Progress → List Node → Prop
  | none {s : Progress} {content : List Node} :
    (∀ n ∈ content, n.isText = true) → ValidChildren schema none s content
  | done {p : Particle Term} {s : Progress} :
    s.satisfied p = true → ValidChildren schema (some p) s []
  | text {p : Particle Term} {s : Progress} {chunk : String} {rest : List Node} :
    ValidChildren schema (some p) s rest → ValidChildren schema (some p) s (.text chunk :: rest)
  | child {p : Particle Term} {s s' : Progress} {name : QualifiedName} {attributes : Attributes}
    {content rest : List Node} {leaf : Term} :
    s.accept (·.fits name) p = some (leaf, s') → ValidChild schema leaf attributes content →
    ValidChildren schema (some p) s' rest →
    ValidChildren schema (some p) s (.element name attributes content :: rest)

/-- A child is valid for the leaf that takes it. -/
inductive ValidChild (schema : Schema) : Term → Attributes → List Node → Prop
  | element {name : String} {space : Option String} {type : ElementType}
    {attributes : Attributes} {content : List Node} :
    ValidAs schema type attributes content →
    ValidChild schema (.element name space type) attributes content
  | ref {name : String} {space : Option String} {d : ElementDecl} {attributes : Attributes}
    {content : List Node} :
    schema.element? space name = some d → ValidAs schema d.type attributes content →
    ValidChild schema (.ref name space) attributes content
  | wildcard {w : Wildcard} {attributes : Attributes} {content : List Node} :
    ValidChild schema (.wildcard w) attributes content

end

/-- The root of the document is declared, and valid for its type. -/
def ValidDocument (schema : Schema) (name : QualifiedName) (attributes : Attributes)
    (content : List Node) : Prop :=
  ∃ d, schema.element? name.space name.localName = some d ∧
    ValidAs schema d.type attributes content

/-! ## Children -/

section Children

variable {schema : Schema} {model : Option (Particle Term)} {p : Particle Term} {s : Progress}
  {content rest : List Node}

theorem validChildren_none_iff :
    ValidChildren schema none s content ↔ ∀ n ∈ content, n.isText = true := by
  refine ⟨fun h => ?_, .none⟩
  cases h
  assumption

theorem validChildren_nil_iff :
    ValidChildren schema model s [] ↔ ∀ p ∈ model, s.satisfied p = true := by
  cases model with
  | none => simp [validChildren_none_iff]
  | some p =>
    constructor
    · intro h
      cases h
      rintro _ ⟨⟩
      assumption
    · exact fun h => .done (h p rfl)

theorem validChildren_text_iff {chunk : String} :
    ValidChildren schema model s (.text chunk :: rest) ↔ ValidChildren schema model s rest := by
  cases model with
  | none => simp [validChildren_none_iff]
  | some p =>
    refine ⟨fun h => ?_, .text⟩
    cases h
    assumption

theorem validChildren_texts_iff {chunks : List String} :
    ValidChildren schema model s (chunks.map .text ++ rest) ↔
      ValidChildren schema model s rest := by
  induction chunks with
  | nil => rfl
  | cons chunk chunks ih => rw [List.map_cons, List.cons_append, validChildren_text_iff, ih]

theorem not_validChildren_element {name : QualifiedName} {attributes : Attributes} :
    ¬ ValidChildren schema none s (.element name attributes content :: rest) := by
  simp [validChildren_none_iff]

theorem validChildren_element_iff {name : QualifiedName} {attributes : Attributes} :
    ValidChildren schema (some p) s (.element name attributes content :: rest) ↔
      ∃ leaf s', s.accept (·.fits name) p = some (leaf, s') ∧
        ValidChild schema leaf attributes content ∧ ValidChildren schema (some p) s' rest := by
  constructor
  · intro h
    cases h with
    | child hacc hchild hrest => exact ⟨_, _, hacc, hchild, hrest⟩
  · rintro ⟨leaf, s', hacc, hchild, hrest⟩
    exact .child hacc hchild hrest

end Children

end ScopedXml.Schema
