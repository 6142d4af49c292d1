import Mathlib.Logic.Relation
import ScopedXml.Proofs.Schema.Traversal

/-!
# What schemas are made of

A schema that compiles is made of one document for each name. They are read one within another, and
the schema takes their declarations in as they come.

* `Declaration`, `take`: what a declaration adds, whatever the schema is.
* `Refers`, `Resource.Sound`: what a document asks for, and whether it can be read at all.
* `Adds`: what a task has added when it comes to its end.
* `Loads.walks`, `Loads.failed`: what is behind a task that ends well, and behind one that does not.
-/

namespace ScopedXml.Schema

open Document (Element)

/-! ## Declarations -/

/-- A declaration directly below the root of a document. -/
structure Declaration where
  header : Header
  element : Element

namespace Declaration

def element? (d : Declaration) : Option ElementDecl :=
  if d.element.name = "element" then (elementDecl d.header d.element).toOption else none

def attribute? (d : Declaration) : Option AttributeDecl :=
  if d.element.name = "attribute" then (attributeDecl d.header d.element).toOption else none

def complexType? (d : Declaration) : Option (String × ComplexType) :=
  if d.element.name = "complexType" then
    (d.element.attr? "name").bind fun name =>
      (complexType d.header d.element).toOption.map (name, ·)
  else none

def simpleType? (d : Declaration) : Option (String × SimpleType) :=
  if d.element.name = "simpleType" then
    (d.element.attr? "name").map fun name => (name, simpleType (some name) d.element)
  else none

/-- Whether the declaration says something that can be compiled. -/
def Compiles (d : Declaration) : Prop := ∃ s, declare d.header empty d.element = .ok s

end Declaration

/-- The schema with one more declaration. -/
def take (s : Schema) (d : Declaration) : Schema :=
  { s with
    elements := s.elements ++ d.element?.toList
    attributes := s.attributes ++ d.attribute?.toList
    complexTypes := d.complexType?.toList ++ s.complexTypes
    simpleTypes := d.simpleType?.toList ++ s.simpleTypes }

/-- What a declaration adds, and whether it can be added, does not depend on the schema. -/
theorem declare_eq (h : Header) (s : Schema) (e : Element) :
    declare h s e = (declare h empty e).map fun _ => s.take ⟨h, e⟩ := by
  unfold declare take Declaration.element? Declaration.attribute? Declaration.complexType?
    Declaration.simpleType? declaredName
  by_cases helement : e.name = "element"
  · simp only [helement, if_true]
    cases elementDecl h e <;> simp [addElement, Except.map, Functor.map, Except.toOption]
  by_cases hattribute : e.name = "attribute"
  · simp only [hattribute, if_true]
    cases attributeDecl h e <;> simp [addAttribute, Except.map, Functor.map, Except.toOption]
  by_cases hcomplex : e.name = "complexType"
  · simp only [hcomplex, if_true]
    cases e.attr? "name" <;> cases complexType h e <;>
      simp [addComplexType, Except.map, Except.toOption, bind, Except.bind, pure, Except.pure]
  by_cases hsimple : e.name = "simpleType"
  · simp only [hsimple, if_true]
    cases e.attr? "name" <;>
      simp [addSimpleType, Except.map, bind, Except.bind, pure, Except.pure]
  · simp only [helement, hattribute, hcomplex, hsimple, if_false]
    split <;> simp [Except.map]

theorem Declaration.compiles_of_declare {h : Header} {s s' : Schema} {e : Element}
    (hdeclare : declare h s e = .ok s') : Declaration.Compiles ⟨h, e⟩ ∧ s' = s.take ⟨h, e⟩ := by
  rw [declare_eq] at hdeclare
  cases hempty : declare h empty e with
  | error flaw =>
    rw [hempty] at hdeclare
    cases hdeclare
  | ok s₀ =>
    rw [hempty] at hdeclare
    cases hdeclare
    exact ⟨⟨s₀, hempty⟩, rfl⟩

/-! ## Documents and what they ask for -/

/-- The declarations among some parts of a document. -/
def declarationsIn (h : Header) (es : List Element) : List Declaration :=
  (es.filter fun e => (reference? e).isNone).map (⟨h, ·⟩)

/-- One of some parts of a document with this base directory refers to another document. -/
def AsksIn (files : File.Tree) (base : Option File.Path) (es : List Element) (next : Resource) :
    Prop :=
  ∃ e ∈ es, ∃ ref, reference? e = some ref ∧ ref.target files base = .ok next

/-- Some parts of a document are in order: references lead to documents, and declarations can be
compiled. -/
def SoundIn (files : File.Tree) (base : Option File.Path) (h : Header) (es : List Element) : Prop :=
  ∀ e ∈ es, (∀ ref, reference? e = some ref → ∃ next, ref.target files base = .ok next) ∧
    (reference? e = none → Declaration.Compiles ⟨h, e⟩)

/-- One of some parts of a document is not in order, and that is the fault `f`. -/
def FailsIn (files : File.Tree) (r : Resource) (h : Header) (es : List Element) (f : Fault) :
    Prop :=
  ∃ e ∈ es, (∃ ref, reference? e = some ref ∧ ref.target files r.base = .error f) ∨
    reference? e = none ∧ ∃ flaw, declare h empty e = .error flaw ∧ f = .invalid r.origin flaw

theorem declarationsIn_cons_of_none {h : Header} {e : Element} {es : List Element}
    (href : reference? e = none) : declarationsIn h (e :: es) = ⟨h, e⟩ :: declarationsIn h es := by
  simp [declarationsIn, href]

theorem declarationsIn_cons_of_some {h : Header} {e : Element} {es : List Element} {ref : Reference}
    (href : reference? e = some ref) : declarationsIn h (e :: es) = declarationsIn h es := by
  simp [declarationsIn, href]

theorem asksIn_cons_of_none {files : File.Tree} {base : Option File.Path} {e : Element}
    {es : List Element} {q : Resource} (href : reference? e = none) :
    AsksIn files base (e :: es) q ↔ AsksIn files base es q := by
  simp [AsksIn, href]

theorem asksIn_cons_of_some {files : File.Tree} {base : Option File.Path} {e : Element}
    {es : List Element} {q next : Resource} {ref : Reference} (href : reference? e = some ref)
    (htarget : ref.target files base = .ok next) :
    AsksIn files base (e :: es) q ↔ q = next ∨ AsksIn files base es q := by
  simp [AsksIn, href, htarget, eq_comm]

theorem soundIn_cons {files : File.Tree} {base : Option File.Path} {h : Header} {e : Element}
    {es : List Element} :
    SoundIn files base h (e :: es) ↔
      ((∀ ref, reference? e = some ref → ∃ next, ref.target files base = .ok next) ∧
        (reference? e = none → Declaration.Compiles ⟨h, e⟩)) ∧ SoundIn files base h es :=
  List.forall_mem_cons

namespace Resource

def declarations (r : Resource) : List Declaration :=
  match r.root with
  | .ok root => declarationsIn (Header.ofElement root) root.children
  | .error _ => []

/-- The document is one of a schema, and its parts are in order. -/
def Sound (files : File.Tree) (r : Resource) : Prop :=
  ∃ root, r.root = .ok root ∧ SoundIn files r.base (Header.ofElement root) root.children

/-- The document cannot be taken in, because of the fault `f`. -/
def Fails (files : File.Tree) (r : Resource) (f : Fault) : Prop :=
  r.root = .error f ∨
    ∃ root, r.root = .ok root ∧ FailsIn files r (Header.ofElement root) root.children f

theorem Sound.target {files : File.Tree} {r : Resource} {root e : Element} {ref : Reference}
    (hsound : r.Sound files) (hroot : r.root = .ok root) (he : e ∈ root.children)
    (href : reference? e = some ref) : ∃ next, ref.target files r.base = .ok next := by
  obtain ⟨root', hroot', hparts⟩ := hsound
  rw [hroot] at hroot'
  cases hroot'
  exact (hparts e he).1 ref href

end Resource

/-- A document refers to another one. -/
def Refers (files : File.Tree) (r next : Resource) : Prop :=
  ∃ root, r.root = .ok root ∧ AsksIn files r.base root.children next

theorem mem_targetsIn {files : File.Tree} {base : Option File.Path} {es : List Element}
    {next : Resource} : next ∈ targetsIn files base es ↔ AsksIn files base es next := by
  have hanswer : ∀ ref : Reference,
      (ref.target files base).toOption = some next ↔ ref.target files base = .ok next := by
    intro ref
    cases ref.target files base <;> simp [Except.toOption]
  simp only [targetsIn, AsksIn, List.mem_filterMap, Option.bind_eq_some_iff, hanswer]

theorem Resource.mem_targets {files : File.Tree} {r next : Resource} :
    next ∈ r.targets files ↔ Refers files r next := by
  unfold Resource.targets Refers
  cases r.root with
  | error f => simp
  | ok root => simp [mem_targetsIn]

/-- A document leads to another one, over any number of references. -/
def Reaches (files : File.Tree) : Resource → Resource → Prop :=
  Relation.ReflTransGen (Refers files)

/-- A walk reads what the documents in front of it lead to. -/
theorem Walks.reached {files : File.Tree} {seen : List String} {rs qs : List Resource}
    (h : Walks files seen rs qs) : ∀ q ∈ qs, ∃ r ∈ rs, Reaches files r q := by
  have hlater : ∀ {r rest} {q : Resource}, (∃ r' ∈ rest, Reaches files r' q) →
      ∃ r' ∈ r :: rest, Reaches files r' q :=
    fun ⟨r', hr', hreaches⟩ => ⟨r', List.mem_cons_of_mem _ hr', hreaches⟩
  induction h with
  | nil => simp
  | known _ _ ih => exact fun q hq => hlater (ih q hq)
  | read _ _ _ ihinner ihlater =>
    refine List.forall_mem_append.mpr ⟨fun q hq => ?_, List.forall_mem_cons.mpr
      ⟨⟨_, List.mem_cons_self, .refl⟩, fun q hq => hlater (ihlater q hq)⟩⟩
    obtain ⟨next, hnext, hreaches⟩ := ihinner q hq
    exact ⟨_, List.mem_cons_self, .head (Resource.mem_targets.mp hnext) hreaches⟩

namespace Task

/-- The documents that a task asks for. -/
def Asks (files : File.Tree) : Task → Resource → Prop
  | sources rs, q => q ∈ rs
  | document r, q => q = r
  | parts r _ es, q => AsksIn files r.base es q

/-- The documents that a task goes through, in order. -/
def targets (files : File.Tree) : Task → List Resource
  | sources rs => rs
  | document r => [r]
  | parts r _ es => targetsIn files r.base es

theorem mem_targets {files : File.Tree} {task : Task} {q : Resource} :
    q ∈ task.targets files ↔ task.Asks files q := by
  cases task with
  | sources rs => rfl
  | document r => exact List.mem_singleton
  | parts r h es => exact mem_targetsIn

/-- The declarations of a task, apart from those of other documents. -/
def declarations : Task → List Declaration
  | sources _ => []
  | document _ => []
  | parts _ h es => declarationsIn h es

/-- One of the parts that the task has itself fails. -/
def Fails (files : File.Tree) (f : Fault) : Task → Prop
  | sources _ => False
  | document _ => False
  | parts r h es => FailsIn files r h es f

def Sound (files : File.Tree) : Task → Prop
  | sources _ => True
  | document _ => True
  | parts r h es => SoundIn files r.base h es

end Task

/-! ## Growth -/

/-- The schema `s'` is `s` with further documents and declarations, each in the order in which they
were read. -/
structure Extends (s : Schema) (qs : List Resource) (ds : List Declaration) (s' : Schema) :
    Prop where
  documents : s'.documents = s.documents ++ qs.map (·.origin)
  elements : s'.elements = s.elements ++ ds.filterMap (·.element?)
  attributes : s'.attributes = s.attributes ++ ds.filterMap (·.attribute?)
  complexTypes : s'.complexTypes = (ds.filterMap (·.complexType?)).reverse ++ s.complexTypes
  simpleTypes : s'.simpleTypes = (ds.filterMap (·.simpleType?)).reverse ++ s.simpleTypes

theorem Extends.refl (s : Schema) : Extends s [] [] s := by
  constructor <;> simp

theorem Extends.trans {s s₁ s' : Schema} {qs qs' : List Resource} {ds ds' : List Declaration}
    (h : Extends s qs ds s₁) (h' : Extends s₁ qs' ds' s') :
    Extends s (qs ++ qs') (ds ++ ds') s' := by
  constructor
  · rw [h'.documents, h.documents, List.map_append, List.append_assoc]
  · rw [h'.elements, h.elements, List.filterMap_append, List.append_assoc]
  · rw [h'.attributes, h.attributes, List.filterMap_append, List.append_assoc]
  · rw [h'.complexTypes, h.complexTypes, List.filterMap_append, List.reverse_append,
      List.append_assoc]
  · rw [h'.simpleTypes, h.simpleTypes, List.filterMap_append, List.reverse_append,
      List.append_assoc]

theorem extends_take (s : Schema) (d : Declaration) : Extends s [] [d] (s.take d) := by
  constructor
  · simp [take]
  · cases hd : d.element? <;> simp [take, hd]
  · cases hd : d.attribute? <;> simp [take, hd]
  · cases hd : d.complexType? <;> simp [take, hd]
  · cases hd : d.simpleType? <;> simp [take, hd]

theorem extends_finish (s : Schema) (r : Resource) : Extends s [r] [] (s.finish r) := by
  constructor <;> simp [finish]

theorem documents_begin (s : Schema) (reading : List String) (h : Header) :
    (s.begin reading h).documents = s.documents := by
  unfold begin
  split <;> rfl

theorem extends_begin (s : Schema) (reading : List String) (h : Header) :
    Extends s [] [] (s.begin reading h) := by
  unfold begin
  split <;> constructor <;> simp

/-- What a task has added when it comes to its end: the documents `qs`, in the order in which they
were finished, and the declarations `ds`, in the order in which they were taken in. -/
structure Adds (files : File.Tree) (reading : List String) (task : Task) (s : Schema)
    (qs : List Resource) (ds : List Declaration) (s' : Schema) : Prop where
  grows : Extends s qs ds s'
  declared : ds.Perm (task.declarations ++ qs.flatMap (·.declarations))
  distinct : (s.documents ++ reading).Nodup → (s'.documents ++ reading).Nodup
  asked : ∀ q, task.Asks files q → q.origin ∈ s'.documents ++ reading
  closed : ∀ q ∈ qs, ∀ next, Refers files q next → next.origin ∈ s'.documents ++ reading
  reached : ∀ q ∈ qs, ∃ r, task.Asks files r ∧ Reaches files r q
  sound : task.Sound files
  sounds : ∀ q ∈ qs, q.Sound files

variable {files : File.Tree} {reading : List String} {s s₁ s' : Schema}

theorem adds_nothing {task : Task} (hdeclarations : task.declarations = [])
    (hasked : ∀ q, task.Asks files q → q.origin ∈ s.documents ++ reading)
    (hsound : task.Sound files) : Adds files reading task s [] [] s := by
  refine ⟨.refl s, ?_, id, hasked, by simp, by simp, hsound, by simp⟩
  rw [hdeclarations]
  exact .nil

/-- One task after another, where both make up a third. -/
theorem Adds.trans {first rest whole : Task} {qs qs' : List Resource} {ds ds' : List Declaration}
    (h : Adds files reading first s qs ds s₁) (h' : Adds files reading rest s₁ qs' ds' s')
    (hdeclarations : whole.declarations = first.declarations ++ rest.declarations)
    (hasks : ∀ q, whole.Asks files q ↔ first.Asks files q ∨ rest.Asks files q)
    (hsound : first.Sound files → rest.Sound files → whole.Sound files) :
    Adds files reading whole s (qs ++ qs') (ds ++ ds') s' := by
  have hkept : ∀ n, n ∈ s₁.documents ++ reading → n ∈ s'.documents ++ reading := by
    intro n hn
    rw [h'.grows.documents]
    simp only [List.mem_append] at hn ⊢
    exact hn.imp_left .inl
  refine ⟨h.grows.trans h'.grows, ?_, h'.distinct ∘ h.distinct, fun q hq => ?_, fun q hq => ?_,
    fun q hq => ?_, hsound h.sound h'.sound, fun q hq => ?_⟩
  · rw [hdeclarations, List.flatMap_append]
    refine (h.declared.append h'.declared).trans ?_
    simp only [List.append_assoc]
    exact .append_left _ (by
      rw [← List.append_assoc, ← List.append_assoc]
      exact .append_right _ List.perm_append_comm)
  · rcases (hasks q).mp hq with hq | hq
    · exact hkept _ (h.asked q hq)
    · exact h'.asked q hq
  · intro next hnext
    rcases List.mem_append.mp hq with hq | hq
    · exact hkept _ (h.closed q hq next hnext)
    · exact h'.closed q hq next hnext
  · rcases List.mem_append.mp hq with hq | hq
    · obtain ⟨r, hr, hreaches⟩ := h.reached q hq
      exact ⟨r, (hasks r).mpr (.inl hr), hreaches⟩
    · obtain ⟨r, hr, hreaches⟩ := h'.reached q hq
      exact ⟨r, (hasks r).mpr (.inr hr), hreaches⟩
  · rcases List.mem_append.mp hq with hq | hq
    · exact h.sounds q hq
    · exact h'.sounds q hq

/-- A declaration before the other parts of a document. -/
theorem Adds.declares {r : Resource} {h : Header} {e : Element} {es : List Element}
    {qs : List Resource} {ds : List Declaration} (href : reference? e = none)
    (hcompiles : Declaration.Compiles ⟨h, e⟩)
    (hrest : Adds files reading (.parts r h es) (s.take ⟨h, e⟩) qs ds s') :
    Adds files reading (.parts r h (e :: es)) s qs (⟨h, e⟩ :: ds) s' := by
  refine ⟨(extends_take s ⟨h, e⟩).trans hrest.grows, ?_, hrest.distinct, fun q hq => ?_,
    hrest.closed, fun q hq => ?_, ?_, hrest.sounds⟩
  · rw [Task.declarations, declarationsIn_cons_of_none href]
    exact hrest.declared.cons _
  · exact hrest.asked q ((asksIn_cons_of_none href).mp hq)
  · obtain ⟨next, hnext, hreaches⟩ := hrest.reached q hq
    exact ⟨next, (asksIn_cons_of_none href).mpr hnext, hreaches⟩
  · refine soundIn_cons.mpr ⟨⟨fun ref hsome => ?_, fun _ => hcompiles⟩, hrest.sound⟩
    rw [href] at hsome
    cases hsome

/-- A document around its parts. -/
theorem Adds.reads {r : Resource} {root : Element} {qs : List Resource} {ds : List Declaration}
    (hroot : r.root = .ok root)
    (hparts : Adds files (r.origin :: reading) (.parts r (Header.ofElement root) root.children)
      (s.begin reading (Header.ofElement root)) qs ds s') (hdocuments : r.origin ∉ s.documents)
    (hreading : r.origin ∉ reading) :
    Adds files reading (.document r) s (qs ++ [r]) ds (s'.finish r) := by
  -- What is known within the document is known behind it.
  have hnames : s'.documents ++ r.origin :: reading = (s'.finish r).documents ++ reading := by
    simp [finish]
  have hgrows := ((extends_begin s reading (Header.ofElement root)).trans hparts.grows).trans
    (extends_finish s' r)
  rw [List.nil_append, List.nil_append, List.append_nil] at hgrows
  have hrefers : ∀ next, Refers files r next → AsksIn files r.base root.children next := by
    rintro next ⟨root', hroot', hasks⟩
    rw [hroot] at hroot'
    cases hroot'
    exact hasks
  refine ⟨hgrows, ?_, fun hdistinct => ?_, fun q hq => ?_, fun q hq next hnext => ?_,
    fun q hq => ?_, trivial, fun q hq => ?_⟩
  · have hown : r.declarations = declarationsIn (Header.ofElement root) root.children := by
      rw [Resource.declarations, hroot]
    rw [Task.declarations, List.nil_append, List.flatMap_append, List.flatMap_singleton, hown]
    exact hparts.declared.trans List.perm_append_comm
  · rw [← hnames]
    refine hparts.distinct ?_
    rw [documents_begin]
    exact List.nodup_middle.mpr (List.nodup_cons.mpr ⟨by simp [hdocuments, hreading], hdistinct⟩)
  · rw [show q = r from hq]
    simp [finish]
  · rw [← hnames]
    rcases List.mem_append.mp hq with hq | hq
    · exact hparts.closed q hq next hnext
    · rw [List.mem_singleton.mp hq] at hnext
      exact hparts.asked next (hrefers next hnext)
  · refine ⟨r, rfl, ?_⟩
    rcases List.mem_append.mp hq with hq | hq
    · obtain ⟨next, hnext, hreaches⟩ := hparts.reached q hq
      exact .head ⟨root, hroot, hnext⟩ hreaches
    · rw [List.mem_singleton.mp hq]
      exact .refl
  · rcases List.mem_append.mp hq with hq | hq
    · exact hparts.sounds q hq
    · rw [List.mem_singleton.mp hq]
      exact ⟨root, hroot, hparts.sound⟩

theorem Adds.walks_append {first : Task} {qs qs' rs rs' : List Resource} {ds : List Declaration}
    (h : Adds files reading first s qs ds s₁)
    (hfirst : Walks files (s.documents ++ reading) rs qs)
    (hrest : Walks files (s₁.documents ++ reading) rs' qs') :
    Walks files (s.documents ++ reading) (rs ++ rs') (qs ++ qs') := by
  refine hfirst.append (hrest.congr fun n => ?_)
  rw [h.grows.documents]
  simp only [List.mem_append]
  tauto

/-- **What a schema is made of.** A task that comes to its end has walked through its documents, and
has added those that it read there, with their declarations. -/
theorem Loads.walks {task : Task} {answer : Except Fault Schema}
    (hloads : Loads files reading task s answer) (hanswer : answer = .ok s') :
    ∃ qs ds, Walks files (s.documents ++ reading) (task.targets files) qs ∧
      Adds files reading task s qs ds s' := by
  induction hloads generalizing s' with
  | done =>
    cases hanswer
    exact ⟨[], [], .nil, adds_nothing rfl (fun q hq => by cases hq) trivial⟩
  | fails => cases hanswer
  | source _ _ ihfirst ihrest =>
    obtain ⟨qs, ds, hwalk, hfirst⟩ := ihfirst rfl
    obtain ⟨qs', ds', hwalk', hrest⟩ := ihrest hanswer
    exact ⟨_, _, hfirst.walks_append hwalk hwalk',
      hfirst.trans hrest rfl (fun q => List.mem_cons) fun _ _ => trivial⟩
  | known hknown =>
    cases hanswer
    refine ⟨[], [], .known (List.mem_append.mpr hknown) .nil,
      adds_nothing rfl (fun q hq => ?_) trivial⟩
    rw [show q = _ from hq]
    exact List.mem_append.mpr hknown
  | rootless => cases hanswer
  | @read reading r root s answer hdocuments hreading hroot _ ih =>
    cases answer with
    | error f => cases hanswer
    | ok s₁ =>
      cases hanswer
      obtain ⟨qs, ds, hwalk, hparts⟩ := ih rfl
      have hnew : r.origin ∉ s.documents ++ reading := by simp [hdocuments, hreading]
      rw [documents_begin, Task.targets, ← Resource.targets_of_root hroot] at hwalk
      have hinner : Walks files (r.origin :: (s.documents ++ reading)) (r.targets files) qs :=
        hwalk.congr fun n => List.perm_middle.mem_iff
      exact ⟨_, _, .read hnew hinner .nil, hparts.reads hroot hdocuments hreading⟩
  | nothing =>
    cases hanswer
    exact ⟨[], [], .nil, adds_nothing rfl (fun q hq => by simp [Task.Asks, AsksIn] at hq)
      (fun e he => by cases he)⟩
  | flawed => cases hanswer
  | declared href hdeclare _ ih =>
    obtain ⟨hcompiles, rfl⟩ := Declaration.compiles_of_declare hdeclare
    obtain ⟨qs, ds, hwalk, hrest⟩ := ih hanswer
    refine ⟨_, _, ?_, hrest.declares href hcompiles⟩
    rw [Task.targets, targetsIn_cons_of_none href]
    exact hwalk
  | astray => cases hanswer
  | stopped => cases hanswer
  | followed href htarget _ _ ihfirst ihrest =>
    obtain ⟨qs, ds, hwalk, hfirst⟩ := ihfirst rfl
    obtain ⟨qs', ds', hwalk', hrest⟩ := ihrest hanswer
    refine ⟨_, _, ?_, hfirst.trans hrest (declarationsIn_cons_of_some href)
      (fun q => asksIn_cons_of_some href htarget)
      fun _ hsound => soundIn_cons.mpr ⟨⟨?_, ?_⟩, hsound⟩⟩
    · rw [Task.targets, targetsIn_cons_of_some href htarget]
      exact hfirst.walks_append hwalk hwalk'
    · intro ref hsome
      rw [href] at hsome
      cases hsome
      exact ⟨_, htarget⟩
    · intro hnone
      rw [href] at hnone
      cases hnone

theorem Loads.adds {task : Task} {answer : Except Fault Schema}
    (hloads : Loads files reading task s answer) (hanswer : answer = .ok s') :
    ∃ qs ds, Adds files reading task s qs ds s' := by
  obtain ⟨qs, ds, -, hadds⟩ := hloads.walks hanswer
  exact ⟨qs, ds, hadds⟩

/-- Behind a first task that has come to its end, the walk goes on from what the task has read. -/
theorem Loads.walks_behind {first : Task} {rs qs : List Resource}
    (hfirst : Loads files reading first s (.ok s₁))
    (hwalk : Walks files (s.documents ++ reading) (first.targets files ++ rs) qs) :
    ∃ later, (∀ q ∈ later, q ∈ qs) ∧ Walks files (s₁.documents ++ reading) rs later := by
  obtain ⟨before, later, rfl, hbefore, hlater⟩ := Walks.split _ hwalk
  obtain ⟨read, ds, hread, hadds⟩ := hfirst.walks rfl
  obtain rfl := hbefore.eq hread
  refine ⟨later, fun q => List.mem_append_right _, hlater.congr fun n => ?_⟩
  rw [hadds.grows.documents]
  simp only [List.mem_append]
  tauto

/-- A first document that fails has failed in one of the documents of the whole walk. -/
theorem Walks.failed_first {r : Resource} {seen : List String} {rs qs : List Resource} {f : Fault}
    (hwalk : Walks files seen (r :: rs) qs)
    (hfirst : ∀ first, Walks files seen [r] first →
      (Task.document r).Fails files f ∨ ∃ q ∈ first, q.Fails files f) :
    ∃ q ∈ qs, q.Fails files f := by
  obtain ⟨first, later, rfl, hwalk, -⟩ := Walks.split [r] hwalk
  obtain hown | ⟨q, hq, hfails⟩ := hfirst first hwalk
  · cases hown
  · exact ⟨q, List.mem_append_left _ hq, hfails⟩

/-- Where a task fails, one of its own parts or one of the documents that it reads does. -/
theorem Loads.failed_within {task : Task} {answer : Except Fault Schema} {f : Fault}
    {qs : List Resource} (hloads : Loads files reading task s answer) (hanswer : answer = .error f)
    (hwalk : Walks files (s.documents ++ reading) (task.targets files) qs) :
    task.Fails files f ∨ ∃ q ∈ qs, q.Fails files f := by
  induction hloads generalizing qs f with
  | done => cases hanswer
  | fails _ ih => exact .inr (hwalk.failed_first fun first hfirst => ih hanswer hfirst)
  | source hfirst _ _ ihrest =>
    obtain ⟨later, hlater, hwalk'⟩ := hfirst.walks_behind hwalk
    obtain hown | ⟨q, hq, hfails⟩ := ihrest hanswer hwalk'
    · cases hown
    · exact .inr ⟨q, hlater q hq, hfails⟩
  | known => cases hanswer
  | rootless hdocuments hreading hroot =>
    cases hanswer
    obtain ⟨inner, rfl, -⟩ := hwalk.of_new (by simp [hdocuments, hreading])
    exact .inr ⟨_, List.mem_append_right _ List.mem_cons_self, .inl hroot⟩
  | @read reading r root s answer hdocuments hreading hroot _ ih =>
    cases answer with
    | ok s₁ => cases hanswer
    | error f' =>
      cases hanswer
      obtain ⟨inner, rfl, hinner⟩ := hwalk.of_new (by simp [hdocuments, hreading])
      have hparts : Walks files ((s.begin reading (Header.ofElement root)).documents ++
          r.origin :: reading) (targetsIn files r.base root.children) inner := by
        rw [documents_begin, ← Resource.targets_of_root hroot]
        exact hinner.congr fun n => List.perm_middle.mem_iff.symm
      obtain hown | ⟨q, hq, hfails⟩ := ih rfl hparts
      · exact .inr ⟨r, List.mem_append_right _ List.mem_cons_self, .inr ⟨root, hroot, hown⟩⟩
      · exact .inr ⟨q, List.mem_append_left _ hq, hfails⟩
  | nothing => cases hanswer
  | flawed href hdeclare =>
    cases hanswer
    rw [declare_eq] at hdeclare
    exact .inl ⟨_, List.mem_cons_self, .inr ⟨href, _, error_of_map hdeclare, rfl⟩⟩
  | declared href hdeclare _ ih =>
    obtain ⟨-, rfl⟩ := Declaration.compiles_of_declare hdeclare
    rw [Task.targets, targetsIn_cons_of_none href] at hwalk
    obtain ⟨e, he, hown⟩ | hread := ih hanswer hwalk
    · exact .inl ⟨e, List.mem_cons_of_mem _ he, hown⟩
    · exact .inr hread
  | astray href htarget =>
    cases hanswer
    exact .inl ⟨_, List.mem_cons_self, .inl ⟨_, href, htarget⟩⟩
  | stopped href htarget _ ih =>
    rw [Task.targets, targetsIn_cons_of_some href htarget] at hwalk
    exact .inr (hwalk.failed_first fun first hfirst => ih hanswer hfirst)
  | followed href htarget hfirst _ _ ihrest =>
    rw [Task.targets, targetsIn_cons_of_some href htarget] at hwalk
    obtain ⟨later, hlater, hwalk'⟩ := hfirst.walks_behind hwalk
    obtain ⟨e, he, hown⟩ | ⟨q, hq, hfails⟩ := ihrest hanswer hwalk'
    · exact .inl ⟨e, List.mem_cons_of_mem _ he, hown⟩
    · exact .inr ⟨q, hlater q hq, hfails⟩

/-- **What failures rest on.** Where a task fails, one of its own parts or one of the documents that
it leads to does. -/
theorem Loads.failed {task : Task} {answer : Except Fault Schema} {f : Fault}
    (hloads : Loads files reading task s answer) (hanswer : answer = .error f) :
    task.Fails files f ∨ ∃ r, task.Asks files r ∧ ∃ q, Reaches files r q ∧ q.Fails files f := by
  obtain ⟨qs, hwalk⟩ := exists_walks files (s.documents ++ reading) (task.targets files)
  obtain hown | ⟨q, hq, hfails⟩ := hloads.failed_within hanswer hwalk
  · exact .inl hown
  · obtain ⟨r, hr, hreaches⟩ := hwalk.reached q hq
    exact .inr ⟨r, Task.mem_targets.mp hr, q, hreaches, hfails⟩

end ScopedXml.Schema
