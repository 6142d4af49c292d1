import ScopedXml.Proofs.Schema.Contents

/-!
# What a schema declares

A schema declares what its documents declare, each of them under its target namespace. There is one
document for each name, so a source whose name stands for another document is left out
(`not_all_declared`); every other source is there with all that it declares (`compile_declares`).

* `Resource.Declares`: the top-level elements and attributes of a document.
* `Adds.element?_isSome`, `Adds.attr?_isSome`: what a schema finds is what its documents declare.
-/

namespace ScopedXml.Schema

open Document (Element)

variable {files : File.Tree} {sources : List Source} {rs : List Resource} {s : Schema}

/-! ## Declarations by name -/

/-- The document has a top-level declaration of this kind (`element` or `attribute`) and name, and
this target namespace. -/
def Resource.Declares (r : Resource) (kind : String) (space : Option String) (name : String) :
    Prop :=
  ∃ root, r.root = .ok root ∧ root.attr? "targetNamespace" = space ∧
    ∃ e ∈ root.children, e.name = kind ∧ e.attr? "name" = some name

instance (r : Resource) (kind : String) (space : Option String) (name : String) :
    Decidable (r.Declares kind space name) :=
  match hroot : r.root with
  | .ok root =>
    decidable_of_iff (root.attr? "targetNamespace" = space ∧
      ∃ e ∈ root.children, e.name = kind ∧ e.attr? "name" = some name) (by
        simp [Resource.Declares, hroot])
  | .error _ => isFalse (by simp [Resource.Declares, hroot])

namespace Declaration

variable {d : Declaration} {space : Option String} {name : String}

/-- The declaration is of this kind, name and namespace. -/
def Says (d : Declaration) (kind : String) (space : Option String) (name : String) : Prop :=
  d.element.name = kind ∧ d.element.attr? "name" = some name ∧ d.header.targetNamespace = space

theorem declaredName_ok {kind : String} {e : Element} :
    declaredName kind e = .ok name ↔ e.attr? "name" = some name := by
  unfold declaredName
  cases e.attr? "name" <;> simp

theorem Compiles.element? (hcompiles : d.Compiles) :
    (∃ decl, d.element? = some decl ∧ decl.name = name ∧ decl.space = space) ↔
      d.Says "element" space name := by
  obtain ⟨s, hdeclare⟩ := hcompiles
  unfold Schema.declare at hdeclare
  unfold Declaration.element? Says
  by_cases hkind : d.element.name = "element"
  · rw [if_pos hkind] at hdeclare ⊢
    cases hdecl : elementDecl d.header d.element with
    | error flaw =>
      rw [hdecl] at hdeclare
      cases hdeclare
    | ok decl =>
      obtain ⟨n, hname, hrest⟩ := bind_ok hdecl
      obtain ⟨type, -, hrest⟩ := bind_ok hrest
      cases hrest
      rw [declaredName_ok] at hname
      simp [Except.toOption, hkind, hname]
  · simp [hkind]

theorem Compiles.attribute? (hcompiles : d.Compiles) :
    (∃ decl, d.attribute? = some decl ∧ decl.name = name ∧ decl.space = space) ↔
      d.Says "attribute" space name := by
  obtain ⟨s, hdeclare⟩ := hcompiles
  unfold Schema.declare at hdeclare
  unfold Declaration.attribute? Says
  by_cases hkind : d.element.name = "attribute"
  · rw [if_neg (by rw [hkind]; decide), if_pos hkind] at hdeclare
    rw [if_pos hkind]
    cases hdecl : attributeDecl d.header d.element with
    | error flaw =>
      rw [hdecl] at hdeclare
      cases hdeclare
    | ok decl =>
      obtain ⟨n, hname, hrest⟩ := bind_ok hdecl
      cases hrest
      rw [declaredName_ok] at hname
      simp [Except.toOption, hkind, hname]
  · simp [hkind]

end Declaration

namespace Resource

theorem mem_declarations {r : Resource} {d : Declaration} :
    d ∈ r.declarations ↔ ∃ root, r.root = .ok root ∧ d.header = Header.ofElement root ∧
      d.element ∈ root.children ∧ reference? d.element = none := by
  unfold declarations declarationsIn
  cases r.root with
  | error f => simp
  | ok root =>
    simp only [List.mem_map, List.mem_filter, Option.isNone_iff_eq_none, Except.ok.injEq,
      exists_eq_left']
    constructor
    · rintro ⟨e, ⟨he, href⟩, rfl⟩
      exact ⟨rfl, he, href⟩
    · rintro ⟨hheader, he, href⟩
      exact ⟨d.element, ⟨he, href⟩, by rw [← hheader]⟩

theorem Sound.compiles {r : Resource} (hsound : r.Sound files) {d : Declaration}
    (hd : d ∈ r.declarations) : d.Compiles := by
  obtain ⟨root, hroot, hparts⟩ := hsound
  obtain ⟨root', hroot', hheader, he, href⟩ := mem_declarations.mp hd
  rw [hroot] at hroot'
  cases hroot'
  have hcompiles := (hparts d.element he).2 href
  rwa [← hheader] at hcompiles

theorem declares_iff {r : Resource} {kind : String} {space : Option String} {name : String}
    (hkind : kind ≠ "import" ∧ kind ≠ "include") :
    r.Declares kind space name ↔ ∃ d ∈ r.declarations, d.Says kind space name := by
  constructor
  · rintro ⟨root, hroot, hspace, e, he, hname, hdeclared⟩
    have href : reference? e = none := if_neg (by simp [hname, hkind.1, hkind.2])
    exact ⟨⟨Header.ofElement root, e⟩, mem_declarations.mpr ⟨root, hroot, rfl, he, href⟩,
      hname, hdeclared, hspace⟩
  · rintro ⟨d, hd, hname, hdeclared, hspace⟩
    obtain ⟨root, hroot, hheader, he, -⟩ := mem_declarations.mp hd
    rw [hheader] at hspace
    exact ⟨root, hroot, hspace, d.element, he, hname, hdeclared⟩

end Resource

/-! ## Compiled schemas -/

theorem compile_eq (hload : Source.loadAll files sources = .ok rs) :
    compile files sources = compileResources files rs := by
  rw [compile, hload]
  rfl

/-- What a schema that compiles consists of. -/
theorem adds_of_compile (hload : Source.loadAll files sources = .ok rs)
    (hcompile : compile files sources = .ok s) :
    ∃ qs ds, Adds files [] (.sources rs) empty qs ds s := by
  rw [compile_eq hload] at hcompile
  exact (loads_compileResources files rs).adds hcompile

namespace Adds

variable {qs : List Resource} {ds : List Declaration}
  (h : Adds files [] (.sources rs) empty qs ds s)
include h

theorem documents_eq : s.documents = qs.map (·.origin) := h.grows.documents

theorem documents_nodup : s.documents.Nodup := by
  have hdistinct := h.distinct List.nodup_nil
  rwa [List.append_nil] at hdistinct

theorem declared_perm : ds.Perm (qs.flatMap (·.declarations)) := h.declared

theorem origin_mem {r : Resource} (hr : r ∈ rs) : r.origin ∈ s.documents := by
  have hasked := h.asked r hr
  rwa [List.append_nil] at hasked

theorem compiles {d : Declaration} (hd : d ∈ ds) : d.Compiles := by
  obtain ⟨q, hq, hd⟩ := List.mem_flatMap.mp (h.declared_perm.mem_iff.mp hd)
  exact (h.sounds q hq).compiles hd

/-- What all documents say together is what each of them says. -/
theorem exists_says {kind : String} {space : Option String} {name : String}
    (hkind : kind ≠ "import" ∧ kind ≠ "include") :
    (∃ d ∈ ds, d.Says kind space name) ↔ ∃ q ∈ qs, q.Declares kind space name := by
  simp only [Resource.declares_iff hkind, h.declared_perm.mem_iff, List.mem_flatMap]
  constructor
  · rintro ⟨d, ⟨q, hq, hd⟩, hsays⟩
    exact ⟨q, hq, d, hd, hsays⟩
  · rintro ⟨q, hq, d, hd, hsays⟩
    exact ⟨d, ⟨q, hq, hd⟩, hsays⟩

theorem element?_isSome {space : Option String} {name : String} :
    (s.element? space name).isSome ↔ ∃ q ∈ qs, q.Declares "element" space name := by
  rw [← h.exists_says (by decide)]
  have helements : s.elements = ds.filterMap (·.element?) := h.grows.elements
  simp only [Schema.element?, helements, List.find?_isSome, List.mem_filterMap, Bool.and_eq_true,
    beq_iff_eq]
  constructor
  · rintro ⟨decl, ⟨d, hd, hdecl⟩, hname, hspace⟩
    exact ⟨d, hd, (h.compiles hd).element?.mp ⟨decl, hdecl, hname, hspace⟩⟩
  · rintro ⟨d, hd, hsays⟩
    obtain ⟨decl, hdecl, hname, hspace⟩ := (h.compiles hd).element?.mpr hsays
    exact ⟨decl, ⟨d, hd, hdecl⟩, hname, hspace⟩

theorem attr?_isSome {space : Option String} {name : String} :
    (s.attr? space name).isSome ↔ ∃ q ∈ qs, q.Declares "attribute" space name := by
  rw [← h.exists_says (by decide)]
  have hattributes : s.attributes = ds.filterMap (·.attribute?) := h.grows.attributes
  simp only [Schema.attr?, hattributes, List.find?_isSome, List.mem_filterMap, Bool.and_eq_true,
    beq_iff_eq]
  constructor
  · rintro ⟨decl, ⟨d, hd, hdecl⟩, hname, hspace⟩
    exact ⟨d, hd, (h.compiles hd).attribute?.mp ⟨decl, hdecl, hname, hspace⟩⟩
  · rintro ⟨d, hd, hsays⟩
    obtain ⟨decl, hdecl, hname, hspace⟩ := (h.compiles hd).attribute?.mpr hsays
    exact ⟨decl, ⟨d, hd, hdecl⟩, hname, hspace⟩

end Adds

/-- A document that is reached under a name is the only one that the name can stand for. -/
theorem declares_of_named {qs : List Resource} {ds : List Declaration}
    (h : Adds files [] (.sources rs) empty qs ds s) {r : Resource} (hr : r ∈ rs)
    (honly : ∀ r' ∈ rs, ∀ q, Reaches files r' q → q.origin = r.origin → q.text = r.text)
    {kind : String} {space : Option String} {name : String}
    (hdeclares : r.Declares kind space name) :
    ∃ q ∈ qs, q.Declares kind space name := by
  have horigin := h.origin_mem hr
  rw [h.documents_eq] at horigin
  obtain ⟨q, hq, hname⟩ := List.mem_map.mp horigin
  obtain ⟨r', hr', hreaches⟩ := h.reached q hq
  have htext := honly r' hr' q hreaches hname
  have hroot : q.root = r.root := by
    unfold Resource.root
    rw [htext, hname]
  refine ⟨q, hq, ?_⟩
  unfold Resource.Declares
  rw [hroot]
  exact hdeclares

/-- **What a schema declares.** A schema that compiles consists of documents with different names,
which the sources lead to, and finds the elements and attributes that these declare. The name of
every source is among them, and all that a source declares is there, unless its name stands for
another document that the sources lead to. -/
theorem compile_declares (hload : Source.loadAll files sources = .ok rs)
    (hcompile : compile files sources = .ok s) :
    ∃ qs : List Resource,
      s.documents = qs.map (·.origin) ∧ s.documents.Nodup ∧
      (∀ q ∈ qs, ∃ r ∈ rs, Reaches files r q) ∧
      (∀ space name, ((s.element? space name).isSome ↔ ∃ q ∈ qs, q.Declares "element" space name) ∧
        ((s.attr? space name).isSome ↔ ∃ q ∈ qs, q.Declares "attribute" space name)) ∧
      ∀ r ∈ rs, r.origin ∈ s.documents ∧
        ((∀ r' ∈ rs, ∀ q, Reaches files r' q → q.origin = r.origin → q.text = r.text) →
          ∀ space name, (r.Declares "element" space name → (s.element? space name).isSome) ∧
            (r.Declares "attribute" space name → (s.attr? space name).isSome)) := by
  obtain ⟨qs, ds, h⟩ := adds_of_compile hload hcompile
  refine ⟨qs, h.documents_eq, h.documents_nodup, h.reached,
    fun space name => ⟨h.element?_isSome, h.attr?_isSome⟩, fun r hr => ⟨h.origin_mem hr, ?_⟩⟩
  intro honly space name
  exact ⟨fun hdeclares => h.element?_isSome.mpr (declares_of_named h hr honly hdeclares),
    fun hdeclares => h.attr?_isSome.mpr (declares_of_named h hr honly hdeclares)⟩

/-! ## Two documents in memory -/

/-- Documents without references, of which the first may have a name. -/
def twoTexts (systemId : Option String) : List Source :=
  [⟨.text "<schema><element name='a'/></schema>", systemId⟩,
    ⟨.text "<schema><element name='b'/></schema>", none⟩]

/-- Whether a document of a schema refers to no other one. -/
def Resource.standsAlone (r : Resource) : Bool :=
  r.root.toOption.any fun root => root.children.all fun e => (reference? e).isNone

theorem eq_of_standsAlone {r q : Resource} (halone : r.standsAlone = true)
    (hreaches : Reaches files r q) : q = r := by
  rcases Relation.ReflTransGen.cases_head hreaches with heq | ⟨next, hrefers, -⟩
  · exact heq.symm
  · obtain ⟨root, hroot, e, he, ref, href, -⟩ := hrefers
    unfold Resource.standsAlone at halone
    rw [hroot] at halone
    have hnone := List.all_eq_true.mp halone e he
    rw [href] at hnone
    cases hnone

/-- Documents that refer to no others, under different names, are all that there is to read. -/
theorem perm_of_standsAlone {qs : List Resource} (halone : ∀ r ∈ rs, r.standsAlone = true)
    (hnames : (rs.map (·.origin)).Nodup) (hdistinct : (qs.map (·.origin)).Nodup)
    (hreached : ∀ q ∈ qs, ∃ r ∈ rs, Reaches files r q)
    (hasked : ∀ r ∈ rs, r.origin ∈ qs.map (·.origin)) : qs.Perm rs := by
  have hsubset : ∀ q ∈ qs, q ∈ rs := by
    intro q hq
    obtain ⟨r, hr, hreaches⟩ := hreached q hq
    rwa [eq_of_standsAlone (halone r hr) hreaches]
  refine (List.perm_ext_iff_of_nodup hdistinct.of_map hnames.of_map).mpr fun q => ⟨hsubset q, ?_⟩
  intro hq
  obtain ⟨q', hq', hname⟩ := List.mem_map.mp (hasked q hq)
  rwa [← List.inj_on_of_nodup_map hnames (hsubset q' hq') hq hname]

/-- Both elements are there when the documents are numbered. -/
theorem compile_declares_numbered : ∃ rs s,
    Source.loadAll .empty (twoTexts none) = .ok rs ∧ compile .empty (twoTexts none) = .ok s ∧
      (s.element? none "a").isSome ∧ (s.element? none "b").isSome := by
  let first : Resource := ⟨"inline schema 1", "<schema><element name='a'/></schema>", none⟩
  let second : Resource := ⟨"inline schema 2", "<schema><element name='b'/></schema>", none⟩
  have hload : Source.loadAll .empty (twoTexts none) = .ok [first, second] := by decide +kernel
  have hcompiles : (compile .empty (twoTexts none)).map (·.documents) =
      .ok ["inline schema 1", "inline schema 2"] := by
    decide +kernel
  obtain ⟨s, hcompile, -⟩ := ok_of_map hcompiles
  have halone : ∀ r ∈ [first, second], r.standsAlone = true := by decide +kernel
  have honly : ∀ r ∈ [first, second], ∀ r' ∈ [first, second], ∀ q, Reaches .empty r' q →
      q.origin = r.origin → q.text = r.text := by
    intro r hr r' hr' q hreaches hname
    rw [eq_of_standsAlone (halone r' hr') hreaches] at hname ⊢
    simp only [List.mem_cons, List.not_mem_nil, or_false] at hr hr'
    rcases hr with rfl | rfl <;> rcases hr' with rfl | rfl
    · rfl
    · exact absurd hname (by decide)
    · exact absurd hname (by decide)
    · rfl
  obtain ⟨-, -, -, -, -, hnamed⟩ := compile_declares hload hcompile
  have hfirst := (hnamed first (by simp)).2 (honly first (by simp)) none "a"
  have hsecond := (hnamed second (by simp)).2 (honly second (by simp)) none "b"
  exact ⟨_, s, hload, hcompile, hfirst.1 (by decide +kernel), hsecond.1 (by decide +kernel)⟩

/-- A document that is given the name of the second place keeps the one at that place out. -/
theorem not_all_declared : ¬ ∀ (files : File.Tree) (sources : List Source) (rs : List Resource)
    (s : Schema), Source.loadAll files sources = .ok rs → compile files sources = .ok s →
      ∀ r ∈ rs, ∀ space name,
        r.Declares "element" space name → (s.element? space name).isSome := by
  intro hall
  let second : Resource := ⟨"inline schema 2", "<schema><element name='b'/></schema>", none⟩
  have hload : Source.loadAll .empty (twoTexts (some "inline schema 2")) =
      .ok [⟨"inline schema 2", "<schema><element name='a'/></schema>", some ⟨""⟩⟩, second] := by
    decide +kernel
  have hmissing : (compile .empty (twoTexts (some "inline schema 2"))).map
      (fun s => (s.element? none "b").isSome) = .ok false := by
    decide +kernel
  obtain ⟨s, hcompile, hnone⟩ := ok_of_map hmissing
  have hfound := hall _ _ _ s hload hcompile second (by simp) none "b" (by decide +kernel)
  rw [hnone] at hfound
  cases hfound

end ScopedXml.Schema
