import ScopedXml.Proofs.Schema.Declared

/-!
# What is read, and in which order

Compiling is one walk through the sources and all that they refer to (`compile_walks`). It fails if
some document on the walk is not in order. Otherwise the schema lists the documents of the walk,
once each and in its order, declares what they declare, and has the target namespace of the first
source.

* `Named`: the names that documents are met under.
* `Walks`, `Ordered`: the walk, and the order in which it reads.
-/

namespace ScopedXml.Schema

open Document (Element)

variable {files : File.Tree} {sources : List Source} {rs qs : List Resource} {s s' : Schema}
  {reading : List String}

/-! ## Names -/

/-- The names under which documents are met: those of the sources, and those that the documents in
`qs` refer to where they are met themselves. -/
inductive Named (files : File.Tree) (rs qs : List Resource) : String → Prop
  | source {r : Resource} : r ∈ rs → Named files rs qs r.origin
  | reference {q next : Resource} : q ∈ qs → Named files rs qs q.origin → Refers files q next →
    Named files rs qs next.origin

theorem Walks.named {seen : List String} (h : Walks files seen rs qs) :
    ∀ q ∈ qs, Named files rs qs q.origin :=
  h.forall_origin (fun _ hr => .source hr) fun _ hq hnamed _ hnext =>
    .reference hq hnamed (Resource.mem_targets.mp hnext)

theorem Adds.mem_documents_iff {ds : List Declaration}
    (h : Adds files [] (.sources rs) empty qs ds s) (hwalk : Walks files [] rs qs) {n : String} :
    n ∈ s.documents ↔ Named files rs qs n := by
  constructor
  · intro hn
    rw [h.documents_eq] at hn
    obtain ⟨q, hq, rfl⟩ := List.mem_map.mp hn
    exact hwalk.named q hq
  · intro hnamed
    cases hnamed with
    | source hr => exact h.origin_mem hr
    | reference hq _ hrefers =>
      have hclosed := h.closed _ hq _ hrefers
      rwa [List.append_nil] at hclosed

/-! ## The target namespace -/

/-- Only the first document of all says what the target namespace is. -/
theorem Loads.targetNamespace_eq {task : Task} {answer : Except Fault Schema}
    (hloads : Loads files reading task s answer) (hanswer : answer = .ok s')
    (hbehind : s.documents ++ reading ≠ []) : s'.targetNamespace = s.targetNamespace := by
  have hkept : ∀ {reading s task s₁}, Loads files reading task s (.ok s₁) →
      s.documents ++ reading ≠ [] → s₁.documents ++ reading ≠ [] := by
    intro reading s task s₁ hfirst hbehind
    obtain ⟨qs, ds, hadds⟩ := hfirst.adds rfl
    rw [hadds.grows.documents]
    simp only [ne_eq, List.append_eq_nil_iff, not_and] at hbehind ⊢
    exact fun h => hbehind h.1
  induction hloads generalizing s' with
  | done | known | nothing =>
    cases hanswer
    rfl
  | fails | rootless | flawed | astray | stopped => cases hanswer
  | source hfirst _ ihfirst ihrest =>
    rw [ihrest hanswer (hkept hfirst hbehind), ihfirst rfl hbehind]
  | @read reading r root s answer _ _ _ _ ih =>
    cases answer with
    | error f => cases hanswer
    | ok s₁ =>
      cases hanswer
      have hbegin : s.begin reading (Header.ofElement root) = s := by
        rw [begin, if_neg (by simpa using hbehind)]
      have hsame := ih rfl (by simp)
      rw [hbegin] at hsame
      exact hsame
  | declared _ hdeclare _ ih =>
    obtain ⟨-, rfl⟩ := Declaration.compiles_of_declare hdeclare
    exact ih hanswer hbehind
  | followed _ _ hfirst _ ihfirst ihrest =>
    rw [ihrest hanswer (hkept hfirst hbehind), ihfirst rfl hbehind]

theorem Loads.targetNamespace_first {r : Resource} {answer : Except Fault Schema}
    (hloads : Loads files [] (.document r) empty answer) (hanswer : answer = .ok s) :
    ∃ root, r.root = .ok root ∧ s.targetNamespace = root.attr? "targetNamespace" := by
  cases hloads with
  | known hknown => simp [empty] at hknown
  | rootless => cases hanswer
  | @read _ _ root _ answer _ _ hroot hparts =>
    cases answer with
    | error f => cases hanswer
    | ok s₁ =>
      cases hanswer
      have hsame : s₁.targetNamespace = root.attr? "targetNamespace" :=
        hparts.targetNamespace_eq rfl (by simp)
      exact ⟨root, hroot, hsame⟩

theorem Loads.targetNamespace_sources {task : Task} {answer : Except Fault Schema}
    (hloads : Loads files [] task empty answer) (hanswer : answer = .ok s) {r : Resource}
    (htask : task = .sources (r :: rs)) :
    ∃ root, r.root = .ok root ∧ s.targetNamespace = root.attr? "targetNamespace" := by
  cases hloads with
  | source hfirst hrest =>
    cases htask
    obtain ⟨qs, ds, hadds⟩ := hfirst.adds rfl
    have hbehind := hadds.asked r rfl
    obtain ⟨root, hroot, hfound⟩ := hfirst.targetNamespace_first rfl
    have hsame := hrest.targetNamespace_eq hanswer (List.ne_nil_of_mem hbehind)
    exact ⟨root, hroot, hsame.trans hfound⟩
  | fails => cases hanswer
  | _ => cases htask

/-! ## Compiling -/

theorem Resource.Fails.not_sound {r : Resource} {f : Fault} (h : r.Fails files f) :
    ¬ r.Sound files := by
  rintro ⟨root, hroot, hparts⟩
  rcases h with hrootless | ⟨root', hroot', e, he, hfails⟩
  · rw [hroot] at hrootless
    cases hrootless
  · rw [hroot] at hroot'
    cases hroot'
    obtain ⟨hreferences, hcompiles⟩ := hparts e he
    rcases hfails with ⟨ref, href, hastray⟩ | ⟨href, flaw, hflaw, -⟩
    · obtain ⟨next, hnext⟩ := hreferences ref href
      rw [hnext] at hastray
      cases hastray
    · obtain ⟨s, hdeclare⟩ := hcompiles href
      rw [hflaw] at hdeclare
      cases hdeclare

/-- **Compiling is a walk.** From sources that can be read there is one walk, which ends, whatever
the documents refer to. A schema comes of it exactly if all documents on the walk are in order; a
fault is that of one of them. The schema lists the documents of the walk, each name that is met
once, and each document right behind those that its references are the first to lead to. It finds
what these documents declare, and its target namespace is that of the first source. -/
theorem compile_walks (files : File.Tree) (sources : List Source) :
    (∀ f, Source.loadAll files sources = .error f → compile files sources = .error f) ∧
    ∀ rs, Source.loadAll files sources = .ok rs →
      ∃ qs, (∀ qs', Walks files [] rs qs' ↔ qs' = qs) ∧
        ((∃ s, compile files sources = .ok s) ↔ ∀ q ∈ qs, q.Sound files) ∧
        (∀ f, compile files sources = .error f → ∃ q ∈ qs, q.Fails files f) ∧
        ∀ s, compile files sources = .ok s →
          s.documents = qs.map (·.origin) ∧ s.documents.Nodup ∧
          (∀ n, n ∈ s.documents ↔ Named files rs qs n) ∧ Ordered files rs qs ∧
          (∀ space name,
            ((s.element? space name).isSome ↔ ∃ q ∈ qs, q.Declares "element" space name) ∧
            ((s.attr? space name).isSome ↔ ∃ q ∈ qs, q.Declares "attribute" space name)) ∧
          ∀ r rest, rs = r :: rest →
            ∃ root, r.root = .ok root ∧ s.targetNamespace = root.attr? "targetNamespace" := by
  refine ⟨fun f hload => by rw [compile, hload]; rfl, fun rs hload => ?_⟩
  obtain ⟨qs, hwalk⟩ := exists_walks files [] rs
  have hloads := loads_compileResources files rs
  have hadds : ∀ s, compile files sources = .ok s →
      ∃ ds, Adds files [] (.sources rs) empty qs ds s := by
    intro s hcompile
    rw [compile_eq hload] at hcompile
    obtain ⟨qs', ds, hwalk', hadds⟩ := hloads.walks hcompile
    obtain rfl := hwalk.eq hwalk'
    exact ⟨ds, hadds⟩
  have hfault : ∀ f, compile files sources = .error f → ∃ q ∈ qs, q.Fails files f := by
    intro f hcompile
    rw [compile_eq hload] at hcompile
    exact (hloads.failed_within hcompile hwalk).resolve_left id
  refine ⟨qs, fun qs' => ⟨hwalk.eq, fun h => h ▸ hwalk⟩, ⟨?sound, ?compiles⟩, hfault,
    fun s hcompile => ?_⟩
  case sound =>
    rintro ⟨s, hcompile⟩
    obtain ⟨ds, h⟩ := hadds s hcompile
    exact h.sounds
  case compiles =>
    intro hsound
    cases hcompile : compile files sources with
    | ok s => exact ⟨s, rfl⟩
    | error f =>
      obtain ⟨q, hq, hfails⟩ := hfault f hcompile
      exact absurd (hsound q hq) hfails.not_sound
  obtain ⟨ds, h⟩ := hadds s hcompile
  refine ⟨h.documents_eq, h.documents_nodup, fun n => h.mem_documents_iff hwalk, hwalk.ordered,
    fun space name => ⟨h.element?_isSome, h.attr?_isSome⟩, ?_⟩
  rintro r rest rfl
  rw [compile_eq hload] at hcompile
  exact hloads.targetNamespace_sources hcompile rfl

/-- Two files that include each other. The one that is referred to stands first, and what both
declare is found. -/
theorem compile_walks_around :
    let a := "<schema targetNamespace='u'><element name='x'/>" ++
      "<include schemaLocation='b.xsd'/></schema>"
    let b := "<schema><include schemaLocation='a.xsd'/><element name='y'/></schema>"
    let files : File.Tree :=
      ⟨[(["a.xsd"], Text.Utf8.encode a), (["b.xsd"], Text.Utf8.encode b)]⟩
    ∃ s, compile files [⟨.file ⟨"a.xsd"⟩, none⟩] = .ok s ∧ s.documents = ["b.xsd", "a.xsd"] ∧
      (s.element? (some "u") "x").isSome ∧ (s.element? none "y").isSome ∧
      s.targetNamespace = some "u" := by
  intro a b files
  let first : Resource := ⟨"a.xsd", a, some ⟨""⟩⟩
  let second : Resource := ⟨"b.xsd", b, some ⟨""⟩⟩
  have hload : Source.loadAll files [⟨.file ⟨"a.xsd"⟩, none⟩] = .ok [first] := by decide +kernel
  have hcompiles : (compile files [⟨.file ⟨"a.xsd"⟩, none⟩]).toBool = true := by decide +kernel
  have htargets : first.targets files = [second] ∧ second.targets files = [first] := by
    decide +kernel
  have hback : Walks files ["b.xsd", "a.xsd"] (second.targets files) [] := by
    rw [htargets.2]
    exact .known (by decide) .nil
  have hinner : Walks files ["a.xsd"] (first.targets files) ([] ++ [second]) := by
    rw [htargets.1]
    exact .read (by decide) hback .nil
  have hnew : first.origin ∉ ([] : List String) := List.not_mem_nil
  have hwalk : Walks files [] [first] [second, first] := .read hnew hinner .nil
  cases hcompile : compile files [⟨.file ⟨"a.xsd"⟩, none⟩] with
  | error f =>
    rw [hcompile] at hcompiles
    cases hcompiles
  | ok s =>
    obtain ⟨qs, hwalks, -, -, hread⟩ := (compile_walks files _).2 _ hload
    obtain rfl := (hwalks _).mp hwalk
    obtain ⟨hdocuments, -, -, -, hdeclares, htarget⟩ := hread s hcompile
    obtain ⟨root, hroot, hspace⟩ := htarget first [] rfl
    refine ⟨s, rfl, hdocuments, (hdeclares _ _).1.mpr ⟨first, by simp, by decide +kernel⟩,
      (hdeclares _ _).1.mpr ⟨second, by simp, by decide +kernel⟩, ?_⟩
    have hroots : first.root.map (·.attr? "targetNamespace") = .ok (some "u") := by decide +kernel
    rw [hroot] at hroots
    rw [hspace]
    exact Except.ok.inj hroots

end ScopedXml.Schema
