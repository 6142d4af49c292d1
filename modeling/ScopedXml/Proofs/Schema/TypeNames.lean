import ScopedXml.Proofs.Schema.Declared

/-!
# What type names denote

Types are kept under their local names. A name outside the schema namespace denotes the complex type
of that local name that was read last, whichever namespace it is in, or else the simple type
(`compile_denotes`); so it denotes the type of its own namespace if no other namespace has a type of
that local name, and not always otherwise (`not_all_denoted`).

* `Declaration.Defines`: the declaration of a named type.
* `Denotes`: what a local name comes down to among declarations.
-/

namespace ScopedXml.Schema

open Document (Element)

variable {files : File.Tree} {sources : List Source} {rs qs : List Resource} {s : Schema}
  {ds : List Declaration} {name : String}

namespace Declaration

/-- The declaration is that of a type with this local name. -/
def Defines (d : Declaration) (name : String) : Prop :=
  (d.element.name = "complexType" ∨ d.element.name = "simpleType") ∧
    d.element.attr? "name" = some name

instance (d : Declaration) (name : String) : Decidable (d.Defines name) :=
  inferInstanceAs (Decidable (_ ∧ _))

/-- The type that a declaration defines. -/
def type? (d : Declaration) : Option Resolved :=
  (d.complexType?.map (.complex ·.2)).or (d.simpleType?.map (.value <| .restricted ·.2))

theorem complexType?_some {d : Declaration} {t : ComplexType}
    (h : d.complexType? = some (name, t)) : d.Defines name ∧ d.type? = some (.complex t) := by
  refine ⟨?_, by rw [type?, h]; rfl⟩
  unfold complexType? at h
  split at h
  · next hkind =>
    obtain ⟨n, hname, hrest⟩ := Option.bind_eq_some_iff.mp h
    obtain ⟨t', -, hpair⟩ := Option.map_eq_some_iff.mp hrest
    cases hpair
    exact ⟨.inl hkind, hname⟩
  · cases h

theorem simpleType?_some {d : Declaration} {t : SimpleType} (h : d.simpleType? = some (name, t)) :
    d.Defines name ∧ d.type? = some (.value (.restricted t)) := by
  unfold simpleType? at h
  split at h
  · next hkind =>
    obtain ⟨n, hname, hpair⟩ := Option.map_eq_some_iff.mp h
    cases hpair
    have hnone : d.complexType? = none := if_neg (by rw [hkind]; decide)
    refine ⟨⟨.inr hkind, hname⟩, ?_⟩
    rw [type?, hnone, simpleType?, if_pos hkind, hname]
    rfl
  · cases h

/-- What defines a type has one, if it compiles. -/
theorem Defines.named {d : Declaration} (h : d.Defines name) (hcompiles : d.Compiles) :
    (∃ t, d.complexType? = some (name, t)) ∨ ∃ t, d.simpleType? = some (name, t) := by
  obtain ⟨hkind, hname⟩ := h
  rcases hkind with hkind | hkind
  · obtain ⟨s, hdeclare⟩ := hcompiles
    unfold Schema.declare at hdeclare
    rw [if_neg (by rw [hkind]; decide), if_neg (by rw [hkind]; decide), if_pos hkind] at hdeclare
    obtain ⟨n, -, hrest⟩ := bind_ok hdeclare
    obtain ⟨t, ht, -⟩ := bind_ok hrest
    exact .inl ⟨t, by simp [complexType?, hkind, hname, ht, Except.toOption]⟩
  · exact .inr ⟨_, by rw [simpleType?, if_pos hkind, hname]; rfl⟩

end Declaration

/-! ## Names among declarations -/

/-- `d` is the last of some declarations that `f` has an entry of this name for. -/
def Latest {T : Type} (f : Declaration → Option (String × T)) (ds : List Declaration)
    (name : String) (d : Declaration) : Prop :=
  ∃ before after, ds = before ++ d :: after ∧ ∀ d' ∈ after, ∀ t, f d' ≠ some (name, t)

/-- What a local name comes down to among declarations in the order in which they were read: the
complex type read last, or else the simple type read last. -/
inductive Denotes (ds : List Declaration) (name : String) : Resolved → Prop
  | complex {d : Declaration} {t : ComplexType} : d.complexType? = some (name, t) →
    Latest (·.complexType?) ds name d → Denotes ds name (.complex t)
  | simple {d : Declaration} {t : SimpleType} : (∀ d ∈ ds, ∀ t, d.complexType? ≠ some (name, t)) →
    d.simpleType? = some (name, t) → Latest (·.simpleType?) ds name d →
    Denotes ds name (.value (.restricted t))
  | nothing : (∀ d ∈ ds, ∀ t, d.complexType? ≠ some (name, t)) →
    (∀ d ∈ ds, ∀ t, d.simpleType? ≠ some (name, t)) → Denotes ds name (.unknown name)

/-- A table that holds what declarations add to it, the latest first, finds the latest. -/
theorem find?_latest {T : Type} {f : Declaration → Option (String × T)} {entry : String × T}
    (h : (ds.filterMap f).reverse.find? (·.1 == name) = some entry) :
    ∃ d, f d = some (name, entry.2) ∧ Latest f ds name d := by
  rw [← List.filterMap_reverse, List.find?_filterMap] at h
  obtain ⟨d, hfind, hentry⟩ := Option.bind_eq_some_iff.mp h
  obtain ⟨hname, later, earlier, hds, hlater⟩ := List.find?_eq_some_iff_append.mp hfind
  rw [hentry] at hname
  have hname' : entry.1 = name := by simpa using hname
  refine ⟨d, by rw [hentry, ← hname'], earlier.reverse, later.reverse, ?_, fun d' hd' t hd => ?_⟩
  · have hback := congrArg List.reverse hds
    rw [List.reverse_reverse] at hback
    simp [hback]
  · have hnot := hlater d' (List.mem_reverse.mp hd')
    rw [hd] at hnot
    simp at hnot

theorem find?_none {T : Type} {f : Declaration → Option (String × T)}
    (h : (ds.filterMap f).reverse.find? (·.1 == name) = none) :
    ∀ d ∈ ds, ∀ t, f d ≠ some (name, t) := by
  intro d hd t hentry
  have hmem : (name, t) ∈ (ds.filterMap f).reverse :=
    List.mem_reverse.mpr (List.mem_filterMap.mpr ⟨d, hd, hentry⟩)
  have hnot := List.find?_eq_none.mp h _ hmem
  simp at hnot

/-- A named type is looked up among the declarations of a schema. -/
theorem denotes_resolveRef (hgrows : Extends empty qs ds s) (name : String) :
    Denotes ds name (s.resolveRef (.named name)) := by
  have hcomplex : s.complexTypes = (ds.filterMap (·.complexType?)).reverse := by
    rw [hgrows.complexTypes]
    exact List.append_nil _
  have hsimple : s.simpleTypes = (ds.filterMap (·.simpleType?)).reverse := by
    rw [hgrows.simpleTypes]
    exact List.append_nil _
  unfold resolveRef
  dsimp only
  rw [hcomplex, hsimple]
  split
  · next entry hfind =>
    obtain ⟨d, hd, hlatest⟩ := find?_latest hfind
    exact .complex hd hlatest
  · next hnone =>
    split
    · next entry hfind =>
      obtain ⟨d, hd, hlatest⟩ := find?_latest hfind
      exact .simple (find?_none hnone) hd hlatest
    · next hnone' => exact .nothing (find?_none hnone) (find?_none hnone')

theorem Latest.mem {T : Type} {f : Declaration → Option (String × T)} {d : Declaration}
    (h : Latest f ds name d) : d ∈ ds := by
  obtain ⟨before, after, rfl, -⟩ := h
  exact List.mem_append_right _ List.mem_cons_self

/-- A name that one declaration defines denotes what that one defines. -/
theorem Denotes.eq_of_only {t : Resolved} (h : Denotes ds name t) {d : Declaration} (hd : d ∈ ds)
    (hcompiles : d.Compiles) (hdefines : d.Defines name)
    (honly : ∀ d' ∈ ds, d'.Defines name → d' = d) : d.type? = some t := by
  cases h with
  | complex hcomplex hlatest =>
    obtain ⟨hdefines', htype⟩ := Declaration.complexType?_some hcomplex
    rwa [honly _ hlatest.mem hdefines'] at htype
  | simple _ hsimple hlatest =>
    obtain ⟨hdefines', htype⟩ := Declaration.simpleType?_some hsimple
    rwa [honly _ hlatest.mem hdefines'] at htype
  | nothing hcomplex hsimple =>
    rcases hdefines.named hcompiles with ⟨t, ht⟩ | ⟨t, ht⟩
    · exact absurd ht (hcomplex d hd t)
    · exact absurd ht (hsimple d hd t)

/-! ## Names in documents -/

/-- A type name outside the schema namespace becomes a reference by its local name, except that a
built-in type can be named without any namespace. -/
theorem typeRef_of_foreign {e : Element} {value : String} {space : Option String}
    (hname : expandedName e value = (space, name)) (hforeign : space ≠ some schemaUri)
    (hbuiltin : space = none → Value.Builtin.ofName? name = none) :
    typeRef e value = .named name := by
  unfold typeRef
  rw [hname]
  dsimp only
  rw [if_neg hforeign]
  split
  · next hspace => rw [hbuiltin hspace]; rfl
  · rfl

/-- **What type names denote.** In a schema that compiles, a type name that is used anywhere in a
document denotes what its local name comes down to among the declarations of all documents. If no
other namespace has a type of that local name, and its own namespace has one only, it denotes that
type. -/
theorem compile_denotes (hload : Source.loadAll files sources = .ok rs)
    (hcompile : compile files sources = .ok s) :
    ∃ (qs : List Resource) (ds : List Declaration),
      s.documents = qs.map (·.origin) ∧ s.documents.Nodup ∧
      (∀ q ∈ qs, ∃ r ∈ rs, Reaches files r q) ∧ (∀ r ∈ rs, r.origin ∈ s.documents) ∧
      ds.Perm (qs.flatMap (·.declarations)) ∧
      ∀ (e : Element) (value : String) (space : Option String) (name : String),
        expandedName e value = (space, name) → space ≠ some schemaUri →
        (space = none → Value.Builtin.ofName? name = none) →
        Denotes ds name (s.resolveRef (typeRef e value)) ∧
          ∀ d ∈ ds, d.Defines name →
            (∀ d' ∈ ds, d'.Defines name → d'.header.targetNamespace = space) →
            (∀ d' ∈ ds, d'.Defines name → d'.header.targetNamespace = space → d' = d) →
            d.type? = some (s.resolveRef (typeRef e value)) := by
  obtain ⟨qs, ds, h⟩ := adds_of_compile hload hcompile
  refine ⟨qs, ds, h.documents_eq, h.documents_nodup, h.reached, fun r hr => h.origin_mem hr,
    h.declared_perm, fun e value space name hname hforeign hbuiltin => ?_⟩
  have hdenotes := denotes_resolveRef h.grows name
  rw [typeRef_of_foreign hname hforeign hbuiltin]
  refine ⟨hdenotes, fun d hd hdefines halone honly => ?_⟩
  exact hdenotes.eq_of_only hd (h.compiles hd) hdefines fun d' hd' hdefines' =>
    honly d' hd' hdefines' (halone d' hd' hdefines')

/-! ## Two namespaces -/

/-- A simple type `t` of the namespace `u`, with an element of that type. -/
def simpleText : String :=
  "<schema targetNamespace='u' xmlns:u='u'><element name='r' type='u:t'/>"
    ++ "<simpleType name='t'/></schema>"

/-- A complex type of the namespace `v`. -/
def complexText (name : String) : String :=
  "<schema targetNamespace='v'><complexType name='" ++ name ++ "'/></schema>"

def twoNamespaces (name : String) : List Source :=
  [⟨.text simpleText, none⟩, ⟨.text (complexText name), none⟩]

/-- What is read for them. -/
def twoResources (name : String) : List Resource :=
  [⟨"inline schema 1", simpleText, none⟩, ⟨"inline schema 2", complexText name, none⟩]

theorem loadAll_twoNamespaces (name : String) :
    Source.loadAll .empty (twoNamespaces name) = .ok (twoResources name) := rfl

/-- The declarations in them: one that names the type `t` of its namespace, the only one of this
name there, and a last one, which defines a type of this name, too, if `complex` says so. -/
theorem outline_twoResources (name : String) (complex : Bool)
    (houtline : ((twoResources name).flatMap (·.declarations)).map
      (fun d => ((d.element.attr? "type").map (expandedName d.element), d.header.targetNamespace,
        decide (d.Defines "t"), d.simpleType?)) =
      [(some (some "u", "t"), some "u", false, none),
        (none, some "u", true, some ("t", ⟨some "t", Value.Builtin.string, []⟩)),
        (none, some "v", complex, none)]) :
    ∃ user ∈ (twoResources name).flatMap (·.declarations),
      ∃ type ∈ (twoResources name).flatMap (·.declarations),
      (∃ value, user.element.attr? "type" = some value ∧
        expandedName user.element value = (some "u", "t")) ∧
      type.Defines "t" ∧ type.header.targetNamespace = some "u" ∧
      type.simpleType? = some ("t", ⟨some "t", Value.Builtin.string, []⟩) ∧
      ∀ d ∈ (twoResources name).flatMap (·.declarations), d.Defines "t" →
        complex = false ∨ d.header.targetNamespace = some "u" → d = type := by
  have hlength := congrArg List.length houtline
  rw [List.length_map] at hlength
  obtain ⟨user, type, other, hall⟩ := List.length_eq_three.mp hlength
  rw [hall] at houtline ⊢
  simp only [List.map_cons, List.map_nil, List.cons.injEq, Prod.mk.injEq, decide_eq_true_eq,
    decide_eq_false_iff_not, Option.map_eq_some_iff, and_true] at houtline
  obtain ⟨⟨huser, -, hnot, -⟩, ⟨-, hspace, hdefines, hsimple⟩, -, hother, hcomplex, -⟩ := houtline
  refine ⟨user, by simp, type, by simp, huser, hdefines, hspace, hsimple, fun d hd hd' hwhere => ?_⟩
  simp only [List.mem_cons, List.not_mem_nil, or_false] at hd
  rcases hd with rfl | rfl | rfl
  · exact absurd hd' hnot
  · rfl
  · rcases hwhere with hfalse | hu
    · rw [← hcomplex, decide_eq_false_iff_not] at hfalse
      exact absurd hd' hfalse
    · rw [hother] at hu
      exact absurd hu (by decide)

/-- The name of the simple type denotes it when the other type is called something else. -/
theorem compile_denotes_simple : ∃ s user value,
    compile .empty (twoNamespaces "w") = .ok s ∧
      user ∈ (twoResources "w").flatMap (·.declarations) ∧
      user.element.attr? "type" = some value ∧ s.resolveRef (typeRef user.element value) =
        .value (.restricted ⟨some "t", Value.Builtin.string, []⟩) := by
  obtain ⟨user, huser, type, htype, ⟨value, hvalue, hname⟩, hdefines, hspace, hsimple, honly⟩ :=
    outline_twoResources "w" false (by decide +kernel)
  have halone : ∀ r ∈ twoResources "w", r.standsAlone = true := by decide +kernel
  have hcompiles : (compile .empty (twoNamespaces "w")).map (·.documents) =
      .ok ["inline schema 1", "inline schema 2"] := by
    decide +kernel
  obtain ⟨s, hcompile, -⟩ := ok_of_map hcompiles
  obtain ⟨qs, ds, hdocuments, hdistinct, hreached, hasked, hdeclared, hdenotes⟩ :=
    compile_denotes (loadAll_twoNamespaces "w") hcompile
  rw [hdocuments] at hdistinct hasked
  have hqs := perm_of_standsAlone halone (by decide) hdistinct hreached hasked
  have hds := hdeclared.trans (hqs.flatMap_right _)
  have honly' : ∀ d ∈ ds, d.Defines "t" → d = type :=
    fun d hd hdefines => honly d (hds.mem_iff.mp hd) hdefines (.inl rfl)
  have hdenoted := (hdenotes user.element value (some "u") "t" hname (by decide)
    (fun hnone => by cases hnone)).2 type (hds.mem_iff.mpr htype) hdefines
    (fun d hd hdefines => honly' d hd hdefines ▸ hspace)
    (fun d hd hdefines _ => honly' d hd hdefines)
  rw [(Declaration.simpleType?_some hsimple).2] at hdenoted
  exact ⟨s, user, value, hcompile, huser, hvalue, (Option.some.inj hdenoted).symm⟩

/-- The declaration is in a document that some documents lead to. -/
def Loaded (files : File.Tree) (rs : List Resource) (d : Declaration) : Prop :=
  ∃ r ∈ rs, ∃ q, Reaches files r q ∧ d ∈ q.declarations

theorem loaded_iff_of_standsAlone (halone : ∀ r ∈ rs, r.standsAlone = true) {d : Declaration} :
    Loaded files rs d ↔ d ∈ rs.flatMap (·.declarations) := by
  rw [List.mem_flatMap]
  constructor
  · rintro ⟨r, hr, q, hreaches, hd⟩
    rw [eq_of_standsAlone (halone r hr) hreaches] at hd
    exact ⟨r, hr, hd⟩
  · rintro ⟨r, hr, hd⟩
    exact ⟨r, hr, r, .refl, hd⟩

/-- A name does not always denote the only type of its namespace that it can mean: one of another
namespace is found under its local name. -/
theorem not_all_denoted : ¬ ∀ (files : File.Tree) (sources : List Source) (rs : List Resource)
    (s : Schema), Source.loadAll files sources = .ok rs → compile files sources = .ok s →
      ∀ user value space name, Loaded files rs user → user.element.attr? "type" = some value →
        expandedName user.element value = (some space, name) → space ≠ schemaUri →
        ∀ d, Loaded files rs d → d.Defines name → d.header.targetNamespace = some space →
          (∀ d', Loaded files rs d' → d'.Defines name →
            d'.header.targetNamespace = some space → d' = d) →
          d.type? = some (s.resolveRef (typeRef user.element value)) := by
  intro hclaim
  obtain ⟨user, huser, type, htype, ⟨value, hvalue, hname⟩, hdefines, hspace, hsimple, honly⟩ :=
    outline_twoResources "t" true (by decide +kernel)
  have halone : ∀ r ∈ twoResources "t", r.standsAlone = true := by decide +kernel
  have hloaded : ∀ d, Loaded .empty (twoResources "t") d ↔ _ :=
    fun d => loaded_iff_of_standsAlone halone
  have hcomplex : (compile .empty (twoNamespaces "t")).map (·.complexTypes.map (·.1)) =
      .ok ["t"] := by
    decide +kernel
  obtain ⟨s, hcompile, htypes⟩ := ok_of_map hcomplex
  obtain ⟨⟨n, t⟩, htypes, rfl⟩ := List.map_eq_singleton_iff.mp htypes
  have hdenoted := hclaim _ _ _ s (loadAll_twoNamespaces "t") hcompile user value "u" "t"
    ((hloaded user).mpr huser) hvalue hname (by decide) type ((hloaded type).mpr htype) hdefines
    hspace fun d hd hd' hu => honly d ((hloaded d).mp hd) hd' (.inr hu)
  rw [(Declaration.simpleType?_some hsimple).2, typeRef_of_foreign hname (by decide)
    (fun hnone => by cases hnone), resolveRef, htypes] at hdenoted
  simp only [List.find?_cons, beq_self_eq_true] at hdenoted
  cases hdenoted

end ScopedXml.Schema
