import Mathlib
import ScopedXml.Proofs.Schema.TypeNames
import ScopedXml.Proofs.Value.Fields

/-!
# Restrictions of named types

A simple type keeps a built-in base and the values that it lists. The name of another simple type as
its base is not kept, and such a type has the values that it lists, or every text if it lists none.
So whether it accepts no more than a type that it is derived from is up to its list
(`compile_narrows_iff`), and it does not always (`not_all_narrow`).

* `Narrows`: one simple type accepts no value that another one refuses.
* `DerivesFrom`: a simple type element leads to a declared simple type by the names of bases.
* `DerivesFrom.narrows`: the law holds where all types list values that their bases accept.
-/

namespace ScopedXml.Schema

open Document (Element)
open Value (Builtin Form)

/-! ## Blanks around values -/

theorem trimChars_trimChars (cs : List Char) :
    Text.trimChars (Text.trimChars cs) = Text.trimChars cs := by
  have hfront : (Text.trimChars cs).dropWhile Text.isBlank = Text.trimChars cs := by
    have hbegins : Text.trimChars cs <+: cs.dropWhile Text.isBlank := List.rdropWhile_prefix _ _
    rw [List.dropWhile_eq_self_iff]
    intro hlength
    rw [hbegins.getElem hlength]
    exact List.dropWhile_get_zero_not _ _ (hlength.trans_le hbegins.length_le)
  have hback : (Text.trimChars cs).rdropWhile Text.isBlank = Text.trimChars cs :=
    List.rdropWhile_idempotent _ _
  rw [Text.trimChars, hfront]
  exact hback

theorem trim_trim (v : String) : Text.trim (Text.trim v) = Text.trim v := by
  rw [Text.trim, Text.trim, String.toList_ofList, trimChars_trimChars]

theorem accepts_trim (b : Builtin) (v : String) : b.accepts (Text.trim v) = b.accepts v := by
  rw [Builtin.accepts, Text.trim, String.toList_ofList, trimChars_trimChars, Builtin.accepts]

/-- There are too many texts without blanks for a list. -/
theorem exists_unlisted (listed : List String) : ∃ w, Text.trim w = w ∧ w ∉ listed := by
  let letters (k : Nat) : String := String.ofList (List.replicate k 'a')
  have hletters : Function.Injective letters := by
    intro j k hjk
    simpa using congrArg List.length (String.ofList_injective hjk)
  obtain ⟨w, ⟨k, rfl⟩, hw⟩ :=
    (Set.infinite_range_of_injective hletters).exists_notMem_finset listed.toFinset
  have hunblank : Value.Unblank (List.replicate k 'a') := by
    intro c hc
    rw [List.eq_of_mem_replicate hc]
    decide
  refine ⟨letters k, ?_, fun hmem => hw (List.mem_toFinset.mpr hmem)⟩
  rw [Text.trim, String.toList_ofList, hunblank.trimChars]

/-! ## What simple types accept -/

/-- No form but that of plain text has a mark, a blank and a letter. -/
theorem fits_eq_false {f : Form} (hf : f ≠ .text) : f.fits ['!', ' ', 'b'] = false := by
  cases f with
  | text => exact absurd rfl hf
  | _ => rfl

namespace SimpleType

variable {t u : SimpleType} {v : String}

theorem accepts_iff : t.accepts v = true ↔
    t.base.accepts v = true ∧ (t.enumeration = [] ∨ Text.trim v ∈ t.enumeration) := by
  simp [accepts]

theorem accepts_trim : t.accepts (Text.trim v) = true ↔ t.accepts v = true := by
  rw [accepts_iff, accepts_iff, Schema.accepts_trim, trim_trim]

/-- A simple type without any rule. -/
def Free (t : SimpleType) : Prop := t.base.form = .text ∧ t.enumeration = []

instance (t : SimpleType) : Decidable t.Free := inferInstanceAs (Decidable (_ ∧ _))

theorem forall_accepts_iff : (∀ v, t.accepts v = true) ↔ t.Free := by
  simp only [accepts_iff]
  constructor
  · intro hall
    constructor
    · by_contra hform
      have hmarked : t.base.accepts "! b" = t.base.form.fits ['!', ' ', 'b'] := rfl
      rw [fits_eq_false hform] at hmarked
      exact absurd (hall "! b").1 (by rw [hmarked]; decide)
    · by_contra hlisted
      obtain ⟨w, htrim, hw⟩ := exists_unlisted t.enumeration
      rw [← htrim] at hw
      exact hw ((hall w).2.resolve_left hlisted)
  · rintro ⟨hform, hlisted⟩ v
    refine ⟨?_, .inl hlisted⟩
    rw [Builtin.accepts, hform]
    rfl

/-- Every value of a simple type is one of another. -/
def Narrows (t u : SimpleType) : Prop := ∀ v, t.accepts v = true → u.accepts v = true

theorem Narrows.trans {w : SimpleType} (htu : t.Narrows u) (huw : u.Narrows w) : t.Narrows w :=
  fun v hv => huw v (htu v hv)

/-- The other type accepts what this one lists. What begins or ends with a blank does not count:
values are compared without the blanks around them, so that nothing equals it. -/
def ListsFrom (t u : SimpleType) : Prop :=
  ∀ w ∈ t.enumeration, Text.trim w = w → u.accepts w = true

/-- Among types whose base is plain text, the lists decide. -/
theorem narrows_iff (hbase : t.base.form = .text) :
    t.Narrows u ↔ (t.enumeration = [] → u.Free) ∧ t.ListsFrom u := by
  have haccepts : ∀ v, t.accepts v = true ↔ t.enumeration = [] ∨ Text.trim v ∈ t.enumeration := by
    intro v
    rw [accepts_iff, Builtin.accepts, hbase, Form.fits, eq_self, true_and]
  constructor
  · intro hnarrows
    refine ⟨fun hnone => forall_accepts_iff.mp fun v => ?_, fun w hw htrim => ?_⟩
    · exact hnarrows v ((haccepts v).mpr (.inl hnone))
    · exact hnarrows w ((haccepts w).mpr (.inr (htrim.symm ▸ hw)))
  · rintro ⟨hfree, hlists⟩ v hv
    rcases (haccepts v).mp hv with hnone | hlisted
    · exact forall_accepts_iff.mpr (hfree hnone) v
    · exact accepts_trim.mp (hlists _ hlisted (trim_trim v))

end SimpleType

/-- A simple type lists the same values under any name. -/
theorem enumeration_simpleType (n m : Option String) (e : Element) :
    (simpleType n e).enumeration = (simpleType m e).enumeration := by
  unfold simpleType
  split <;> rfl

/-! ## Bases -/

/-- The name that a simple type gives for its base. -/
def baseName? (e : Element) : Option (Option String × String) :=
  (child? e ["restriction"]).bind fun r => (r.attr? "base").map (expandedName r)

/-- The base of a simple type is the simple type that a declaration defines, as far as its local
name tells, and no built-in type. -/
structure Restricts (ds : List Declaration) (e : Element) (d : Declaration) : Prop where
  mem : d ∈ ds
  names : ∃ space name t, baseName? e = some (space, name) ∧ space ≠ some schemaUri ∧
    (space = none → Builtin.ofName? name = none) ∧ d.simpleType? = some (name, t)

/-- The bases of simple types lead, from one to the next, to a declaration. -/
inductive DerivesFrom (ds : List Declaration) : Element → Declaration → Prop
  | base {e : Element} {d : Declaration} : Restricts ds e d → DerivesFrom ds e d
  | step {e : Element} {d d' : Declaration} : Restricts ds e d → DerivesFrom ds d.element d' →
    DerivesFrom ds e d'

variable {files : File.Tree} {sources : List Source} {rs : List Resource} {s : Schema}
  {ds : List Declaration} {e : Element} {d : Declaration}

theorem Declaration.eq_of_simpleType? {name : String} {t : SimpleType}
    (h : d.simpleType? = some (name, t)) : t = simpleType (some name) d.element := by
  unfold simpleType? at h
  split at h
  · obtain ⟨_, -, hpair⟩ := Option.map_eq_some_iff.mp h
    cases hpair
    rfl
  · cases h

theorem Restricts.base_eq (h : Restricts ds e d) (n : Option String) :
    (simpleType n e).base = Builtin.string := by
  obtain ⟨-, space, name, t, hbase, hforeign, hbuiltin, -⟩ := h
  obtain ⟨r, hr, hname⟩ := Option.bind_eq_some_iff.mp hbase
  obtain ⟨value, hvalue, hname⟩ := Option.map_eq_some_iff.mp hname
  have href : typeRef r value = .named name := typeRef_of_foreign hname hforeign hbuiltin
  simp [simpleType, hr, hvalue, href]

namespace DerivesFrom

theorem first (h : DerivesFrom ds e d) : ∃ d', Restricts ds e d' := by
  cases h with
  | base hbase => exact ⟨_, hbase⟩
  | step hbase _ => exact ⟨_, hbase⟩

theorem last (h : DerivesFrom ds e d) : ∃ e', Restricts ds e' d := by
  induction h with
  | base hbase => exact ⟨_, hbase⟩
  | step _ _ ih => exact ih

/-- The exact condition under which a type accepts no more than one that it is derived from. -/
theorem narrows_iff (h : DerivesFrom ds e d) (n : Option String) (t : SimpleType) :
    (simpleType n e).Narrows t ↔
      ((simpleType n e).enumeration = [] → t.Free) ∧ (simpleType n e).ListsFrom t := by
  obtain ⟨d', hbase⟩ := h.first
  exact SimpleType.narrows_iff (by rw [hbase.base_eq n]; rfl)

end DerivesFrom

/-- A simple type lists values, and the simple type that it names as its base accepts them. -/
def Lists (ds : List Declaration) (e : Element) : Prop :=
  ∀ d name t, Restricts ds e d → d.simpleType? = some (name, t) →
    ∀ n, (simpleType n e).enumeration ≠ [] ∧ (simpleType n e).ListsFrom t

theorem Restricts.narrows (h : Restricts ds e d) (hlists : Lists ds e) (n : Option String)
    {name : String} {t : SimpleType} (hd : d.simpleType? = some (name, t)) :
    (simpleType n e).Narrows t := by
  obtain ⟨hsome, hfrom⟩ := hlists d name t h hd n
  exact ((DerivesFrom.base h).narrows_iff n t).mpr ⟨fun hnone => absurd hnone hsome, hfrom⟩

/-- **Restriction narrows** from one end of a chain to the other, where every type lists values of
its base. -/
theorem DerivesFrom.narrows (h : DerivesFrom ds e d) (hlists : Lists ds e)
    (hall : ∀ c ∈ ds, Lists ds c.element) (n : Option String) {name : String} {t : SimpleType}
    (hd : d.simpleType? = some (name, t)) : (simpleType n e).Narrows t := by
  induction h generalizing n with
  | base hbase => exact hbase.narrows hlists n hd
  | step hbase _ ih =>
    -- The type between is compiled under its own name; the rest of the chain begins with it.
    have ⟨hmem, _, between, u, _, _, _, hbetween⟩ := hbase
    have hrest := ih (hall _ hmem) (some between) hd
    rw [← Declaration.eq_of_simpleType? hbetween] at hrest
    exact (hbase.narrows hlists n hbetween).trans hrest

/-! ## Compiled schemas -/

/-- **What restrictions narrow.** In a schema that compiles, a simple type that names another one as
its base, which may name a third one, and so on, accepts no more than any of these exactly if its
list says so: the values that it lists are values of the other one, and if it lists none, then the
other one has no rule. A type is found under its name if nothing else is defined under that. -/
theorem compile_narrows_iff (hload : Source.loadAll files sources = .ok rs)
    (hcompile : compile files sources = .ok s) :
    ∃ (qs : List Resource) (ds : List Declaration),
      s.documents = qs.map (·.origin) ∧ s.documents.Nodup ∧
      (∀ q ∈ qs, ∃ r ∈ rs, Reaches files r q) ∧ (∀ r ∈ rs, r.origin ∈ s.documents) ∧
      ds.Perm (qs.flatMap (·.declarations)) ∧
      ∀ e d, DerivesFrom ds e d → ∃ name t, d.simpleType? = some (name, t) ∧
        ((∀ d' ∈ ds, d'.Defines name → d' = d) →
          s.resolveRef (.named name) = .value (.restricted t)) ∧
        ∀ n, (simpleType n e).Narrows t ↔
          ((simpleType n e).enumeration = [] → t.Free) ∧ (simpleType n e).ListsFrom t := by
  obtain ⟨qs, ds, h⟩ := adds_of_compile hload hcompile
  refine ⟨qs, ds, h.documents_eq, h.documents_nodup, h.reached, fun r hr => h.origin_mem hr,
    h.declared_perm, fun e d hderives => ?_⟩
  obtain ⟨e', hmem, space, name, t, -, -, -, hd⟩ := hderives.last
  refine ⟨name, t, hd, fun honly => ?_, fun n => hderives.narrows_iff n t⟩
  obtain ⟨hdefines, htype⟩ := Declaration.simpleType?_some hd
  have hdenotes := denotes_resolveRef h.grows name
  have hdenoted := hdenotes.eq_of_only hmem (h.compiles hmem) hdefines honly
  rw [htype] at hdenoted
  exact (Option.some.inj hdenoted).symm

/-! ## A chain of three types -/

/-- Of three types, the first lists a value of the last, and the one between lists none. -/
def chainText : String :=
  "<schema><simpleType name='a'><restriction base='b'><enumeration value='1'/></restriction>"
    ++ "</simpleType><simpleType name='b'><restriction base='c'/></simpleType>"
    ++ "<simpleType name='c'><restriction base='int'/></simpleType></schema>"

def chainSource : Source := ⟨.text chainText, none⟩

/-- What is read for it. -/
def chainResource : Resource := ⟨"inline schema 1", chainText, none⟩

theorem loadAll_chainSource : Source.loadAll .empty [chainSource] = .ok [chainResource] := rfl

/-- The integers that `c` is made of. -/
def chainBase : Builtin := ⟨"int", Value.between (-Int.pow 2 31) (Int.pow 2 31 - 1)⟩

theorem standsAlone_chainResource : ∀ r ∈ [chainResource], r.standsAlone = true := by
  decide +kernel

/-- The three declarations, with the names of their bases. -/
theorem declarations_chainResource : ∃ a b c : Declaration,
    chainResource.declarations = [a, b, c] ∧
      baseName? a.element = some (none, "b") ∧ baseName? b.element = some (none, "c") ∧
      a.simpleType? = some ("a", ⟨some "a", Builtin.string, ["1"]⟩) ∧
      b.simpleType? = some ("b", ⟨some "b", Builtin.string, []⟩) ∧
      c.simpleType? = some ("c", ⟨some "c", chainBase, []⟩) ∧
      ¬ a.Defines "c" ∧ ¬ b.Defines "c" := by
  have houtline : chainResource.declarations.map
      (fun d => (baseName? d.element, d.simpleType?, decide (d.Defines "c"))) =
      [(some (none, "b"), some ("a", ⟨some "a", Builtin.string, ["1"]⟩), false),
        (some (none, "c"), some ("b", ⟨some "b", Builtin.string, []⟩), false),
        (some (none, "int"), some ("c", ⟨some "c", chainBase, []⟩), true)] := by
    decide +kernel
  have hlength := congrArg List.length houtline
  rw [List.length_map] at hlength
  obtain ⟨a, b, c, hall⟩ := List.length_eq_three.mp hlength
  rw [hall] at houtline
  simp only [List.map_cons, List.map_nil, List.cons.injEq, Prod.mk.injEq, decide_eq_true_eq,
    decide_eq_false_iff_not, and_true] at houtline
  obtain ⟨⟨ha, hta, hna⟩, ⟨hb, htb, hnb⟩, -, htc, -⟩ := houtline
  exact ⟨a, b, c, hall, ha, hb, hta, htb, htc, hna, hnb⟩

theorem compile_chainSource : ∃ s, compile .empty [chainSource] = .ok s ∧
    s.documents = ["inline schema 1"] ∧
    s.resolveRef (.named "b") = .value (.restricted ⟨some "b", Builtin.string, []⟩) ∧
    s.resolveRef (.named "c") = .value (.restricted ⟨some "c", chainBase, []⟩) := by
  have htables : (compile .empty [chainSource]).map
      (fun s => (s.documents, s.complexTypes.map (·.1), s.simpleTypes)) =
      .ok (["inline schema 1"], [], [("c", ⟨some "c", chainBase, []⟩),
        ("b", ⟨some "b", Builtin.string, []⟩), ("a", ⟨some "a", Builtin.string, ["1"]⟩)]) := by
    decide +kernel
  obtain ⟨s, hcompile, htables⟩ := ok_of_map htables
  simp only [Prod.mk.injEq, List.map_eq_nil_iff] at htables
  obtain ⟨hdocuments, hcomplex, hsimple⟩ := htables
  refine ⟨s, hcompile, hdocuments, ?_, ?_⟩ <;> rw [resolveRef, hcomplex, hsimple] <;> rfl

/-- The first type has no other values than the last one. -/
theorem compile_narrows_iff_listed : ∃ s a t, compile .empty [chainSource] = .ok s ∧
    a ∈ chainResource.declarations ∧ s.resolveRef (.named "c") = .value (.restricted t) ∧
    ¬ t.Free ∧ ∀ n, (simpleType n a.element).Narrows t := by
  obtain ⟨a, b, c, hall, ha, hb, hta, htb, htc, hna, hnb⟩ := declarations_chainResource
  obtain ⟨s, hcompile, hdocuments, -⟩ := compile_chainSource
  obtain ⟨qs, ds, horigins, hdistinct, hreached, hasked, hdeclared, hnarrows⟩ :=
    compile_narrows_iff loadAll_chainSource hcompile
  rw [horigins] at hdistinct hasked
  have hqs := perm_of_standsAlone standsAlone_chainResource (by decide) hdistinct hreached hasked
  have hds : ds.Perm [a, b, c] := by
    refine hdeclared.trans ((hqs.flatMap_right _).trans ?_)
    rw [List.flatMap_singleton, hall]
  have hmem : ∀ d, d ∈ ds ↔ d ∈ [a, b, c] := fun d => hds.mem_iff
  have hab : Restricts ds a.element b :=
    ⟨(hmem b).mpr (by simp), none, "b", _, ha, by decide, fun _ => by decide, htb⟩
  have hbc : Restricts ds b.element c :=
    ⟨(hmem c).mpr (by simp), none, "c", _, hb, by decide, fun _ => by decide, htc⟩
  obtain ⟨name, t, hname, hfound, hiff⟩ := hnarrows a.element c (.step hab (.base hbc))
  rw [htc] at hname
  cases hname
  have honly : ∀ d ∈ ds, d.Defines "c" → d = c := by
    intro d hd hdefines
    have hd := (hmem d).mp hd
    simp only [List.mem_cons, List.not_mem_nil, or_false] at hd
    rcases hd with rfl | rfl | rfl
    · exact absurd hdefines hna
    · exact absurd hdefines hnb
    · rfl
  refine ⟨s, a, _, hcompile, hall ▸ List.mem_cons_self, hfound honly, by decide, fun n => ?_⟩
  have hlisted : (simpleType n a.element).enumeration = ["1"] := by
    rw [enumeration_simpleType n (some "a"), ← Declaration.eq_of_simpleType? hta]
  refine (hiff n).mpr ⟨fun hnone => ?_, fun w hw _ => ?_⟩
  · rw [hlisted] at hnone
    cases hnone
  · rw [hlisted, List.mem_singleton] at hw
    rw [hw]
    decide

/-- A type that names a base and lists nothing accepts what its base refuses. -/
theorem not_all_narrow : ¬ ∀ (files : File.Tree) (sources : List Source) (rs : List Resource)
    (s : Schema), Source.loadAll files sources = .ok rs → compile files sources = .ok s →
      ∀ ds, (∀ d, d ∈ ds ↔ Loaded files rs d) → ∀ d ∈ ds, ∀ d', DerivesFrom ds d.element d' →
        ∀ name t name' t', d.simpleType? = some (name, t) → d'.simpleType? = some (name', t') →
          s.resolveRef (.named name) = .value (.restricted t) →
          s.resolveRef (.named name') = .value (.restricted t') → t.Narrows t' := by
  intro hall
  obtain ⟨a, b, c, hdeclared, -, hb, -, htb, htc, -⟩ := declarations_chainResource
  obtain ⟨s, hcompile, -, hfoundb, hfoundc⟩ := compile_chainSource
  have hloaded : ∀ d, d ∈ [a, b, c] ↔ Loaded .empty [chainResource] d := by
    intro d
    rw [loaded_iff_of_standsAlone standsAlone_chainResource, List.flatMap_singleton, hdeclared]
  have hbc : DerivesFrom [a, b, c] b.element c :=
    .base ⟨by simp, none, "c", _, hb, by decide, fun _ => by decide, htc⟩
  have hnarrows := hall _ _ _ s loadAll_chainSource hcompile _ hloaded b (by simp) c hbc _ _ _ _
    htb htc hfoundb hfoundc
  exact absurd (hnarrows "x" (by decide)) (by decide)

end ScopedXml.Schema
