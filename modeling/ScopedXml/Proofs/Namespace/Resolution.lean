import Mathlib.Data.List.Nodup
import Mathlib.Data.List.TakeWhile
import ScopedXml.Namespace
import ScopedXml.Proofs.Outcome

/-!
# What names denote

Scopes look a name up in a stack of declarations. What they find is what the open tags around the
name say, the innermost first, and nothing else: tags that have been closed and tags that were
refused leave no trace (`Scopes.denotes_nested`).

* `Nested`, `Around`: calls that mirror the tags of a document, and the tags that are open behind
  them.
* `InScope`: the innermost open declaration of a prefix.
* `Denotes`: what a written name stands for among open tags.
-/

namespace ScopedXml

/-! ## Splitting at a character -/

namespace Text

variable {sep : Char} {cs before after : List Char}

theorem splitAtFirst?_eq_none_iff : splitAtFirst? sep cs = none ↔ sep ∉ cs := by
  unfold splitAtFirst?
  cases hdrop : cs.dropWhile (· != sep) with
  | nil =>
    rw [List.dropWhile_eq_nil_iff] at hdrop
    simp only [true_iff]
    intro hmem
    simpa using hdrop sep hmem
  | cons c rest =>
    have hc : c = sep := by
      have hhead := List.head?_dropWhile_not (· != sep) cs
      simpa [hdrop] using hhead
    subst hc
    simp only [reduceCtorEq, false_iff, not_not]
    exact (List.dropWhile_sublist _).subset (hdrop ▸ List.mem_cons_self)

theorem splitAtFirst?_eq_some_iff :
    splitAtFirst? sep cs = some (before, after) ↔ cs = before ++ sep :: after ∧ sep ∉ before := by
  constructor
  · intro h
    unfold splitAtFirst? at h
    split at h
    · cases h
    · next c rest hdrop =>
      cases h
      have hc : c = sep := by
        have hhead := List.head?_dropWhile_not (· != sep) cs
        simpa [hdrop] using hhead
      subst hc
      refine ⟨?_, fun hmem => ?_⟩
      · rw [← hdrop, List.takeWhile_append_dropWhile]
      · simpa using List.mem_takeWhile_imp hmem
  · rintro ⟨rfl, hbefore⟩
    have hkept : ∀ c ∈ before, (c != sep) = true := by
      intro c hc
      simp only [bne_iff_ne, ne_eq]
      rintro rfl
      exact hbefore hc
    unfold splitAtFirst?
    rw [List.dropWhile_append_of_pos hkept, List.takeWhile_append_of_pos hkept]
    simp

end Text

namespace Namespace

variable {s : Scopes} {tags : List (List Declaration)} {declarations : List Declaration}
  {p : Option String} {uri name : String}

/-! ## Lawful declarations -/

/-- What may be declared. The prefix `xml` belongs to its namespace and to no other one, and only
the default namespace can be taken away. -/
structure Declaration.Lawful (d : Declaration) : Prop where
  nsPrefix_ne : d.nsPrefix ≠ some "xmlns"
  uri_ne : d.uri ≠ xmlnsUri
  xml_iff : d.nsPrefix = some "xml" ↔ d.uri = xmlUri
  default_of_empty : d.uri = "" → d.nsPrefix = none

theorem Declaration.check_eq_ok_iff {d : Declaration} : d.check = .ok () ↔ d.Lawful := by
  obtain ⟨p, uri⟩ := d
  have hxml : xmlUri ≠ xmlnsUri := by decide
  have hempty : xmlUri ≠ "" := by decide
  unfold Declaration.check
  constructor
  · intro h
    split at h
    · cases h
    · next hxmlns =>
      split at h
      · next hp =>
        split at h
        · next huri =>
          dsimp only at hp huri
          subst hp huri
          exact ⟨by simp, hxml, by simp, fun h => absurd h hempty⟩
        · cases h
      · next hp =>
        split at h
        · cases h
        · next hreserved =>
          obtain ⟨huri, huri'⟩ := not_or.mp hreserved
          refine ⟨hxmlns, huri', iff_of_false hp huri, fun hnone => ?_⟩
          cases p with
          | none => rfl
          | some p =>
            dsimp only at hnone
            subst hnone
            cases h
  · rintro ⟨hxmlns, huri', hiff, hnone⟩
    dsimp only at hxmlns huri' hiff hnone
    rw [if_neg hxmlns]
    by_cases hp : p = some "xml"
    · rw [if_pos hp, if_pos (hiff.mp hp)]
    · have huri : uri ≠ xmlUri := mt hiff.mpr hp
      rw [if_neg hp, if_neg (not_or.mpr ⟨huri, huri'⟩)]
      cases p with
      | none => rfl
      | some p =>
        have hsome : uri ≠ "" := fun h => by cases hnone h
        simp [hsome]

/-- The declarations of a tag that is not refused. -/
def Lawful (declarations : List Declaration) : Prop := ∀ d ∈ declarations, d.Lawful

theorem forM_check_eq_ok_iff :
    declarations.forM Declaration.check = .ok () ↔ Lawful declarations := by
  induction declarations with
  | nil => exact iff_of_true rfl fun d hd => by cases hd
  | cons d declarations ih =>
    rw [Lawful, List.forall_mem_cons, ← Declaration.check_eq_ok_iff, ← Lawful, ← ih,
      List.forM_eq_forM, List.forM_cons, ← List.forM_eq_forM]
    cases d.check with
    | error fault => exact iff_of_false (fun h => by cases h) fun h => by cases h.1
    | ok _ => exact (and_iff_right rfl).symm

namespace Scopes

theorem enter_of_lawful (h : Lawful declarations) (s : Scopes) :
    s.enter declarations = .ok ⟨declarations :: s.levels⟩ := by
  rw [enter, forM_check_eq_ok_iff.mpr h]
  rfl

theorem lawful_of_enter {entered : Scopes} (h : s.enter declarations = .ok entered) :
    Lawful declarations ∧ entered = ⟨declarations :: s.levels⟩ := by
  obtain ⟨_, hcheck, hentered⟩ := bind_ok h
  cases hentered
  exact ⟨forM_check_eq_ok_iff.mp hcheck, rfl⟩

end Scopes

/-! ## Tags -/

/-- What scopes are told of the tags of a document. -/
inductive Call
  | enter (declarations : List Declaration)
  | leave

namespace Scopes

/-- The scopes behind a call. -/
def receive (s : Scopes) : Call → Scopes
  | .enter declarations =>
    match s.enter declarations with
    | .ok entered => entered
    | .error _ => s
  | .leave => s.leave

def receiveAll (s : Scopes) (calls : List Call) : Scopes := calls.foldl receive s

theorem receiveAll_cons (s : Scopes) (call : Call) (calls : List Call) :
    s.receiveAll (call :: calls) = (s.receive call).receiveAll calls := rfl

theorem receiveAll_append (s : Scopes) (calls more : List Call) :
    s.receiveAll (calls ++ more) = (s.receiveAll calls).receiveAll more := List.foldl_append

theorem receive_enter (h : Lawful declarations) (s : Scopes) :
    s.receive (.enter declarations) = ⟨declarations :: s.levels⟩ := by
  rw [receive, enter_of_lawful h]

theorem receive_refused (h : ¬ Lawful declarations) (s : Scopes) :
    s.receive (.enter declarations) = s := by
  rw [receive]
  cases henter : s.enter declarations with
  | error fault => rfl
  | ok entered => exact absurd (lawful_of_enter henter).1 h

end Scopes

/-- The calls of elements that are complete, one after the other, and of tags that are refused. -/
inductive Nested : List Call → Prop
  | nil : Nested []
  | element {declarations : List Declaration} {content rest : List Call} :
    Lawful declarations → Nested content → Nested rest →
    Nested (.enter declarations :: content ++ .leave :: rest)
  | refused {declarations : List Declaration} {rest : List Call} :
    ¬ Lawful declarations → Nested rest → Nested (.enter declarations :: rest)

/-- The calls up to a place in a document. The declarations are those of the tags that are open
there, the innermost first; before each of them and behind the last one there is what is complete
already. -/
inductive Around : List (List Declaration) → List Call → Prop
  | outside {before : List Call} : Nested before → Around [] before
  | inside {declarations : List Declaration} {tags : List (List Declaration)}
    {calls before : List Call} :
    Around tags calls → Lawful declarations → Nested before →
    Around (declarations :: tags) (calls ++ .enter declarations :: before)

theorem Nested.receiveAll {calls : List Call} (h : Nested calls) (s : Scopes) :
    s.receiveAll calls = s := by
  induction h generalizing s with
  | nil => rfl
  | element hlawful _ _ ihcontent ihrest =>
    rw [List.cons_append, Scopes.receiveAll_cons, Scopes.receive_enter hlawful,
      Scopes.receiveAll_append, ihcontent, Scopes.receiveAll_cons]
    exact ihrest s
  | refused hrefused _ ih =>
    rw [Scopes.receiveAll_cons, Scopes.receive_refused hrefused]
    exact ih s

/-- Scopes hold the declarations of the open tags and no others. -/
theorem Around.receiveAll {calls : List Call} (h : Around tags calls) :
    Scopes.empty.receiveAll calls = ⟨tags⟩ := by
  induction h with
  | outside hbefore => exact hbefore.receiveAll .empty
  | inside _ hlawful hbefore ih =>
    rw [Scopes.receiveAll_append, ih, Scopes.receiveAll_cons, Scopes.receive_enter hlawful]
    exact hbefore.receiveAll _

theorem Around.lawful {calls : List Call} (h : Around tags calls) :
    ∀ declarations ∈ tags, Lawful declarations := by
  induction h with
  | outside => simp
  | inside _ hlawful _ ih => exact List.forall_mem_cons.mpr ⟨hlawful, ih⟩

/-! ## Declarations in scope -/

/-- The innermost of the open tags that declares a prefix declares it as `uri`. -/
inductive InScope (p : Option String) (uri : String) : List (List Declaration) → Prop
  | here {declarations : List Declaration} {outer : List (List Declaration)} :
    ⟨p, uri⟩ ∈ declarations → InScope p uri (declarations :: outer)
  | further {declarations : List Declaration} {outer : List (List Declaration)} :
    (∀ d ∈ declarations, d.nsPrefix ≠ p) → InScope p uri outer →
    InScope p uri (declarations :: outer)

/-- No tag declares a prefix twice. -/
def DeclareOnce (tags : List (List Declaration)) : Prop :=
  ∀ declarations ∈ tags, (declarations.map (·.nsPrefix)).Nodup

theorem InScope.exists_mem (h : InScope p uri tags) :
    ∃ declarations ∈ tags, ⟨p, uri⟩ ∈ declarations := by
  induction h with
  | here hmem => exact ⟨_, List.mem_cons_self, hmem⟩
  | further _ _ ih =>
    obtain ⟨declarations, htags, hmem⟩ := ih
    exact ⟨declarations, List.mem_cons_of_mem _ htags, hmem⟩

theorem InScope.lawful (h : InScope p uri tags)
    (hlawful : ∀ declarations ∈ tags, Lawful declarations) : Declaration.Lawful ⟨p, uri⟩ := by
  obtain ⟨declarations, htags, hmem⟩ := h.exists_mem
  exact hlawful declarations htags _ hmem

/-- Of declarations with different prefixes the first one that is found is the only one. -/
theorem find?_reverse_eq_some_iff (honce : (declarations.map (·.nsPrefix)).Nodup)
    {d : Declaration} :
    declarations.reverse.find? (·.nsPrefix == p) = some d ↔ d ∈ declarations ∧ d.nsPrefix = p := by
  constructor
  · intro h
    exact ⟨List.mem_reverse.mp (List.mem_of_find?_eq_some h), by simpa using List.find?_some h⟩
  · rintro ⟨hmem, rfl⟩
    cases hfound : declarations.reverse.find? (·.nsPrefix == d.nsPrefix) with
    | none =>
      have hall := List.find?_eq_none.mp hfound d (List.mem_reverse.mpr hmem)
      simp at hall
    | some d' =>
      have hmem' : d' ∈ declarations := List.mem_reverse.mp (List.mem_of_find?_eq_some hfound)
      have heq : d'.nsPrefix = d.nsPrefix := by simpa using List.find?_some hfound
      rw [List.inj_on_of_nodup_map honce hmem' hmem heq]

namespace Scopes

theorem find?_declarations_iff (honce : DeclareOnce tags) :
    ((⟨tags⟩ : Scopes).declarations.find? (·.nsPrefix == p)).map (·.uri) = some uri ↔
      InScope p uri tags := by
  induction tags with
  | nil => exact iff_of_false (by simp [declarations]) fun h => by cases h
  | cons first outer ih =>
    obtain ⟨hfirst, houter⟩ := List.forall_mem_cons.mp honce
    have happend : (⟨first :: outer⟩ : Scopes).declarations =
        first.reverse ++ (⟨outer⟩ : Scopes).declarations := rfl
    rw [happend, List.find?_append]
    cases hfound : first.reverse.find? (·.nsPrefix == p) with
    | none =>
      have hnone : ∀ d ∈ first, d.nsPrefix ≠ p := by
        intro d hd
        simpa using List.find?_eq_none.mp hfound d (List.mem_reverse.mpr hd)
      rw [Option.none_or, ih houter]
      refine ⟨.further hnone, fun h => ?_⟩
      cases h with
      | here hmem => exact absurd rfl (hnone _ hmem)
      | further _ h => exact h
    | some d =>
      obtain ⟨hmem, rfl⟩ := (find?_reverse_eq_some_iff hfirst).mp hfound
      rw [Option.some_or, Option.map_some, Option.some.injEq]
      refine ⟨fun h => .here (h ▸ hmem), fun h => ?_⟩
      cases h with
      | here hmem' => rw [List.inj_on_of_nodup_map hfirst hmem hmem' rfl]
      | further hnone _ => exact absurd rfl (hnone d hmem)

/-- A look-up finds what is in scope, where an empty namespace counts as none. -/
theorem lookup?_eq_some_iff (honce : DeclareOnce tags) :
    (⟨tags⟩ : Scopes).lookup? p = some uri ↔ InScope p uri tags ∧ uri ≠ "" := by
  rw [lookup?, Option.filter_eq_some_iff, find?_declarations_iff honce]
  simp

end Scopes

/-! ## Names -/

/-- One of the two parts of a name with a prefix. -/
def IsPart (part : String) : Prop := part ≠ "" ∧ ':' ∉ part.toList

/-- The namespace of a prefix among open tags. -/
inductive PrefixDenotes (tags : List (List Declaration)) : String → String → Prop
  | xml : PrefixDenotes tags "xml" xmlUri
  | declared {p uri : String} : InScope (some p) uri tags → PrefixDenotes tags p uri

/-- What a written name denotes among open tags, if names without a prefix are in `unprefixed`. -/
inductive Denotes (tags : List (List Declaration)) (unprefixed : Option String) :
    String → QualifiedName → Prop
  | plain {name : String} : ':' ∉ name.toList →
    Denotes tags unprefixed name ⟨unprefixed, none, name⟩
  | prefixed {p uri l : String} : IsPart p → IsPart l → PrefixDenotes tags p uri →
    Denotes tags unprefixed (p ++ ":" ++ l) ⟨some uri, some p, l⟩

/-- The default namespace among open tags. -/
def IsDefault (tags : List (List Declaration)) (space : Option String) : Prop :=
  ∀ uri, space = some uri ↔ InScope none uri tags ∧ uri ≠ ""

theorem splitName_of_plain (h : ':' ∉ name.toList) : splitName name = .ok (none, name) := by
  rw [splitName, Text.splitAtFirst?_eq_none_iff.mpr h]

theorem splitName_of_parts {p l : String} (hp : IsPart p) (hl : IsPart l) :
    splitName (p ++ ":" ++ l) = .ok (some p, l) := by
  have hsplit : Text.splitAtFirst? ':' (p ++ ":" ++ l).toList = some (p.toList, l.toList) := by
    rw [Text.splitAtFirst?_eq_some_iff]
    exact ⟨by simp, hp.2⟩
  have hkept : (p.toList.isEmpty || l.toList.isEmpty || l.toList.contains ':') = false := by
    simp [hp.1, hl.1, hl.2]
  rw [splitName, hsplit]
  dsimp only
  rw [hkept]
  simp

theorem splitName_cases {p : Option String} {l : String} (h : splitName name = .ok (p, l)) :
    (p = none ∧ l = name ∧ ':' ∉ name.toList) ∨
      ∃ p', p = some p' ∧ name = p' ++ ":" ++ l ∧ IsPart p' ∧ IsPart l := by
  unfold splitName at h
  split at h
  · next hsplit =>
    cases h
    exact .inl ⟨rfl, rfl, Text.splitAtFirst?_eq_none_iff.mp hsplit⟩
  · next before after hsplit =>
    obtain ⟨hname, hbefore⟩ := Text.splitAtFirst?_eq_some_iff.mp hsplit
    split at h
    · cases h
    · next hkept =>
      cases h
      simp only [Bool.or_eq_true, List.isEmpty_iff, List.contains_iff_mem, not_or] at hkept
      obtain ⟨⟨hfirst, hsecond⟩, hafter⟩ := hkept
      refine .inr ⟨_, rfl, ?_, ⟨?_, ?_⟩, ?_, ?_⟩
      · apply String.toList_injective
        simp [hname]
      · simpa [← String.toList_eq_nil_iff] using hfirst
      · simpa using hbefore
      · simpa [← String.toList_eq_nil_iff] using hsecond
      · simpa using hafter

namespace Scopes

/-- The namespace of a prefix, which does not depend on the name behind it. -/
theorem ofPrefix_eq_ok_iff (honce : DeclareOnce tags)
    (hlawful : ∀ declarations ∈ tags, Lawful declarations) {p : String} :
    (⟨tags⟩ : Scopes).ofPrefix p = .ok uri ↔ PrefixDenotes tags p uri := by
  unfold ofPrefix
  by_cases hp : p = "xml"
  · subst hp
    rw [if_pos rfl]
    constructor
    · intro h
      cases h
      exact .xml
    · intro h
      cases h with
      | xml => rfl
      | declared h =>
        have huri : uri = xmlUri := (h.lawful hlawful).xml_iff.mp rfl
        rw [huri]
  · rw [if_neg hp]
    constructor
    · intro h
      split at h
      · next found hfound =>
        cases h
        exact .declared ((lookup?_eq_some_iff honce).mp hfound).1
      · cases h
    · intro h
      cases h with
      | xml => exact absurd rfl hp
      | declared h =>
        have hsome : uri ≠ "" := fun hempty => by
          cases (h.lawful hlawful).default_of_empty hempty
        rw [(lookup?_eq_some_iff honce).mpr ⟨h, hsome⟩]

theorem resolve_eq_ok_iff (honce : DeclareOnce tags)
    (hlawful : ∀ declarations ∈ tags, Lawful declarations) {unprefixed : Option String}
    {q : QualifiedName} :
    (⟨tags⟩ : Scopes).resolve unprefixed name = .ok q ↔ Denotes tags unprefixed name q := by
  constructor
  · intro h
    obtain ⟨⟨p, l⟩, hsplit, hrest⟩ := bind_ok h
    rcases splitName_cases hsplit with ⟨rfl, rfl, hplain⟩ | ⟨p, rfl, rfl, hp, hl⟩
    · cases hrest
      exact .plain hplain
    · obtain ⟨uri, huri, hrest⟩ := bind_ok hrest
      cases hrest
      exact .prefixed hp hl ((ofPrefix_eq_ok_iff honce hlawful).mp huri)
  · intro h
    cases h with
    | plain hplain =>
      rw [resolve, splitName_of_plain hplain]
      rfl
    | prefixed hp hl huri =>
      have hprefix := (ofPrefix_eq_ok_iff honce hlawful).mpr huri
      rw [resolve, splitName_of_parts hp hl]
      simp only [bind, Except.bind, hprefix]
      rfl

end Scopes

/-! ## Among the tags of a document -/

theorem exists_inScope_iff :
    (∃ uri, InScope p uri tags) ↔ ∃ declarations ∈ tags, ∃ d ∈ declarations, d.nsPrefix = p := by
  constructor
  · rintro ⟨uri, h⟩
    obtain ⟨declarations, htags, hmem⟩ := h.exists_mem
    exact ⟨declarations, htags, _, hmem, rfl⟩
  · rintro ⟨declarations, htags, d, hd, rfl⟩
    induction tags with
    | nil => cases htags
    | cons first outer ih =>
      by_cases hfirst : ∃ d' ∈ first, d'.nsPrefix = d.nsPrefix
      · obtain ⟨d', hd', heq⟩ := hfirst
        exact ⟨d'.uri, .here (heq ▸ hd')⟩
      · rcases List.mem_cons.mp htags with rfl | htags
        · exact absurd ⟨d, hd, rfl⟩ hfirst
        · obtain ⟨uri, h⟩ := ih htags
          exact ⟨uri, .further (fun d' hd' heq => hfirst ⟨d', hd', heq⟩) h⟩

theorem exists_prefixDenotes_iff {p : String} :
    (∃ uri, PrefixDenotes tags p uri) ↔
      p = "xml" ∨ ∃ declarations ∈ tags, ∃ d ∈ declarations, d.nsPrefix = some p := by
  rw [← exists_inScope_iff]
  constructor
  · rintro ⟨uri, h⟩
    cases h with
    | xml => exact .inl rfl
    | declared h => exact .inr ⟨uri, h⟩
  · rintro (rfl | ⟨uri, h⟩)
    · exact ⟨xmlUri, .xml⟩
    · exact ⟨uri, .declared h⟩

/-- What namespaces names can be in: none that is empty or reserved for declarations, and the one of
`xml` only with this prefix. -/
structure Sane (q : QualifiedName) : Prop where
  space_ne_empty : q.space ≠ some ""
  space_ne_xmlns : q.space ≠ some xmlnsUri
  xml : q.space = some xmlUri → q.nsPrefix = some "xml"

theorem PrefixDenotes.sane {p l : String} (h : PrefixDenotes tags p uri)
    (hlawful : ∀ declarations ∈ tags, Lawful declarations) : Sane ⟨some uri, some p, l⟩ := by
  have hxmlUri : xmlUri ≠ "" ∧ xmlUri ≠ xmlnsUri := by decide
  cases h with
  | xml =>
    exact ⟨fun h => hxmlUri.1 (Option.some.inj h), fun h => hxmlUri.2 (Option.some.inj h),
      fun _ => rfl⟩
  | declared h =>
    obtain ⟨-, hxmlns, hxml, hempty⟩ := h.lawful hlawful
    refine ⟨?_, ?_, fun hspace => hxml.mpr (Option.some.inj hspace)⟩
    · rintro ⟨rfl⟩
      cases hempty rfl
    · rintro ⟨rfl⟩
      exact hxmlns rfl

theorem IsDefault.sane {space : Option String} {l : String} (h : IsDefault tags space)
    (hlawful : ∀ declarations ∈ tags, Lawful declarations) : Sane ⟨space, none, l⟩ := by
  have hfound : ∀ uri, space = some uri → Declaration.Lawful ⟨none, uri⟩ := fun uri huri =>
    ((h uri).mp huri).1.lawful hlawful
  refine ⟨fun huri => ((h "").mp huri).2 rfl, fun huri => (hfound _ huri).uri_ne rfl, ?_⟩
  intro huri
  cases (hfound _ huri).xml_iff.mpr rfl

namespace Denotes

variable {unprefixed : Option String} {q : QualifiedName}

theorem written (h : Denotes tags unprefixed name q) : q.written = name := by
  cases h <;> rfl

theorem sane (h : Denotes tags unprefixed name q)
    (hlawful : ∀ declarations ∈ tags, Lawful declarations)
    (hunprefixed : ∀ l, Sane ⟨unprefixed, none, l⟩) : Sane q := by
  cases h with
  | plain => exact hunprefixed name
  | prefixed _ _ huri => exact huri.sane hlawful

end Denotes

namespace Scopes

theorem isDefault_lookup? (honce : DeclareOnce tags) :
    IsDefault tags ((⟨tags⟩ : Scopes).lookup? none) :=
  fun _ => lookup?_eq_some_iff honce

/-- **Scoping.** Behind any calls that mirror the tags of a document, where no open tag declares a
prefix twice, a name denotes what the open tags say: with a prefix its innermost declaration,
without one the default namespace if it names an element, and none if it names an attribute. The
prefixes that denote anything are `xml` and those that open tags declare. A name keeps the form in
which it was written. -/
theorem denotes_nested {calls : List Call} (haround : Around tags calls)
    (honce : DeclareOnce tags) :
    let s := empty.receiveAll calls
    (∃ space, IsDefault tags space ∧
      ∀ name q, s.element name = .ok q ↔ Denotes tags space name q) ∧
    (∀ name q, s.attr name = .ok q ↔ Denotes tags none name q) ∧
    (∀ p, (∃ uri, PrefixDenotes tags p uri) ↔
      p = "xml" ∨ ∃ declarations ∈ tags, ∃ d ∈ declarations, d.nsPrefix = some p) ∧
    ∀ name q, s.element name = .ok q ∨ s.attr name = .ok q → q.written = name ∧ Sane q := by
  intro s
  have hs : s = ⟨tags⟩ := haround.receiveAll
  have hlawful := haround.lawful
  have helement : ∀ name q,
      s.element name = .ok q ↔ Denotes tags ((⟨tags⟩ : Scopes).lookup? none) name q := by
    intro name q
    rw [hs, element, resolve_eq_ok_iff honce hlawful]
  have hattr : ∀ name q, s.attr name = .ok q ↔ Denotes tags none name q := by
    intro name q
    rw [hs, attr, resolve_eq_ok_iff honce hlawful]
  have hdefault := isDefault_lookup? honce
  refine ⟨⟨_, hdefault, helement⟩, hattr, fun p => exists_prefixDenotes_iff, ?_⟩
  rintro name q (hfound | hfound)
  · have hdenotes := (helement name q).mp hfound
    exact ⟨hdenotes.written, hdenotes.sane hlawful fun _ => hdefault.sane hlawful⟩
  · have hdenotes := (hattr name q).mp hfound
    have hnone : ∀ l, Sane ⟨none, none, l⟩ := fun l => ⟨by simp, by simp, by simp⟩
    exact ⟨hdenotes.written, hdenotes.sane hlawful hnone⟩

/-- The prefix `p` is declared by both open tags and by one that is closed, and a tag that declares
`xmlns` is refused. The inner open tag counts, and takes the default namespace away. -/
theorem denotes_nested_inner :
    let outer : List Declaration := [⟨some "p", "u"⟩, ⟨none, "d"⟩]
    let inner : List Declaration := [⟨some "p", "v"⟩, ⟨none, ""⟩]
    let refused : List Declaration := [⟨some "q", "w"⟩, ⟨some "xmlns", "w"⟩]
    let calls : List Call :=
      [.enter outer, .enter refused, .enter [⟨some "p", "w"⟩], .leave, .enter inner]
    let s := empty.receiveAll calls
    Around [inner, outer] calls ∧ DeclareOnce [inner, outer] ∧
      s.element "p:x" = .ok ⟨some "v", some "p", "x"⟩ ∧ s.element "x" = .ok ⟨none, none, "x"⟩ ∧
      s.attr "xml:x" = .ok ⟨some xmlUri, some "xml", "x"⟩ ∧
      ¬ ∃ uri, PrefixDenotes [inner, outer] "q" uri := by
  intro outer inner refused calls s
  have hrefused : ¬ Lawful refused := fun h =>
    (h ⟨some "xmlns", "w"⟩ (by simp [refused])).nsPrefix_ne rfl
  have hlawful : ∀ declarations ∈ [outer, [⟨some "p", "w"⟩], inner], Lawful declarations := by
    intro declarations hmem
    rw [← forM_check_eq_ok_iff]
    revert declarations
    decide
  have hbefore : Nested [.enter refused, .enter [⟨some "p", "w"⟩], .leave] :=
    .refused hrefused (.element (hlawful _ (by simp)) .nil .nil)
  have haround : Around [inner, outer] calls :=
    .inside (.inside (.outside .nil) (hlawful _ (by simp)) hbefore) (hlawful _ (by simp)) .nil
  have honce : DeclareOnce [inner, outer] := by
    unfold DeclareOnce
    decide
  obtain ⟨⟨space, hdefault, helement⟩, hattr, hprefixes, -⟩ := denotes_nested haround honce
  have hpart : IsPart "p" ∧ IsPart "x" ∧ IsPart "xml" := by
    unfold IsPart
    decide
  have hspace : space = none := by
    cases space with
    | none => rfl
    | some uri =>
      obtain ⟨hscope, hsome⟩ := (hdefault uri).mp rfl
      cases hscope with
      | here hmem => exact absurd (by simpa [inner] using hmem) hsome
      | further hnone _ => exact absurd rfl (hnone ⟨none, ""⟩ (by simp [inner]))
  subst hspace
  refine ⟨haround, honce, (helement _ _).mpr ?_, (helement _ _).mpr (.plain (by decide)),
    (hattr _ _).mpr (.prefixed hpart.2.2 hpart.2.1 .xml), ?_⟩
  · exact .prefixed hpart.1 hpart.2.1 (.declared (.here (by simp [inner])))
  · rw [hprefixes]
    decide

end Scopes

end Namespace

end ScopedXml
