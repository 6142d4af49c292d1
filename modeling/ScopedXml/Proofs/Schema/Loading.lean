import Mathlib.Data.Nat.Digits.Lemmas
import ScopedXml.Proofs.Outcome
import ScopedXml.Schema.Compile

/-!
# The course of loading

`Loads` tells how documents are read together with all that they refer to, without a bound on how
deep references lead. Documents that are open at the same time bear different names, and only so
many names lead anywhere, so that `addDocument` never comes to its bound.

* `Loads`: the course, document by document and part by part.
* `length_le_of_short`: there are only so many short names.
* `loads_compileResources`: compiling takes its course to the end.
-/

namespace ScopedXml.Schema

open Document (Element)

/-- The document that a reference leads to from a base directory. -/
def Reference.target (files : File.Tree) (base : Option File.Path) (ref : Reference) :
    Except Fault Resource :=
  match ref.resolve files base with
  | .error f => .error f
  | .ok none => .error (.unresolved ref.shown)
  | .ok (some next) => .ok next

/-- The schema before the parts of a document. The first document of all names the target
namespace. -/
def begin (s : Schema) (reading : List String) (h : Header) : Schema :=
  if s.documents.isEmpty && reading.isEmpty then { s with targetNamespace := h.targetNamespace }
  else s

/-- The schema behind a document. -/
def finish (s : Schema) (r : Resource) : Schema := { s with documents := s.documents ++ [r.origin] }

/-- What there is to read. -/
inductive Task
  | sources (rs : List Resource)
  | document (r : Resource)
  /-- The rest of a document that is open. -/
  | parts (r : Resource) (h : Header) (es : List Element)

/-- What comes of a task while the documents in `reading` are open. A document that is read or open
already is left alone; any other is opened, and its parts are taken in one by one, where a reference
is followed before the next part. -/
inductive Loads (files : File.Tree) :
    List String → Task → Schema → Except Fault Schema → Prop
  | done {reading : List String} {s : Schema} : Loads files reading (.sources []) s (.ok s)
  | fails {reading : List String} {r : Resource} {rs : List Resource} {s : Schema} {f : Fault} :
    Loads files reading (.document r) s (.error f) →
    Loads files reading (.sources (r :: rs)) s (.error f)
  | source {reading : List String} {r : Resource} {rs : List Resource} {s s₁ : Schema}
    {answer : Except Fault Schema} :
    Loads files reading (.document r) s (.ok s₁) → Loads files reading (.sources rs) s₁ answer →
    Loads files reading (.sources (r :: rs)) s answer
  | known {reading : List String} {r : Resource} {s : Schema} :
    r.origin ∈ s.documents ∨ r.origin ∈ reading → Loads files reading (.document r) s (.ok s)
  | rootless {reading : List String} {r : Resource} {s : Schema} {f : Fault} :
    r.origin ∉ s.documents → r.origin ∉ reading → r.root = .error f →
    Loads files reading (.document r) s (.error f)
  | read {reading : List String} {r : Resource} {root : Element} {s : Schema}
    {answer : Except Fault Schema} :
    r.origin ∉ s.documents → r.origin ∉ reading → r.root = .ok root →
    Loads files (r.origin :: reading) (.parts r (Header.ofElement root) root.children)
      (s.begin reading (Header.ofElement root)) answer →
    Loads files reading (.document r) s (answer.map (·.finish r))
  | nothing {reading : List String} {r : Resource} {h : Header} {s : Schema} :
    Loads files reading (.parts r h []) s (.ok s)
  | flawed {reading : List String} {r : Resource} {h : Header} {e : Element} {es : List Element}
    {s : Schema} {flaw : Flaw} :
    reference? e = none → declare h s e = .error flaw →
    Loads files reading (.parts r h (e :: es)) s (.error (.invalid r.origin flaw))
  | declared {reading : List String} {r : Resource} {h : Header} {e : Element} {es : List Element}
    {s s₁ : Schema} {answer : Except Fault Schema} :
    reference? e = none → declare h s e = .ok s₁ → Loads files reading (.parts r h es) s₁ answer →
    Loads files reading (.parts r h (e :: es)) s answer
  | astray {reading : List String} {r : Resource} {h : Header} {e : Element} {es : List Element}
    {s : Schema} {ref : Reference} {f : Fault} :
    reference? e = some ref → ref.target files r.base = .error f →
    Loads files reading (.parts r h (e :: es)) s (.error f)
  | stopped {reading : List String} {r next : Resource} {h : Header} {e : Element}
    {es : List Element} {s : Schema} {ref : Reference} {f : Fault} :
    reference? e = some ref → ref.target files r.base = .ok next →
    Loads files reading (.document next) s (.error f) →
    Loads files reading (.parts r h (e :: es)) s (.error f)
  | followed {reading : List String} {r next : Resource} {h : Header} {e : Element}
    {es : List Element} {s s₁ : Schema} {ref : Reference} {answer : Except Fault Schema} :
    reference? e = some ref → ref.target files r.base = .ok next →
    Loads files reading (.document next) s (.ok s₁) →
    Loads files reading (.parts r h es) s₁ answer →
    Loads files reading (.parts r h (e :: es)) s answer

/-! ## Few names are short -/

/-- A number for each text: its bytes as digits, with a one in front. -/
def numbered (s : String) : Nat :=
  Nat.ofDigits 256 (s.toByteArray.data.toList.map UInt8.toNat ++ [1])

theorem lt_of_mem_digits {s : String} :
    ∀ n ∈ s.toByteArray.data.toList.map UInt8.toNat ++ [1], n < 256 := by
  intro n hn
  rcases List.mem_append.mp hn with hn | hn
  · obtain ⟨b, -, rfl⟩ := List.mem_map.mp hn
    exact b.toNat_lt
  · rw [List.mem_singleton.mp hn]
    decide

theorem numbered_lt {s : String} {k : Nat} (h : s.utf8ByteSize < k) : numbered s < 256 ^ k := by
  have hlt := Nat.ofDigits_lt_base_pow_length (by decide) (lt_of_mem_digits (s := s))
  refine lt_of_lt_of_le hlt (Nat.pow_le_pow_right (by decide) ?_)
  rw [List.length_append, List.length_map, List.length_singleton]
  exact h

theorem numbered_injective : Function.Injective numbered := by
  intro s t h
  have hdigits := fun s : String => Nat.digits_ofDigits 256 (by decide)
    (s.toByteArray.data.toList.map UInt8.toNat ++ [1]) lt_of_mem_digits (by simp)
  have hbytes := (hdigits s).symm.trans ((congrArg (Nat.digits 256) h).trans (hdigits t))
  have hmap := List.append_cancel_right hbytes
  have hlist := List.map_injective_iff.mpr (fun a b => UInt8.toNat_inj.mp) hmap
  exact String.toByteArray_inj.mp (ByteArray.ext (Array.toList_inj.mp hlist))

theorem length_le_of_short {names : List String} {k : Nat} (hnodup : names.Nodup)
    (hshort : ∀ n ∈ names, n.utf8ByteSize < k) : names.length ≤ 256 ^ k := by
  have hnumbers : (names.map numbered).Nodup := hnodup.map numbered_injective
  have hsubset : names.map numbered ⊆ List.range (256 ^ k) := by
    intro n hn
    obtain ⟨name, hname, rfl⟩ := List.mem_map.mp hn
    exact List.mem_range.mpr (numbered_lt (hshort name hname))
  have hlength := (List.subperm_of_subset hnumbers hsubset).length_le
  rwa [List.length_map, List.length_range] at hlength

/-- With one name of any length at the end there can be one more. -/
theorem length_lt_of_short {names : List String} {k : Nat} (hnodup : names.Nodup)
    (hshort : ∀ n ∈ names.dropLast, n.utf8ByteSize < k) : names.length < Nat.pow 256 k + 2 := by
  have hlength := length_le_of_short (hnodup.sublist (List.dropLast_sublist names)) hshort
  rw [List.length_dropLast] at hlength
  change names.length < 256 ^ k + 2
  omega

theorem short_of_find {files : File.Tree} {path : File.Path} {place : File.Place}
    (h : files.find path = .ok place) : path.text.utf8ByteSize < 4096 := by
  by_contra hlong
  unfold File.Tree.find at h
  rw [if_pos (Nat.le_of_not_lt hlong)] at h
  split at h
  · cases h
  · split at h <;> cases h

theorem short_of_readText {files : File.Tree} {path : File.Path} {origin text : String}
    (h : readText files path origin = .ok text) : path.text.utf8ByteSize < 4096 := by
  unfold readText at h
  cases hfind : files.find path with
  | error fault =>
    rw [hfind] at h
    cases h
  | ok place => exact short_of_find hfind

namespace Reference

variable {files : File.Tree} {base : Option File.Path} {ref : Reference} {next : Resource}

theorem resolve_of_target (h : ref.target files base = .ok next) :
    ref.resolve files base = .ok (some next) := by
  unfold target at h
  split at h
  · cases h
  · cases h
  · next hresolve =>
    cases h
    exact hresolve

/-- There is only one bundled document. -/
theorem eq_of_bundled? {document : Resource} (h : ref.bundled? = some document) :
    document = ⟨Bundled.xmlAttributesId, "\n".intercalate Bundled.xmlAttributesLines, none⟩ := by
  obtain ⟨id, -, hid⟩ := List.exists_of_findSome?_eq_some h
  cases id with
  | none => cases hid
  | some id =>
    by_cases hname : id = Bundled.xmlAttributesId
    · subst hname
      exact (Option.some.inj hid).symm
    · have hnone : Bundled.lookup? id = none := if_neg hname
      simp only [Option.bind_eq_bind, Option.bind_some, hnone, Option.bind_none] at hid
      cases hid

theorem short_of_target (h : ref.target files base = .ok next) :
    next.origin.utf8ByteSize < 4096 := by
  have hresolve := resolve_of_target h
  unfold resolve at hresolve
  split at hresolve
  · next document hbundled =>
    cases hresolve
    rw [eq_of_bundled? hbundled]
    decide
  · split at hresolve
    · cases hresolve
    · obtain ⟨text, htext, hnext⟩ := bind_ok hresolve
      cases hnext
      exact short_of_readText htext

end Reference

/-! ## Enough depth -/

/-- Documents that can be open at the same time: they have different names, all of which are short,
except that of the first. -/
structure Open (reading : List String) : Prop where
  nodup : reading.Nodup
  short : ∀ n ∈ reading.dropLast, n.utf8ByteSize < 4096

theorem Open.length_lt {reading : List String} (h : Open reading) : reading.length < deepest := by
  have hdeepest : deepest = Nat.pow 256 4096 + 2 := by rw [deepest]
  rw [hdeepest]
  -- The power is a number too long to be written out.
  generalize hk : 4096 = k
  exact length_lt_of_short h.nodup (hk ▸ h.short)

theorem Open.cons {reading : List String} (h : Open reading) {name : String}
    (hnew : name ∉ reading) (hshort : reading = [] ∨ name.utf8ByteSize < 4096) :
    Open (name :: reading) := by
  refine ⟨List.nodup_cons.mpr ⟨hnew, h.nodup⟩, fun n hn => ?_⟩
  cases reading with
  | nil => cases hn
  | cons last rest =>
    rw [List.dropLast_cons_cons] at hn
    rcases List.mem_cons.mp hn with rfl | hn
    · exact hshort.resolve_left (List.cons_ne_nil _ _)
    · exact h.short n hn

variable {files : File.Tree}

/-- Parts take their course if every document that they refer to does. -/
theorem loads_parts {reading : List String} {r : Resource} {h : Header}
    {follow : Schema → Reference → Except Fault Schema}
    (hfollow : ∀ s ref, (∀ f, ref.target files r.base = .error f → follow s ref = .error f) ∧
      ∀ next, ref.target files r.base = .ok next →
        Loads files reading (.document next) s (follow s ref))
    (es : List Element) (s : Schema) :
    Loads files reading (.parts r h es) s (es.foldlM (addPart follow r.origin h) s) := by
  induction es generalizing s with
  | nil => exact .nothing
  | cons e es ih =>
    rw [List.foldlM_cons, addPart]
    cases href : reference? e with
    | none =>
      cases hdeclare : declare h s e with
      | error flaw => exact .flawed href hdeclare
      | ok s₁ => exact .declared href hdeclare (ih s₁)
    | some ref =>
      obtain ⟨hastray, hnext⟩ := hfollow s ref
      cases htarget : ref.target files r.base with
      | error f =>
        dsimp only
        rw [hastray f htarget]
        exact .astray href htarget
      | ok next =>
        have hloads := hnext next htarget
        dsimp only
        cases hanswer : follow s ref with
        | error f =>
          rw [hanswer] at hloads
          exact .stopped href htarget hloads
        | ok s₁ =>
          rw [hanswer] at hloads
          exact .followed href htarget hloads (ih s₁)

/-- A document that is read: its parts, one by one, between its beginning and its end. -/
theorem addDocument_read {depth : Nat} {reading : List String} {r : Resource} {s : Schema}
    {root : Element} (hdocuments : r.origin ∉ s.documents) (hreading : r.origin ∉ reading)
    (hroot : r.root = .ok root) :
    addDocument files (depth + 1) reading r s =
      (root.children.foldlM (addPart (fun s ref => ref.target files r.base >>= fun next =>
          addDocument files depth (r.origin :: reading) next s) r.origin (Header.ofElement root))
        (s.begin reading (Header.ofElement root))).map (·.finish r) := by
  rw [addDocument, if_neg (by simp [hdocuments, hreading]), hroot, map_eq_bind]
  change (root.children.foldlM (addPart _ _ _) (s.begin reading _) >>= _) = _
  congr 3
  funext s ref
  unfold Reference.target
  cases ref.resolve files r.base with
  | error f => rfl
  | ok found => cases found <;> rfl

theorem loads_addDocument {depth : Nat} {reading : List String} {r : Resource}
    (hopen : Open reading) (hshort : reading = [] ∨ r.origin.utf8ByteSize < 4096)
    (hroom : deepest ≤ reading.length + depth) (s : Schema) :
    Loads files reading (.document r) s (addDocument files depth reading r s) := by
  induction depth generalizing reading r s with
  | zero => exact absurd hopen.length_lt (Nat.not_lt.mpr hroom)
  | succ depth ih =>
    by_cases hdocuments : r.origin ∈ s.documents
    · rw [addDocument, if_pos (by simp [hdocuments])]
      exact .known (.inl hdocuments)
    by_cases hreading : r.origin ∈ reading
    · rw [addDocument, if_pos (by simp [hreading])]
      exact .known (.inr hreading)
    cases hroot : r.root with
    | error f =>
      rw [addDocument, if_neg (by simp [hdocuments, hreading]), hroot]
      exact .rootless hdocuments hreading hroot
    | ok root =>
      have hroom' : deepest ≤ (r.origin :: reading).length + depth := by
        rw [List.length_cons]
        omega
      rw [addDocument_read hdocuments hreading hroot]
      refine .read hdocuments hreading hroot (loads_parts (fun s ref => ?_) root.children _)
      refine ⟨fun f hf => by rw [hf]; rfl, fun next hnext => ?_⟩
      rw [hnext]
      exact ih (hopen.cons hreading hshort) (.inr (Reference.short_of_target hnext)) hroom' s

/-- **Loading ends.** Compiling documents, whatever they refer to, takes its course to the end. -/
theorem loads_compileResources (files : File.Tree) (rs : List Resource) :
    Loads files [] (.sources rs) empty (compileResources files rs) := by
  unfold compileResources
  generalize empty = s
  induction rs generalizing s with
  | nil => exact .done
  | cons r rs ih =>
    have hfirst : Loads files [] (.document r) s (addDocument files deepest [] r s) :=
      loads_addDocument ⟨List.nodup_nil, fun n hn => by cases hn⟩ (.inl rfl) (by simp) s
    rw [List.foldlM_cons]
    cases hadd : addDocument files deepest [] r s with
    | error f =>
      rw [hadd] at hfirst
      exact .fails hfirst
    | ok s₁ =>
      rw [hadd] at hfirst
      exact .source hfirst (ih s₁)

end ScopedXml.Schema
