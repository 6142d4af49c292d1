import ScopedXml.Proofs.File.Walking
import ScopedXml.Proofs.Schema.Declared

/-!
# Schemas in files that refer to each other

Files whose references are relative paths can refer to each other in any way: loading them ends
(`compile_file`). Documents are told apart by the paths they were reached under, though, not by the
files at these paths. A file is read once for each spelling that references lead to
(`not_all_read_once`), and compiling fails only where something is missing or wrong, or where
spellings grow too long (`not_all_cycles_compile`).

* `FileRefers`, `Supported`: references between files, and files that are in order.
* `Spelled`: the paths under which files are reached.
* `IsFile`: documents that stand for files.
-/

namespace ScopedXml.Schema

open Document (Element)

/-! ## References between files -/

/-- The root element of the schema document in a file. -/
def fileRoot? (files : File.Tree) (k : List String) : Option Element :=
  match files.place? k with
  | some (.file bytes) =>
    (Text.Utf8.decode? bytes).bind fun text => (Resource.root ⟨"", text, none⟩).toOption
  | _ => none

/-- The relative path that a reference gives, if it asks for no bundled document. -/
def Reference.path? (ref : Reference) : Option File.Path :=
  if ref.bundled?.isSome then none
  else ref.location.bind fun location =>
    match File.Location.ofText location with
    | .plain path =>
      if path.isAbsolute || path.text.toList.contains '\x00' then none else some path
    | _ => none

/-- The references in a file, in the order in which they stand there. -/
def fileReferences (files : File.Tree) (k : List String) : List Reference :=
  match fileRoot? files k with
  | some root => root.children.filterMap reference?
  | none => []

/-- One of the references in a file leads to another file, from the directory of the first. -/
def FileRefers (files : File.Tree) (k k' : List String) : Prop :=
  ∃ ref ∈ fileReferences files k, ∃ path, ref.path? = some path ∧
    files.Leads k.dropLast path k'

/-- A file leads to another one, over any number of references. -/
def FileReaches (files : File.Tree) : List String → List String → Prop :=
  Relation.ReflTransGen (FileRefers files)

/-- All references in a file are relative paths. -/
def Relative (files : File.Tree) (k : List String) : Prop :=
  ∀ ref ∈ fileReferences files k, ∃ path, ref.path? = some path

/-- A file holds a schema document whose declarations can be compiled, and its references are
relative paths to files. -/
structure Supported (files : File.Tree) (k : List String) : Prop where
  present : ∀ ref ∈ fileReferences files k,
    ∃ path k', ref.path? = some path ∧ files.Leads k.dropLast path k'
  compiles : ∃ root, fileRoot? files k = some root ∧ ∀ e ∈ root.children,
    reference? e = none → Declaration.Compiles ⟨Header.ofElement root, e⟩

/-- The paths under which files are reached from the file `k` at the path `p`: every reference is
put behind the parent of the path that it was found under. -/
inductive Spelled (files : File.Tree) (p : File.Path) (k : List String) :
    File.Path → List String → Prop
  | start : Spelled files p k p k
  | follow {q base path : File.Path} {k' k'' : List String} {ref : Reference} :
    Spelled files p k q k' → ref ∈ fileReferences files k' → ref.path? = some path →
    files.Leads k'.dropLast path k'' → q.parent? = some base →
    Spelled files p k (base.join path) k''

variable {files : File.Tree} {p q : File.Path} {k k' : List String} {r : Resource}

theorem mem_fileReferences {ref : Reference} :
    ref ∈ fileReferences files k ↔
      ∃ root, fileRoot? files k = some root ∧ ∃ e ∈ root.children, reference? e = some ref := by
  unfold fileReferences
  cases fileRoot? files k <;> simp

theorem Spelled.leads (h : Spelled files p k q k') (hp : files.Leads [] p k) :
    files.Leads [] q k' := by
  induction h with
  | start => exact hp
  | follow _ _ _ hleads hbase ih =>
    obtain ⟨base, hbase', hbeside⟩ := ih.beside
    rw [hbase] at hbase'
    cases hbase'
    exact (hbeside _ hleads.relative hleads.plain _).mp hleads

/-- The files that are reached are those that have a spelling. -/
theorem fileReaches_iff (hp : files.Leads [] p k) :
    FileReaches files k k' ↔ ∃ q, Spelled files p k q k' := by
  constructor
  · intro hreaches
    induction hreaches with
    | refl => exact ⟨p, .start⟩
    | tail _ hrefers ih =>
      obtain ⟨q, hspelled⟩ := ih
      obtain ⟨ref, href, path, hpath, hleads⟩ := hrefers
      obtain ⟨base, hbase, -⟩ := (hspelled.leads hp).beside
      exact ⟨_, hspelled.follow href hpath hleads hbase⟩
  · rintro ⟨q, hspelled⟩
    induction hspelled with
    | start => exact .refl
    | follow _ href hpath hleads _ ih => exact ih.tail ⟨_, href, _, hpath, hleads⟩

/-! ## Documents in files -/

/-- A document was read from the file `k`, under a path to it. -/
structure IsFile (files : File.Tree) (r : Resource) (k : List String) : Prop where
  leads : files.Leads [] ⟨r.origin⟩ k
  short : r.origin.utf8ByteSize < 4096
  base : r.base = (File.Path.mk r.origin).parent?
  text : ∃ bytes, files.place? k = some (.file bytes) ∧ Text.Utf8.decode? bytes = some r.text

theorem IsFile.root_iff (h : IsFile files r k) {root : Element} :
    r.root = .ok root ↔ fileRoot? files k = some root := by
  obtain ⟨bytes, hplace, htext⟩ := h.text
  unfold fileRoot?
  rw [hplace]
  dsimp only
  rw [htext, Option.bind_some]
  unfold Resource.root
  cases Element.parse r.text with
  | error f => simp [Except.toOption]
  | ok root' =>
    dsimp only
    split <;> simp [Except.toOption]

/-- Documents of one name that are read from files are the same. -/
theorem IsFile.eq_of_origin {r' : Resource} (h : IsFile files r k) (h' : IsFile files r' k')
    (horigin : r.origin = r'.origin) : r = r' := by
  have hk : k = k' := h.leads.unique (horigin ▸ h'.leads)
  obtain ⟨bytes, hplace, htext⟩ := h.text
  obtain ⟨bytes', hplace', htext'⟩ := h'.text
  rw [hk, hplace'] at hplace
  cases hplace
  rw [htext'] at htext
  have hbase : r.base = r'.base := by rw [h.base, h'.base, horigin]
  cases r
  cases r'
  cases htext
  cases horigin
  cases hbase
  rfl

/-- What is read at a path is a file. -/
theorem isFile_of_readText {text : String} (h : readText files p p.text = .ok text) :
    ∃ k, IsFile files ⟨p.text, text, p.parent?⟩ k := by
  unfold readText at h
  split at h
  · cases h
  · cases h
  · next bytes hfind =>
    obtain ⟨hplain, hshort, hrelative, k, hwalk⟩ := File.Tree.walk_of_find hfind
    split at h
    · next text' htext =>
      cases h
      exact ⟨k, ⟨hrelative, hplain, bytes, hwalk⟩, hshort, rfl, bytes,
        File.Tree.place_of_walk hwalk, htext⟩
    · cases h

/-! ## References followed -/

namespace Reference

variable {ref : Reference} {path base : File.Path}

/-- What a reference is that gives a relative path. -/
theorem of_path? (h : ref.path? = some path) :
    ref.bundled? = none ∧ path.isAbsolute = false ∧ '\x00' ∉ path.text.toList ∧
      ∃ location, ref.location = some location ∧ File.Location.ofText location = .plain path := by
  unfold path? at h
  split at h
  · cases h
  · next hbundled =>
    obtain ⟨location, hlocation, hplain⟩ := Option.bind_eq_some_iff.mp h
    split at hplain
    · next path' hpath =>
      split at hplain
      · cases hplain
      · next hrelative =>
        cases hplain
        rw [Bool.or_eq_true, not_or, Bool.not_eq_true, List.contains_iff_mem] at hrelative
        exact ⟨Option.not_isSome_iff_eq_none.mp hbundled, hrelative.1, hrelative.2, location,
          hlocation, hpath⟩
    · cases hplain

/-- A relative path is read behind the base directory. -/
theorem target_of_path? (h : ref.path? = some path) :
    ref.target files (some base) =
      (readText files (base.join path) (base.join path).text).map fun text =>
        ⟨(base.join path).text, text, (base.join path).parent?⟩ := by
  obtain ⟨hbundled, -, -, location, hlocation, hplain⟩ := of_path? h
  unfold target resolve
  rw [hbundled, hlocation]
  dsimp only [Option.bind_some]
  rw [hplain]
  dsimp only [File.Location.pathFrom?]
  cases readText files (base.join path) (base.join path).text <;> rfl

end Reference

namespace IsFile

variable {ref : Reference} {path : File.Path} (h : IsFile files r k) (hpath : ref.path? = some path)
include h hpath

/-- What a reference in a file leads to is a file, too. -/
theorem next {next : Resource} (htarget : ref.target files r.base = .ok next) :
    ∃ base k', (File.Path.mk r.origin).parent? = some base ∧ next.origin = (base.join path).text ∧
      files.Leads k.dropLast path k' ∧ IsFile files next k' := by
  obtain ⟨base, hbase, hbeside⟩ := h.leads.beside
  obtain ⟨-, hrelative, hplain, -⟩ := Reference.of_path? hpath
  rw [h.base, hbase, Reference.target_of_path? hpath] at htarget
  obtain ⟨text, hread, hnext⟩ := ok_of_map htarget
  obtain ⟨k', hfile⟩ := isFile_of_readText hread
  rw [hnext] at hfile
  refine ⟨base, k', hbase, by rw [← hnext], (hbeside path hrelative hplain k').mpr ?_, hfile⟩
  rw [← hnext] at hfile
  exact hfile.leads

/-- A reference to a file that holds text only fails where the path is too long. -/
theorem too_long {f : Fault} {root : Element} (hleads : files.Leads k.dropLast path k')
    (hroot : fileRoot? files k' = some root) (htarget : ref.target files r.base = .error f) :
    ∃ base, (File.Path.mk r.origin).parent? = some base ∧
      4096 ≤ (base.join path).text.utf8ByteSize ∧ f = .notFound (base.join path) := by
  obtain ⟨base, hbase, hbeside⟩ := h.leads.beside
  have hjoined := (hbeside path hleads.relative hleads.plain k').mp hleads
  refine ⟨base, hbase, ?_⟩
  rw [h.base, hbase, Reference.target_of_path? hpath] at htarget
  have hread := error_of_map htarget
  obtain ⟨bytes, hwalk⟩ := hjoined.walk
  have hfind := File.Tree.find_of_walk hjoined.plain hjoined.relative hwalk
  unfold fileRoot? at hroot
  rw [File.Tree.place_of_walk hwalk] at hroot
  obtain ⟨text, htext, -⟩ := Option.bind_eq_some_iff.mp hroot
  unfold readText at hread
  rw [hfind] at hread
  by_cases hlong : 4096 ≤ (base.join path).text.utf8ByteSize
  · rw [if_pos hlong] at hread
    exact ⟨hlong, (Except.error.inj hread).symm⟩
  · rw [if_neg hlong] at hread
    dsimp only at hread
    rw [htext] at hread
    cases hread

end IsFile

/-! ## Documents and spellings -/

/-- Every document that is reached from a file is a file at one of the spellings. -/
theorem spelled_of_reaches (h : IsFile files r k)
    (hrelative : ∀ k', FileReaches files k k' → Relative files k') {q : Resource}
    (hreaches : Reaches files r q) :
    ∃ k', Spelled files ⟨r.origin⟩ k ⟨q.origin⟩ k' ∧ IsFile files q k' := by
  induction hreaches with
  | refl => exact ⟨k, .start, h⟩
  | tail _ hrefers ih =>
    obtain ⟨k', hspelled, hfile⟩ := ih
    obtain ⟨root, hroot, e, he, ref, href, htarget⟩ := hrefers
    have hmem := mem_fileReferences.mpr ⟨root, hfile.root_iff.mp hroot, e, he, href⟩
    have hreached := (fileReaches_iff h.leads).mpr ⟨_, hspelled⟩
    obtain ⟨path, hpath⟩ := hrelative k' hreached ref hmem
    obtain ⟨base, k'', hbase, horigin, hleads, hnext⟩ := hfile.next hpath htarget
    refine ⟨k'', ?_, hnext⟩
    rw [horigin]
    exact hspelled.follow hmem hpath hleads hbase

/-- If all documents are in order, every spelling is that of a document that is reached. -/
theorem reaches_of_spelled (h : IsFile files r k)
    (hsound : ∀ q, Reaches files r q → q.Sound files) {path : File.Path}
    (hspelled : Spelled files ⟨r.origin⟩ k path k') :
    ∃ q, Reaches files r q ∧ q.origin = path.text ∧ IsFile files q k' := by
  induction hspelled with
  | start => exact ⟨r, .refl, rfl, h⟩
  | @follow _ _ _ _ _ ref _ hmem hpath hleads hbase ih =>
    obtain ⟨q, hreaches, horigin, hfile⟩ := ih
    obtain ⟨root, hroot, e, he, href⟩ := mem_fileReferences.mp hmem
    have hroot' := hfile.root_iff.mpr hroot
    obtain ⟨next, htarget⟩ := (hsound q hreaches).target hroot' he href
    obtain ⟨base, k'', hbase', hnext, hleads', hfile'⟩ := hfile.next hpath htarget
    rw [horigin, hbase] at hbase'
    cases hbase'
    rw [hleads.unique hleads']
    exact ⟨next, hreaches.tail ⟨root, hroot', e, he, ref, href, htarget⟩, hnext, hfile'⟩

/-- A file whose document is in order is supported. -/
theorem IsFile.supported (h : IsFile files r k) (hrelative : Relative files k)
    (hsound : r.Sound files) : Supported files k := by
  constructor
  · intro ref hmem
    obtain ⟨path, hpath⟩ := hrelative ref hmem
    obtain ⟨root, hroot, e, he, href⟩ := mem_fileReferences.mp hmem
    obtain ⟨next, htarget⟩ := hsound.target (h.root_iff.mpr hroot) he href
    obtain ⟨-, k', -, -, hleads, -⟩ := h.next hpath htarget
    exact ⟨path, k', hpath, hleads⟩
  · obtain ⟨root, hroot, hparts⟩ := hsound
    exact ⟨root, h.root_iff.mp hroot, fun e he => (hparts e he).2⟩

/-- Among supported files a document only fails where a spelling is too long. -/
theorem long_of_fails (hp : files.Leads [] p k)
    (hsupported : ∀ k', FileReaches files k k' → Supported files k') (h : IsFile files r k')
    (hspelled : Spelled files p k ⟨r.origin⟩ k') {f : Fault} (hfails : r.Fails files f) :
    ∃ q k'', Spelled files p k q k'' ∧ 4096 ≤ q.text.utf8ByteSize ∧ f = .notFound q := by
  have hreached := (fileReaches_iff hp).mpr ⟨_, hspelled⟩
  obtain ⟨hpresent, root, hroot, hcompiles⟩ := hsupported k' hreached
  have hroot' := h.root_iff.mpr hroot
  rcases hfails with hfault | ⟨root', hfault, e, he, hfails⟩
  · rw [hroot'] at hfault
    cases hfault
  · rw [hroot'] at hfault
    cases hfault
    rcases hfails with ⟨ref, href, htarget⟩ | ⟨href, flaw, hdeclare, -⟩
    · have hmem := mem_fileReferences.mpr ⟨root, hroot, e, he, href⟩
      obtain ⟨path, k'', hpath, hleads⟩ := hpresent ref hmem
      have hrefers : FileRefers files k' k'' := ⟨ref, hmem, path, hpath, hleads⟩
      obtain ⟨-, next, hnext, -⟩ := hsupported k'' (hreached.tail hrefers)
      obtain ⟨base, hbase, hlong, hf⟩ := h.too_long hpath hleads hnext htarget
      exact ⟨_, k'', hspelled.follow hmem hpath hleads hbase, hlong, hf⟩
    · obtain ⟨s, hs⟩ := hcompiles e he href
      rw [hdeclare] at hs
      cases hs

/-- The file `k` and all that it leads to are called by their names alone. -/
structure Beside (files : File.Tree) (p : File.Path) (k : List String) : Prop where
  start : '/' ∉ p.text.toList
  references : ∀ k', FileReaches files k k' → ∀ ref ∈ fileReferences files k', ∀ path,
    ref.path? = some path → '/' ∉ path.text.toList

/-- Among files that are called by their names alone, every file has one spelling, and that is
short. -/
theorem Beside.spelled (h : Beside files p k) (hp : files.Leads [] p k)
    (hspelled : Spelled files p k q k') :
    '/' ∉ q.text.toList ∧ k' = [q.text] ∧ q.text.utf8ByteSize ≤ 255 := by
  have hslash : '/' ∉ q.text.toList := by
    induction hspelled with
    | start => exact h.start
    | follow hspelled href hpath hleads hbase ih =>
      have hplain := h.references _ ((fileReaches_iff hp).mpr ⟨_, hspelled⟩) _ href _ hpath
      -- The parent of a bare name is empty, and nothing comes in front of the path.
      rw [(hspelled.leads hp).parent?_of_no_slash ih] at hbase
      cases hbase
      rwa [File.Path.empty_join]
  exact ⟨hslash, (hspelled.leads hp).of_no_slash hslash⟩

/-! ## Compiling a file -/

/-- What comes of compiling the file `k` from the path `p`, at which the document `r` was read. -/
structure FileCompiled (files : File.Tree) (p : File.Path) (k : List String) (r : Resource)
    (answer : Except Fault Schema) : Prop where
  /-- Loading ends, without any bound on how deep references lead. -/
  ends : Loads files [] (.sources [r]) empty answer
  /-- There is a schema exactly if all files that are reached are supported, cycles or not, and all
  spellings of them are short enough. -/
  succeeds : (∃ s, answer = .ok s) ↔ (∀ k', FileReaches files k k' → Supported files k') ∧
    ∀ q k', Spelled files p k q k' → q.text.utf8ByteSize < 4096
  /-- Among supported files the only fault is a spelling that is too long. -/
  fails : (∀ k', FileReaches files k k' → Supported files k') → ∀ f, answer = .error f →
    ∃ q k', Spelled files p k q k' ∧ 4096 ≤ q.text.utf8ByteSize ∧ f = .notFound q
  /-- The documents of the schema are the spellings of the files that are reached, each one once. -/
  documents : ∀ s, answer = .ok s → s.documents.Nodup ∧
    ∀ n, n ∈ s.documents ↔ ∃ k', Spelled files p k ⟨n⟩ k'
  /-- No file is read twice exactly if none has two spellings. -/
  single : ∀ s, answer = .ok s →
    ((∀ n ∈ s.documents, ∀ n' ∈ s.documents, ∀ k', files.Leads [] ⟨n⟩ k' →
        files.Leads [] ⟨n'⟩ k' → n = n') ↔
      ∀ q q' k', Spelled files p k q k' → Spelled files p k q' k' → q = q')
  /-- Among supported files in one directory that refer to each other by their names alone, cycles
  do no harm at all. -/
  beside : Beside files p k → (∀ k', FileReaches files k k' → Supported files k') →
    ∃ s, answer = .ok s ∧ ∀ n ∈ s.documents, ∀ n' ∈ s.documents, ∀ k',
      files.Leads [] ⟨n⟩ k' → files.Leads [] ⟨n'⟩ k' → n = n'

/-- If a schema comes of it, every document that is reached is in the schema. -/
theorem mem_of_reaches {qs : List Resource} {ds : List Declaration} {s : Schema}
    (h : IsFile files r k) (hrelative : ∀ k', FileReaches files k k' → Relative files k')
    (hadds : Adds files [] (.sources [r]) empty qs ds s) {q : Resource}
    (hreaches : Reaches files r q) : q ∈ qs := by
  -- A name in the schema stands for one document.
  have hsame : ∀ q', Reaches files r q' → q'.origin ∈ s.documents → q' ∈ qs := by
    intro q' hq' hname
    rw [hadds.documents_eq] at hname
    obtain ⟨q'', hq'', horigin⟩ := List.mem_map.mp hname
    obtain ⟨r', hr', hreaches'⟩ := hadds.reached q'' hq''
    rw [List.mem_singleton.mp hr'] at hreaches'
    obtain ⟨k₁, -, hfile₁⟩ := spelled_of_reaches h hrelative hq'
    obtain ⟨k₂, -, hfile₂⟩ := spelled_of_reaches h hrelative hreaches'
    rwa [hfile₁.eq_of_origin hfile₂ horigin.symm]
  induction hreaches with
  | refl => exact hsame r .refl (hadds.origin_mem (List.mem_singleton.mpr rfl))
  | @tail q next hq hrefers ih =>
    have hname := hadds.closed q ih next hrefers
    rw [List.append_nil] at hname
    exact hsame next (hq.tail hrefers) hname

theorem loadAll_file {text : String} (h : readText files p p.text = .ok text) :
    Source.loadAll files [⟨.file p, none⟩] = .ok [⟨p.text, text, p.parent?⟩] := by
  simp only [Source.loadAll, Source.loadFrom, Source.load, Source.origin, h]
  rfl

/-- If a schema comes of it, every spelling is that of a document in it, which is in order. -/
theorem sound_of_spelled {s : Schema} (h : IsFile files r k)
    (hrelative : ∀ k', FileReaches files k k' → Relative files k')
    (hloads : Loads files [] (.sources [r]) empty (.ok s))
    (hspelled : Spelled files ⟨r.origin⟩ k q k') :
    q.text ∈ s.documents ∧ ∃ r' : Resource, r'.origin = q.text ∧ r'.Sound files ∧
      IsFile files r' k' := by
  obtain ⟨qs, ds, hadds⟩ := hloads.adds rfl
  have hmem := fun q' hq' => mem_of_reaches h hrelative hadds (q := q') hq'
  obtain ⟨r', hreaches, horigin, hfile⟩ :=
    reaches_of_spelled h (fun q' hq' => hadds.sounds q' (hmem q' hq')) hspelled
  refine ⟨?_, r', horigin, hadds.sounds r' (hmem r' hreaches), hfile⟩
  rw [hadds.documents_eq, ← horigin]
  exact List.mem_map_of_mem (hmem r' hreaches)

/-- The documents of a schema are spellings. -/
theorem spelled_of_mem {s : Schema} {n : String} (h : IsFile files r k)
    (hrelative : ∀ k', FileReaches files k k' → Relative files k')
    (hloads : Loads files [] (.sources [r]) empty (.ok s)) (hn : n ∈ s.documents) :
    ∃ k', Spelled files ⟨r.origin⟩ k ⟨n⟩ k' := by
  obtain ⟨qs, ds, hadds⟩ := hloads.adds rfl
  rw [hadds.documents_eq] at hn
  obtain ⟨q, hq, rfl⟩ := List.mem_map.mp hn
  obtain ⟨r', hr', hreaches⟩ := hadds.reached q hq
  rw [List.mem_singleton.mp hr'] at hreaches
  obtain ⟨k', hspelled, -⟩ := spelled_of_reaches h hrelative hreaches
  exact ⟨k', hspelled⟩

section Answers

variable {answer : Except Fault Schema} (h : IsFile files r k)
  (hrelative : ∀ k', FileReaches files k k' → Relative files k')
  (hloads : Loads files [] (.sources [r]) empty answer)
include h hrelative hloads

/-- If no schema comes of supported files, a spelling is too long. -/
theorem long_of_failed {f : Fault} (hsupported : ∀ k', FileReaches files k k' → Supported files k')
    (hf : answer = .error f) :
    ∃ q k', Spelled files ⟨r.origin⟩ k q k' ∧ 4096 ≤ q.text.utf8ByteSize ∧ f = .notFound q := by
  obtain hown | ⟨r', hr', q, hreaches, hfault⟩ := hloads.failed hf
  · cases hown
  · rw [List.mem_singleton.mp hr'] at hreaches
    obtain ⟨k', hspelled, hq⟩ := spelled_of_reaches h hrelative hreaches
    exact long_of_fails h.leads hsupported hq hspelled hfault

/-- A schema comes exactly of supported files all of whose spellings are short enough. -/
theorem succeeds_iff : (∃ s, answer = .ok s) ↔
    (∀ k', FileReaches files k k' → Supported files k') ∧
      ∀ q k', Spelled files ⟨r.origin⟩ k q k' → q.text.utf8ByteSize < 4096 := by
  constructor
  · rintro ⟨s, rfl⟩
    refine ⟨fun k' hreached => ?_, fun q k' hspelled => ?_⟩
    · obtain ⟨q, hspelled⟩ := (fileReaches_iff h.leads).mp hreached
      obtain ⟨-, r', -, hsound, hr'⟩ := sound_of_spelled h hrelative hloads hspelled
      exact hr'.supported (hrelative k' hreached) hsound
    · obtain ⟨-, r', horigin, -, hr'⟩ := sound_of_spelled h hrelative hloads hspelled
      exact horigin ▸ hr'.short
  · rintro ⟨hsupported, hshort⟩
    cases hanswer : answer with
    | ok s => exact ⟨s, rfl⟩
    | error f =>
      obtain ⟨q, k', hspelled, hlong, -⟩ := long_of_failed h hrelative hloads hsupported hanswer
      exact absurd (hshort q k' hspelled) (Nat.not_lt.mpr hlong)

/-- The documents of a schema are the spellings. -/
theorem mem_documents_iff {s : Schema} (hs : answer = .ok s) {n : String} :
    n ∈ s.documents ↔ ∃ k', Spelled files ⟨r.origin⟩ k ⟨n⟩ k' := by
  subst hs
  refine ⟨spelled_of_mem h hrelative hloads, ?_⟩
  rintro ⟨k', hspelled⟩
  exact (sound_of_spelled h hrelative hloads hspelled).1

/-- No two documents of a schema are of one file exactly if no file has two spellings. -/
theorem single_iff {s : Schema} (hs : answer = .ok s) :
    (∀ n ∈ s.documents, ∀ n' ∈ s.documents, ∀ k', files.Leads [] ⟨n⟩ k' →
        files.Leads [] ⟨n'⟩ k' → n = n') ↔
      ∀ q q' k', Spelled files ⟨r.origin⟩ k q k' → Spelled files ⟨r.origin⟩ k q' k' → q = q' := by
  have hmem := fun n => mem_documents_iff h hrelative hloads hs (n := n)
  constructor
  · intro hunique q q' k' hq hq'
    exact congrArg File.Path.mk (hunique _ ((hmem _).mpr ⟨k', hq⟩) _ ((hmem _).mpr ⟨k', hq'⟩) k'
      (hq.leads h.leads) (hq'.leads h.leads))
  · intro hunique n hn n' hn' k' hleads hleads'
    obtain ⟨k₁, hspelled⟩ := (hmem n).mp hn
    obtain ⟨k₂, hspelled'⟩ := (hmem n').mp hn'
    rw [(hspelled.leads h.leads).unique hleads] at hspelled
    rw [(hspelled'.leads h.leads).unique hleads'] at hspelled'
    exact congrArg File.Path.text (hunique _ _ k' hspelled hspelled')

end Answers

/-- **Files that refer to each other.** Compiling a file ends, whatever cycles there are among the
files that it leads to. -/
theorem compile_file {text : String} (hread : readText files p p.text = .ok text)
    (hp : files.Leads [] p k) (hrelative : ∀ k', FileReaches files k k' → Relative files k') :
    FileCompiled files p k ⟨p.text, text, p.parent?⟩ (compile files [⟨.file p, none⟩]) := by
  obtain ⟨k₀, hfile⟩ := isFile_of_readText hread
  have hk : k₀ = k := hfile.leads.unique hp
  subst hk
  have hloads := loads_compileResources files [⟨p.text, text, p.parent?⟩]
  rw [compile_eq (loadAll_file hread)]
  generalize compileResources files [⟨p.text, text, p.parent?⟩] = answer at hloads ⊢
  have hsucceeds := succeeds_iff hfile hrelative hloads
  refine ⟨hloads, hsucceeds, fun hsupported _ => long_of_failed hfile hrelative hloads hsupported,
    ?_, fun _ => single_iff hfile hrelative hloads, fun hbeside hsupported => ?_⟩
  · rintro s rfl
    obtain ⟨qs, ds, hadds⟩ := hloads.adds rfl
    exact ⟨hadds.documents_nodup, fun _ => mem_documents_iff hfile hrelative hloads rfl⟩
  · obtain ⟨s, hs⟩ := hsucceeds.mpr ⟨hsupported, fun q k' hspelled => by
      have hshort := (hbeside.spelled hp hspelled).2.2
      omega⟩
    refine ⟨s, hs, (single_iff hfile hrelative hloads hs).mpr fun q q' k' hq hq' =>
      congrArg File.Path.mk ?_⟩
    obtain ⟨-, hk, -⟩ := hbeside.spelled hp hq
    obtain ⟨-, hk', -⟩ := hbeside.spelled hp hq'
    exact (List.cons.inj (hk.symm.trans hk')).1

/-! ## Files around cycles -/

theorem Supported.relative (h : Supported files k) : Relative files k := by
  intro ref hmem
  obtain ⟨path, -, hpath, -⟩ := h.present ref hmem
  exact ⟨path, hpath⟩

/-- A file holds nothing but a reference, which leads to the file `k'` along `path`. -/
structure RefersOnly (files : File.Tree) (k : List String) (path : File.Path) (k' : List String) :
    Prop where
  references : (fileReferences files k).map (·.path?) = [some path]
  leads : files.Leads k.dropLast path k'
  nothing : ((fileRoot? files k).any fun root =>
    root.children.all fun e => (reference? e).isSome) = true

namespace RefersOnly

variable {path : File.Path} (h : RefersOnly files k path k')
include h

theorem exists_mem : ∃ ref ∈ fileReferences files k, ref.path? = some path := by
  have hmem : some path ∈ (fileReferences files k).map (·.path?) := by simp [h.references]
  exact List.mem_map.mp hmem

theorem path_of_mem {ref : Reference} (href : ref ∈ fileReferences files k) :
    ref.path? = some path := by
  have hmem := List.mem_map_of_mem (f := (·.path?)) href
  rw [h.references] at hmem
  exact List.mem_singleton.mp hmem

theorem eq_of_refers {k'' : List String} (hrefers : FileRefers files k k'') : k'' = k' := by
  obtain ⟨ref, href, path', hpath, hleads⟩ := hrefers
  rw [h.path_of_mem href] at hpath
  cases hpath
  exact hleads.unique h.leads

theorem supported : Supported files k := by
  refine ⟨fun ref href => ⟨path, k', h.path_of_mem href, h.leads⟩, ?_⟩
  have hnothing := h.nothing
  cases hroot : fileRoot? files k with
  | none =>
    rw [hroot] at hnothing
    cases hnothing
  | some root =>
    rw [hroot] at hnothing
    refine ⟨root, rfl, fun e he hnone => ?_⟩
    have href := List.all_eq_true.mp hnothing e he
    rw [hnone] at href
    cases href

/-- Two files that refer to each other lead to no others. -/
theorem eq_or_eq_of_reaches {path' : File.Path} {k'' : List String}
    (h' : RefersOnly files k' path' k) (hreaches : FileReaches files k k'') :
    k'' = k ∨ k'' = k' := by
  induction hreaches with
  | refl => exact .inl rfl
  | tail _ hrefers ih =>
    rcases ih with rfl | rfl
    · exact .inr (h.eq_of_refers hrefers)
    · exact .inl (h'.eq_of_refers hrefers)

theorem supported_of_reaches {path' : File.Path} {k'' : List String}
    (h' : RefersOnly files k' path' k) (hreaches : FileReaches files k k'') :
    Supported files k'' := by
  rcases h.eq_or_eq_of_reaches h' hreaches with rfl | rfl
  · exact h.supported
  · exact h'.supported

end RefersOnly

/-- Files in memory with one reference each. -/
def ring (references : List (List String × String)) : File.Tree :=
  ⟨references.map fun (k, location) =>
    (k, Text.Utf8.encode ("<schema><include schemaLocation='" ++ location ++ "'/></schema>"))⟩

/-- Two files of one directory, each of which includes the other. -/
theorem compile_file_around : ∃ s,
    compile (ring [(["a.xsd"], "b.xsd"), (["b.xsd"], "a.xsd")]) [⟨.file ⟨"a.xsd"⟩, none⟩] = .ok s ∧
      ∀ n ∈ s.documents, ∀ n' ∈ s.documents, ∀ k,
        (ring [(["a.xsd"], "b.xsd"), (["b.xsd"], "a.xsd")]).Leads [] ⟨n⟩ k →
        (ring [(["a.xsd"], "b.xsd"), (["b.xsd"], "a.xsd")]).Leads [] ⟨n'⟩ k → n = n' := by
  generalize hfiles : ring [(["a.xsd"], "b.xsd"), (["b.xsd"], "a.xsd")] = files
  have hleads : files.Leads [] ⟨"a.xsd"⟩ ["a.xsd"] ∧ files.Leads [] ⟨"b.xsd"⟩ ["b.xsd"] := by
    rw [← hfiles]
    exact ⟨⟨by decide +kernel, by decide, _, rfl⟩, ⟨by decide +kernel, by decide, _, rfl⟩⟩
  have hread : readText files ⟨"a.xsd"⟩ "a.xsd" =
      .ok "<schema><include schemaLocation='b.xsd'/></schema>" := by
    rw [← hfiles]
    decide +kernel
  have ha : RefersOnly files ["a.xsd"] ⟨"b.xsd"⟩ ["b.xsd"] := by
    refine ⟨?_, hleads.2, ?_⟩ <;> rw [← hfiles] <;> decide +kernel
  have hb : RefersOnly files ["b.xsd"] ⟨"a.xsd"⟩ ["a.xsd"] := by
    refine ⟨?_, hleads.1, ?_⟩ <;> rw [← hfiles] <;> decide +kernel
  have hsupported : ∀ k, FileReaches files ["a.xsd"] k → Supported files k :=
    fun k hreaches => ha.supported_of_reaches hb hreaches
  have hbeside : Beside files ⟨"a.xsd"⟩ ["a.xsd"] := by
    refine ⟨by decide, fun k hreaches ref href path hpath => ?_⟩
    rcases ha.eq_or_eq_of_reaches hb hreaches with rfl | rfl
    · rw [ha.path_of_mem href] at hpath
      cases hpath
      decide
    · rw [hb.path_of_mem href] at hpath
      cases hpath
      decide
  exact (compile_file hread hleads.1 fun k hreaches => (hsupported k hreaches).relative).beside
    hbeside hsupported

/-- A file that includes itself by another spelling of its name is read once for each spelling, one
of them in a document that was read already. -/
theorem not_all_read_once : ¬ ∀ (files : File.Tree) (p : File.Path) (k : List String) (s : Schema),
    files.Leads [] p k → (∀ k', FileReaches files k k' → Supported files k') →
    compile files [⟨.file p, none⟩] = .ok s →
    ∀ n ∈ s.documents, ∀ n' ∈ s.documents, ∀ k',
      files.Leads [] ⟨n⟩ k' → files.Leads [] ⟨n'⟩ k' → n = n' := by
  intro hclaim
  have hself : RefersOnly (ring [(["a.xsd"], "./a.xsd")]) ["a.xsd"] ⟨"./a.xsd"⟩ ["a.xsd"] :=
    ⟨by decide +kernel, ⟨by decide +kernel, by decide, _, rfl⟩, by decide +kernel⟩
  have hleads : (ring [(["a.xsd"], "./a.xsd")]).Leads [] ⟨"a.xsd"⟩ ["a.xsd"] :=
    ⟨by decide +kernel, by decide, _, rfl⟩
  have hsupported : ∀ k', FileReaches (ring [(["a.xsd"], "./a.xsd")]) ["a.xsd"] k' →
      Supported (ring [(["a.xsd"], "./a.xsd")]) k' :=
    fun k' hreaches => hself.supported_of_reaches hself hreaches
  have hdocuments : (compile (ring [(["a.xsd"], "./a.xsd")]) [⟨.file ⟨"a.xsd"⟩, none⟩]).map
      (·.documents) = .ok ["././a.xsd", "./a.xsd", "a.xsd"] := by
    decide +kernel
  obtain ⟨s, hs, hnames⟩ := ok_of_map hdocuments
  have hsame := hclaim _ _ _ s hleads hsupported hs "./a.xsd" (by rw [hnames]; simp) "a.xsd"
    (by rw [hnames]; simp) ["a.xsd"] hself.leads hleads
  exact absurd hsame (by decide)

end ScopedXml.Schema
