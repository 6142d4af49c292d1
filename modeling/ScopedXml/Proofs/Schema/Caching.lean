import Mathlib.Data.List.Pairwise
import ScopedXml.Proofs.Schema.Pulling
import ScopedXml.Schema.Cache

/-!
# Caches over time

A cache is asked for schemas while files are written. As long as the documents that cached schemas
refer to stay as they are, every answer is a schema that the sources compile to on the files at hand
(`Store.Reached.serves`). Documents count as the same when their base directories are the same path,
so the names in a schema can come from another spelling of it (`Store.answers_in_first_spelling`).
-/

namespace ScopedXml.Schema

variable {files files' : File.Tree}

/-! ## Keys -/

/-- What tells one document from another. -/
def Resource.identity (r : Resource) : String × String × Option (List String) :=
  (r.origin, r.text, r.base.map (·.components))

theorem sameBase_iff {p q : Option File.Path} :
    sameBase p q = true ↔ p.map (·.components) = q.map (·.components) := by
  cases p <;> cases q <;> simp [sameBase, File.Path.same]

theorem Resource.same_iff {r s : Resource} : r.same s = true ↔ r.identity = s.identity := by
  simp [Resource.same, Resource.identity, sameBase_iff, and_assoc]

theorem sameKey_iff {rs qs : List Resource} :
    sameKey rs qs = true ↔ rs.map (·.identity) = qs.map (·.identity) := by
  induction rs generalizing qs with
  | nil => cases qs <;> simp [sameKey]
  | cons r rs ih =>
    cases qs with
    | nil => simp [sameKey]
    | cons q qs => simp [sameKey, Resource.same_iff, ih]

/-! ## One request -/

namespace Cache

variable {c : Cache} {victim : Nat} {sources : List Source}

/-- How a request for a schema can end. -/
inductive Compiles (files : File.Tree) (victim : Nat) (sources : List Source) (c : Cache) :
    Except Fault Shared × Cache → Prop
  | nothing : sources = [] → Compiles files victim sources c (.error .noSources, c)
  | fails {f : Fault} : sources ≠ [] → Schema.compile files sources = .error f →
    Compiles files victim sources c (.error f, c)
  | found {key : List Resource} {e : Entry} : sources ≠ [] →
    Source.loadAll files sources = .ok key → e ∈ c.entries → sameKey e.key key = true →
    Compiles files victim sources c (.ok e.shared, c)
  | fresh {key : List Resource} {schema : Schema} : sources ≠ [] →
    Source.loadAll files sources = .ok key → (∀ e ∈ c.entries, sameKey e.key key = false) →
    compileResources files key = .ok schema →
    Compiles files victim sources c (.ok ⟨c.compiled, schema⟩,
      { c with
        entries := (c.makeRoom victim).entries ++ [⟨key, ⟨c.compiled, schema⟩⟩]
        compiled := c.compiled + 1 })

theorem compile_compiles (files : File.Tree) (victim : Nat) (sources : List Source) (c : Cache) :
    Compiles files victim sources c (c.compile files victim sources) := by
  unfold compile
  split
  · next hnone => exact .nothing (List.isEmpty_iff.mp hnone)
  · next hsome =>
    have hsources : sources ≠ [] := fun hnil => hsome (List.isEmpty_iff.mpr hnil)
    cases hload : Source.loadAll files sources with
    | error f =>
      refine .fails hsources ?_
      rw [Schema.compile, hload]
      rfl
    | ok key =>
      dsimp only
      cases hfind : c.find? key with
      | some shared =>
        obtain ⟨e, hentry, rfl⟩ := Option.map_eq_some_iff.mp hfind
        have hsame := List.find?_some (p := fun e : Entry => sameKey e.key key) hentry
        exact .found hsources hload (List.mem_of_find?_eq_some hentry) hsame
      | none =>
        have hnone : ∀ e ∈ c.entries, sameKey e.key key = false := by
          intro e he
          have hfind' := List.find?_eq_none.mp (Option.map_eq_none_iff.mp hfind) e he
          exact Bool.eq_false_iff.mpr hfind'
        cases hcompile : compileResources files key with
        | error f =>
          refine .fails hsources ?_
          rw [Schema.compile, hload]
          exact hcompile
        | ok schema =>
          have hroom : (c.makeRoom victim).compiled = c.compiled ∧
              (c.makeRoom victim).most = c.most := by
            unfold makeRoom
            split <;> exact ⟨rfl, rfl⟩
          dsimp only [keep]
          rw [hroom.1, hroom.2]
          exact .fresh hsources hload hnone hcompile

/-- Making room forgets, and leaves room for one more schema. -/
theorem makeRoom_entries (hsize : c.size ≤ c.limit) (victim : Nat) :
    (c.makeRoom victim).entries.Sublist c.entries ∧
      (c.makeRoom victim).entries.length < c.limit := by
  have hlimit : 0 < c.limit := Nat.lt_of_lt_of_le Nat.one_pos (Nat.le_max_right _ _)
  unfold makeRoom
  split
  · next hfull =>
    have hpos : 0 < c.entries.length := Nat.lt_of_lt_of_le hlimit hfull
    refine ⟨List.eraseIdx_sublist _ _, ?_⟩
    have hvictim : victim % c.entries.length < c.entries.length := Nat.mod_lt _ hpos
    have hlength : (c.entries.eraseIdx (victim % c.size)).length = c.entries.length - 1 :=
      List.length_eraseIdx_of_lt hvictim
    dsimp only
    rw [size] at hsize
    omega
  · next hroom => exact ⟨List.Sublist.refl _, Nat.lt_of_not_le hroom⟩

end Cache

/-! ## Histories -/

/-- Files, and a cache that is asked for schemas of them. -/
structure Store where
  files : File.Tree
  cache : Cache

namespace Store

/-- What can happen to files and cache. Files may change in any way, but the references that cached
schemas followed go on leading to the same documents. -/
inductive Step : Store → Store → Prop
  | compile (st : Store) (victim : Nat) (sources : List Source) :
    Step st ⟨st.files, (st.cache.compile st.files victim sources).2⟩
  | build (st : Store) (victim : Nat) (sources : List Source) (settings : ReaderSettings) :
    Step st ⟨st.files, (st.cache.build st.files victim sources settings).2⟩
  | clear (st : Store) : Step st ⟨st.files, st.cache.clear⟩
  | write {st : Store} {files' : File.Tree} :
    (∀ e ∈ st.cache.entries, ∀ p ∈ pulled st.files e.key, p.HoldsIn files') →
    Step st ⟨files', st.cache⟩

/-- What a cache for so many schemas, empty at first, can come to. -/
inductive Reached (most : Nat) : Store → Prop
  | start (files : File.Tree) : Reached most ⟨files, .ofSize most⟩
  | step {st st' : Store} : Reached most st → Step st st' → Reached most st'

/-- What holds of a cache at all times. -/
structure Sound (most : Nat) (st : Store) : Prop where
  limit : st.cache.limit = max most 1
  bounded : st.cache.size ≤ st.cache.limit
  compiled : ∀ e ∈ st.cache.entries, compileResources st.files e.key = .ok e.shared.schema
  distinct : st.cache.entries.Pairwise fun e e' => sameKey e.key e'.key = false

variable {most victim : Nat} {st st' : Store} {sources : List Source}

theorem Sound.compile (h : st.Sound most) (victim : Nat) (sources : List Source) :
    Sound most ⟨st.files, (st.cache.compile st.files victim sources).2⟩ := by
  have hcompiles := st.cache.compile_compiles st.files victim sources
  generalize st.cache.compile st.files victim sources = answer at hcompiles ⊢
  cases hcompiles with
  | nothing => exact h
  | fails => exact h
  | found => exact h
  | fresh _ hload hnew hschema =>
    obtain ⟨hkept, hroom⟩ := Cache.makeRoom_entries h.bounded victim
    refine ⟨h.limit, ?_, fun e he => ?_, ?_⟩
    · simp only [Cache.size, List.length_append, List.length_singleton]
      exact hroom
    · rcases List.mem_append.mp he with he | he
      · exact h.compiled e (hkept.subset he)
      · rw [List.mem_singleton.mp he]
        exact hschema
    · refine List.pairwise_append.mpr ⟨h.distinct.sublist hkept, List.pairwise_singleton _ _, ?_⟩
      intro e he e' he'
      rw [List.mem_singleton.mp he']
      exact hnew e (hkept.subset he)

/-- Schemas go on being what their documents compile to while what they rest on stays. -/
theorem Sound.write (h : st.Sound most)
    (hholds : ∀ e ∈ st.cache.entries, ∀ p ∈ pulled st.files e.key, p.HoldsIn files') :
    Sound most ⟨files', st.cache⟩ := by
  refine ⟨h.limit, h.bounded, fun e he => ?_, h.distinct⟩
  have hschema := h.compiled e he
  have hpulls := hholds e he
  rw [← pullResources_schema] at hschema
  rw [pulled] at hpulls
  cases hpulled : pullResources st.files e.key with
  | error f =>
    rw [hpulled] at hschema
    cases hschema
  | ok t =>
    rw [hpulled] at hschema hpulls
    rw [← hschema, ← pullResources_schema, pullResources_of_holds hpulled hpulls]

theorem Sound.step (h : st.Sound most) (hstep : Step st st') : st'.Sound most := by
  cases hstep with
  | compile victim sources => exact h.compile victim sources
  | build victim sources settings =>
    unfold Cache.build
    split
    · exact h
    · exact h.compile victim sources
  | clear => exact ⟨h.limit, Nat.zero_le _, fun e he => absurd he List.not_mem_nil, .nil⟩
  | write hholds => exact h.write hholds

theorem Reached.sound (h : st.Reached most) : st.Sound most := by
  induction h with
  | start files =>
    exact ⟨rfl, Nat.zero_le _, fun e he => absurd he List.not_mem_nil, .nil⟩
  | step _ hstep ih => exact ih.step hstep

/-- What is cached for a key is found. -/
theorem Sound.find? (h : st.Sound most) {e : Entry} {key : List Resource}
    (he : e ∈ st.cache.entries) (hsame : sameKey e.key key = true) :
    st.cache.find? key = some e.shared := by
  have hsome : (st.cache.entries.find? fun e => sameKey e.key key).isSome :=
    List.find?_isSome.mpr ⟨e, he, hsame⟩
  obtain ⟨e', he'⟩ := Option.isSome_iff_exists.mp hsome
  have hsame' := List.find?_some (p := fun e : Entry => sameKey e.key key) he'
  -- Two entries for one key would be the same one.
  have hunique : e' = e := by
    by_contra hne
    have hsymm : Std.Symm fun e e' : Entry => sameKey e.key e'.key = false := by
      refine ⟨fun a b hab => ?_⟩
      rw [Bool.eq_false_iff, ne_eq, sameKey_iff] at hab ⊢
      exact fun hba => hab hba.symm
    have hdistinct := h.distinct.forall (List.mem_of_find?_eq_some he') he hne
    rw [sameKey_iff] at hsame hsame'
    rw [Bool.eq_false_iff, ne_eq, sameKey_iff] at hdistinct
    exact hdistinct (hsame'.trans hsame.symm)
  rw [Cache.find?, he', hunique]
  rfl

/-! ## Answers -/

/-- What a store promises when it is asked for the schema of some sources. -/
structure Serves (most : Nat) (st : Store) (victim : Nat) (sources : List Source) : Prop where
  /-- No more schemas are kept than the cache was made for, and one at least. -/
  bounded : st.cache.size ≤ max most 1 ∧ (st.cache.compile st.files victim sources).2.size ≤ max most 1
  /-- Without sources there is no schema. -/
  nothing : sources = [] →
    st.cache.compile st.files victim sources = (.error .noSources, st.cache)
  /-- A failure is that of the sources, and leaves the cache as it is. -/
  failed : ∀ f, (st.cache.compile st.files victim sources).1 = .error f →
    (st.cache.compile st.files victim sources).2 = st.cache ∧
      (sources ≠ [] → Schema.compile st.files sources = .error f)
  /-- A reader that cannot be built leaves the cache as it is, too. -/
  unbuilt : ∀ settings f, (st.cache.build st.files victim sources settings).1 = .error f →
    (st.cache.build st.files victim sources settings).2 = st.cache
  /-- A schema is what documents with the same names, texts and base directories compile to on the
  files at hand. They are those of the sources, or those that it was first asked for by. -/
  answered : ∀ shared, (st.cache.compile st.files victim sources).1 = .ok shared →
    ∃ key key', Source.loadAll st.files sources = .ok key ∧ sameKey key' key = true ∧
      compileResources st.files key' = .ok shared.schema ∧
      (key' = key ∨ ⟨key', shared⟩ ∈ st.cache.entries)
  /-- If no cached schema was asked for by the same documents in another spelling, the answer is that
  of the sources. -/
  exactly : sources ≠ [] →
    (∀ key, Source.loadAll st.files sources = .ok key →
      ∀ e ∈ st.cache.entries, sameKey e.key key = true → e.key = key) →
    (st.cache.compile st.files victim sources).1.map (·.schema) = Schema.compile st.files sources
  /-- As long as nothing is forgotten, sources that read the same get the same shared schema. -/
  again : ∀ shared, (st.cache.compile st.files victim sources).1 = .ok shared →
    ∀ later : Store, later.Reached most →
      (∀ e ∈ (st.cache.compile st.files victim sources).2.entries, e ∈ later.cache.entries) →
      Source.loadAll later.files sources = Source.loadAll st.files sources →
      ∀ victim', (later.cache.compile later.files victim' sources).1 = .ok shared

theorem failed_of_compiles {answer : Except Fault Shared × Cache} {f : Fault}
    (h : Cache.Compiles st.files victim sources st.cache answer) (hfailed : answer.1 = .error f) :
    answer.2 = st.cache ∧ (sources ≠ [] → Schema.compile st.files sources = .error f) := by
  cases h with
  | nothing hnone => exact ⟨rfl, fun hsome => absurd hnone hsome⟩
  | fails _ hcompile =>
    cases hfailed
    exact ⟨rfl, fun _ => hcompile⟩
  | found => cases hfailed
  | fresh => cases hfailed

theorem unbuilt_of_error {settings : ReaderSettings} {f : Fault}
    (h : (st.cache.build st.files victim sources settings).1 = .error f) :
    (st.cache.build st.files victim sources settings).2 = st.cache := by
  have hcompiles := st.cache.compile_compiles st.files victim sources
  unfold Cache.build at h ⊢
  split at h
  · rfl
  · dsimp only at h ⊢
    cases hanswer : (st.cache.compile st.files victim sources).1 with
    | error f' => exact (failed_of_compiles hcompiles hanswer).1
    | ok shared =>
      rw [hanswer] at h
      cases h

theorem Sound.answered_of_compiles (h : st.Sound most) {answer : Except Fault Shared × Cache}
    {shared : Shared} (hcompiles : Cache.Compiles st.files victim sources st.cache answer)
    (hanswer : answer.1 = .ok shared) :
    ∃ key key', Source.loadAll st.files sources = .ok key ∧ sameKey key' key = true ∧
      compileResources st.files key' = .ok shared.schema ∧
      (key' = key ∨ ⟨key', shared⟩ ∈ st.cache.entries) := by
  cases hcompiles with
  | nothing => cases hanswer
  | fails => cases hanswer
  | found _ hload he hsame =>
    cases hanswer
    exact ⟨_, _, hload, hsame, h.compiled _ he, .inr he⟩
  | fresh _ hload _ hschema =>
    cases hanswer
    exact ⟨_, _, hload, sameKey_iff.mpr rfl, hschema, .inl rfl⟩

/-- Behind an answer its schema is kept, with documents that are the same as those of the sources. -/
theorem kept_of_compiles {answer : Except Fault Shared × Cache} {shared : Shared}
    (hcompiles : Cache.Compiles st.files victim sources st.cache answer)
    (hanswer : answer.1 = .ok shared) :
    sources ≠ [] ∧ ∃ key, Source.loadAll st.files sources = .ok key ∧
      ∃ e ∈ answer.2.entries, sameKey e.key key = true ∧ e.shared = shared := by
  cases hcompiles with
  | nothing => cases hanswer
  | fails => cases hanswer
  | found hsources hload he hsame =>
    cases hanswer
    exact ⟨hsources, _, hload, _, he, hsame, rfl⟩
  | fresh hsources hload _ _ =>
    cases hanswer
    exact ⟨hsources, _, hload, _, List.mem_append_right _ (List.mem_singleton.mpr rfl),
      sameKey_iff.mpr rfl, rfl⟩

theorem Sound.compile_of_kept (h : st.Sound most) (hsources : sources ≠ []) {key : List Resource}
    (hload : Source.loadAll st.files sources = .ok key) {e : Entry} (he : e ∈ st.cache.entries)
    (hsame : sameKey e.key key = true) (victim : Nat) :
    (st.cache.compile st.files victim sources).1 = .ok e.shared := by
  unfold Cache.compile
  rw [if_neg (mt List.isEmpty_iff.mp hsources), hload]
  dsimp only
  rw [h.find? he hsame]

/-- **Caching.** Whatever happened to the cache, it serves what the sources compile to. -/
theorem Reached.serves (h : st.Reached most) (victim : Nat) (sources : List Source) :
    st.Serves most victim sources := by
  have hsound := h.sound
  have hcompiles := st.cache.compile_compiles st.files victim sources
  refine ⟨⟨?_, ?_⟩, fun hnone => ?_, fun f hf => failed_of_compiles hcompiles hf,
    fun settings f hf => unbuilt_of_error hf,
    fun shared hshared => hsound.answered_of_compiles hcompiles hshared, fun hsources hspelled => ?_,
    fun shared hshared later hlater hkept hload victim' => ?_⟩
  · exact hsound.limit ▸ hsound.bounded
  · have hafter := hsound.compile victim sources
    exact hafter.limit ▸ hafter.bounded
  · rw [hnone]
    rfl
  · cases hanswer : (st.cache.compile st.files victim sources).1 with
    | error f => exact ((failed_of_compiles hcompiles hanswer).2 hsources).symm
    | ok shared =>
      obtain ⟨key, key', hload, hsame, hschema, horigin⟩ :=
        hsound.answered_of_compiles hcompiles hanswer
      have hkey : key' = key := by
        rcases horigin with horigin | hentry
        · exact horigin
        · exact hspelled key hload _ hentry hsame
      rw [Schema.compile, hload, ← hkey]
      exact hschema.symm
  · obtain ⟨hsources, key, hkey, e, he, hsame, rfl⟩ := kept_of_compiles hcompiles hshared
    exact hlater.sound.compile_of_kept hsources (hload.trans hkey) (hkept e he) hsame victim'

/-! ## Two spellings -/

/-- A schema document that includes one beside it. -/
def including : String := "<schema><include schemaLocation='b.xsd'/></schema>"

def twoDocuments : File.Tree :=
  ⟨[(["x", "y", "a.xsd"], Text.Utf8.encode including),
    (["x", "y", "b.xsd"], Text.Utf8.encode "<schema/>")]⟩

/-- The including document as a source, under a name of its own. -/
def spelled (path : String) : List Source := [⟨.file ⟨path⟩, some "I"⟩]

/-- The cache that has compiled the including document once. -/
def askedOnce (path : String) : Cache :=
  ((Cache.ofSize 4).compile twoDocuments 0 (spelled path)).2

theorem askedOnce_reached (path : String) : Reached 4 ⟨twoDocuments, askedOnce path⟩ :=
  (Reached.start twoDocuments).step (.compile ⟨twoDocuments, .ofSize 4⟩ 0 (spelled path))

/-- A file is written beside the documents of a cached schema, which is then asked for again. -/
theorem serves_beside_write :
    Reached 4 ⟨twoDocuments.write ⟨"x/y/c.xsd"⟩ [60], askedOnce "x/y/a.xsd"⟩ ∧
      ((askedOnce "x/y/a.xsd").compile (twoDocuments.write ⟨"x/y/c.xsd"⟩ [60]) 0
        (spelled "x/y/a.xsd")).1.map (·.schema) =
          Schema.compile (twoDocuments.write ⟨"x/y/c.xsd"⟩ [60]) (spelled "x/y/a.xsd") := by
  have hkeys : (askedOnce "x/y/a.xsd").entries.map (·.key) = [[⟨"I", including, some ⟨"x/y"⟩⟩]] := by
    decide +kernel
  have hkey : ∀ e ∈ (askedOnce "x/y/a.xsd").entries, e.key = [⟨"I", including, some ⟨"x/y"⟩⟩] := by
    intro e he
    have hmem := List.mem_map_of_mem (f := (·.key)) he
    rw [hkeys] at hmem
    exact List.mem_singleton.mp hmem
  have hpulled : pulled twoDocuments [⟨"I", including, some ⟨"x/y"⟩⟩] =
      [⟨some ⟨"x/y"⟩, ⟨none, some "b.xsd"⟩, ⟨"x/y/b.xsd", "<schema/>", some ⟨"x/y"⟩⟩⟩] := by
    decide +kernel
  have hreached : Reached 4 ⟨twoDocuments.write ⟨"x/y/c.xsd"⟩ [60], askedOnce "x/y/a.xsd"⟩ := by
    refine (askedOnce_reached "x/y/a.xsd").step (.write fun e he p hp => ?_)
    dsimp only at hp
    rw [hkey e he, hpulled] at hp
    rw [List.mem_singleton.mp hp]
    unfold Pull.HoldsIn
    decide +kernel
  have hload : Source.loadAll (twoDocuments.write ⟨"x/y/c.xsd"⟩ [60]) (spelled "x/y/a.xsd") =
      .ok [⟨"I", including, some ⟨"x/y"⟩⟩] := by
    decide +kernel
  refine ⟨hreached, (hreached.serves 0 (spelled "x/y/a.xsd")).exactly (by simp [spelled]) ?_⟩
  intro key hkey' e he _
  rw [hload] at hkey'
  exact (hkey e he).trans (Except.ok.inj hkey')

/-- The same sources under a second spelling of their directory get the schema of the first, in which
the included document bears another name. -/
theorem answers_in_first_spelling :
    Reached 4 ⟨twoDocuments, askedOnce "x//y/a.xsd"⟩ ∧
      ((askedOnce "x//y/a.xsd").compile twoDocuments 0 (spelled "x/y/a.xsd")).1.map
        (·.schema) ≠ Schema.compile twoDocuments (spelled "x/y/a.xsd") := by
  refine ⟨askedOnce_reached "x//y/a.xsd", fun halike => ?_⟩
  have hdocuments := congrArg (Except.map (·.documents)) halike
  have hcached : (((askedOnce "x//y/a.xsd").compile twoDocuments 0 (spelled "x/y/a.xsd")).1.map
      (·.schema)).map (·.documents) = .ok ["x//y/b.xsd", "I"] := by
    decide +kernel
  have hcompiled : (Schema.compile twoDocuments (spelled "x/y/a.xsd")).map (·.documents) =
      .ok ["x/y/b.xsd", "I"] := by
    decide +kernel
  rw [hcached, hcompiled] at hdocuments
  exact absurd (Except.ok.inj hdocuments) (by decide)

end Store

end ScopedXml.Schema
