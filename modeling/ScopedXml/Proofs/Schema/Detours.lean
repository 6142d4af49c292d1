import ScopedXml.Proofs.Schema.Cycles

/-!
# Cycles through other directories

What a reference adds to a path is never taken away again, not even by `..`: every way around a
cycle that goes through another directory makes the path longer. Such a cycle is followed until the
path is too long to be found, so that nothing that leads to it can be compiled
(`not_compiles_of_detour`).

* `Path.Settled`, `Path.Plain`: directories and paths that are not shortened when they are joined.
* `Way`: references one after another, with the length that they add.
-/

namespace ScopedXml.File

namespace Path

/-- The last part of a text counts. -/
def Solid (cs : List Char) : Prop :=
  ∃ front part, cs = front ++ part ∧ '/' ∉ part ∧ part ≠ [] ∧ part ≠ ['.'] ∧
    (front = [] ∨ ∃ before, front = before ++ ['/'])

theorem Solid.append {cs : List Char} (h : Solid cs) (before : List Char) :
    Solid (before ++ '/' :: cs) := by
  obtain ⟨front, part, rfl, hslash, hempty, hdot, hfront⟩ := h
  refine ⟨before ++ '/' :: front, part, by simp, hslash, hempty, hdot, .inr ?_⟩
  rcases hfront with rfl | ⟨rest, rfl⟩
  · exact ⟨before, rfl⟩
  · exact ⟨before ++ '/' :: rest, by simp⟩

theorem Solid.getLast? {cs : List Char} (h : Solid cs) : cs.getLast? ≠ some '/' := by
  obtain ⟨front, part, rfl, hslash, hempty, -, -⟩ := h
  rw [List.getLast?_append_of_ne_nil _ hempty]
  exact fun hlast => hslash (List.mem_of_getLast? hlast)

/-- The text of a base directory that is no longer than it has to be. -/
def Settled (cs : List Char) : Prop := cs = [] ∨ cs = ['.'] ∨ Solid cs

variable {p base path : Path} {dirs name : List Char}

/-- The parent of a path is what stands in front of its name, if that is settled. -/
theorem parent?_of_settled (hrelative : p.text.toList.head? ≠ some '/') (hdirs : Settled dirs)
    (hslash : '/' ∉ name) (hempty : name ≠ []) (hdot : name ≠ ['.'])
    (htext : p.text.toList = dirs ++ '/' :: name) : p.parent? = some ⟨String.ofList dirs⟩ := by
  have hkept : ∀ {front part : List Char}, '/' ∉ part → part ≠ [] → part ≠ ['.'] →
      (dropIdle (front ++ part).reverse).reverse = front ++ part := by
    intro front part hpart hpart' hpart''
    rw [List.reverse_append, dropIdle_of_name hpart hpart' hpart'', ← List.reverse_append,
      List.reverse_reverse]
  rcases hdirs with rfl | rfl | ⟨front, part, rfl, hpart, hpart', hpart'', hfront⟩
  · rw [htext] at hrelative
    exact absurd rfl hrelative
  · rw [parent?_of_slash [] hslash hempty hdot (by rw [htext]; rfl), htext]
    rfl
  · rcases fixedLength_of_relative hrelative with hfixed | hshort | ⟨ds, hds⟩
    · rw [parent?_of_slash _ hslash hempty hdot (by rw [hfixed]; exact htext), hfixed,
        hkept hpart hpart' hpart'']
      rfl
    · rw [htext] at hshort
      have hlength := congrArg List.length hshort
      have hpos := List.length_pos_iff.mpr hpart'
      simp only [List.length_append, List.length_cons, List.length_nil] at hlength
      omega
    · -- The `.` in front is the beginning of `front`.
      have hfixed : fixedLength p.text.toList = 1 := by rw [hds]; rfl
      obtain ⟨front', rfl⟩ : ∃ front', front = '.' :: front' := by
        rw [htext] at hds
        rcases hfront with rfl | ⟨before, rfl⟩
        · obtain ⟨c, part', rfl⟩ := List.exists_cons_of_ne_nil hpart'
          obtain ⟨rfl, hrest⟩ := List.cons.inj hds
          cases part' with
          | nil => exact absurd rfl hpart''
          | cons c' part'' =>
            rw [(List.cons.inj hrest).1] at hpart
            exact absurd (List.mem_cons_of_mem _ List.mem_cons_self) hpart
        · cases before with
          | nil => cases (List.cons.inj hds).1
          | cons c before' =>
            rw [(List.cons.inj hds).1]
            exact ⟨before' ++ ['/'], rfl⟩
      rw [parent?_of_slash (front' ++ part) hslash hempty hdot
        (by rw [hfixed, htext]; rfl), hfixed, htext, hkept hpart hpart' hpart'']
      rfl

/-- A path whose directory part `dirs`, if there is one, is settled. -/
inductive Plain : List Char → Path → Prop
  | name {p : Path} : '/' ∉ p.text.toList → Plain [] p
  | within {p : Path} {dirs : List Char} (name : List Char) : Solid dirs → '/' ∉ name →
    p.text.toList = dirs ++ '/' :: name → Plain dirs p

/-- A path behind a settled base. -/
theorem join_of_settled (hrelative : path.isAbsolute = false) (hbase : Settled base.text.toList)
    (hsome : base.text.toList ≠ []) :
    (base.join path).text.toList = base.text.toList ++ '/' :: path.text.toList := by
  have hends : base.text.endsWith "/" = false := by
    rw [← Bool.not_eq_true, String.endsWith_eq_endsWith_toSlice, String.Slice.endsWith_string_iff,
      String.copy_toSlice]
    rintro ⟨front, hfront⟩
    change front ++ ['/'] = _ at hfront
    rw [← hfront] at hbase hsome
    rcases hbase with hnil | hdot | hsolid
    · exact hsome hnil
    · have hlast := congrArg List.getLast? hdot
      rw [List.getLast?_concat] at hlast
      cases hlast
    · exact hsolid.getLast? List.getLast?_concat
  have hempty : base.text.isEmpty = false := by
    rw [← Bool.not_eq_true, String.isEmpty_iff]
    exact fun hnil => hsome (String.toList_eq_nil_iff.mpr hnil)
  unfold join
  rw [hrelative, hempty, hends, Bool.false_or, if_neg Bool.false_ne_true, if_neg Bool.false_ne_true]
  simp

end Path

namespace Tree

variable {t : Tree} {dir k : List String} {p base path : Path} {dirs name : List Char}

theorem Leads.parent?_of_settled (h : t.Leads dir p k) (hdirs : Path.Settled dirs)
    (hslash : '/' ∉ name) (htext : p.text.toList = dirs ++ '/' :: name) :
    p.parent? = some ⟨String.ofList dirs⟩ := by
  obtain ⟨bytes, hwalk⟩ := h.walk
  have hrelative := h.relative
  rw [← Bool.not_eq_true, Path.isAbsolute_iff] at hrelative
  rw [htext] at hwalk
  obtain ⟨hempty, hdot, -⟩ := walk_slash dirs hslash hwalk
  exact Path.parent?_of_settled hrelative hdirs hslash hempty hdot htext

/-- A path behind a settled base has a settled parent, which is longer by the directories of the
path. -/
theorem Leads.parent?_join (h : t.Leads dir (base.join path) k)
    (hrelative : path.isAbsolute = false) (hbase : Path.Settled base.text.toList)
    (hplain : path.Plain dirs) :
    ∃ base', (base.join path).parent? = some base' ∧ Path.Settled base'.text.toList ∧
      base.text.toList.length + dirs.length ≤ base'.text.toList.length := by
  by_cases hempty : base.text.toList = []
  · have hjoin : base.join path = path := by
      rw [show base = ⟨""⟩ from congrArg Path.mk (String.toList_eq_nil_iff.mp hempty),
        Path.empty_join]
    rw [hjoin] at h ⊢
    rw [hempty]
    cases hplain with
    | name hslash => exact ⟨_, h.parent?_of_no_slash hslash, .inl rfl, Nat.le_refl _⟩
    | within _ hsolid hslash htext =>
      refine ⟨_, h.parent?_of_settled (.inr (.inr hsolid)) hslash htext, ?_, ?_⟩
      · rw [String.toList_ofList]
        exact .inr (.inr hsolid)
      · simp
  · have htext := Path.join_of_settled hrelative hbase hempty
    cases hplain with
    | name hslash =>
      refine ⟨_, h.parent?_of_settled hbase hslash htext, ?_, ?_⟩
      · rwa [String.toList_ofList]
      · simp
    | within _ hsolid hslash htext' =>
      rw [htext', ← List.cons_append, ← List.append_assoc] at htext
      have hlonger := hsolid.append base.text.toList
      refine ⟨_, h.parent?_of_settled (.inr (.inr hlonger)) hslash htext, ?_, ?_⟩
      · rw [String.toList_ofList]
        exact .inr (.inr hlonger)
      · rw [String.toList_ofList, List.length_append, List.length_cons]
        omega

end Tree

end ScopedXml.File

namespace ScopedXml.Schema

variable {files : File.Tree} {p q : File.Path} {k k' k'' : List String}

/-- References between files, one after another, whose paths have directory parts of `n` characters
together. -/
inductive Way (files : File.Tree) (k : List String) : Nat → List String → Prop
  | here : Way files k 0 k
  | further {n : Nat} {k' k'' : List String} {ref : Reference} {path : File.Path}
    {dirs : List Char} :
    Way files k n k' → ref ∈ fileReferences files k' → ref.path? = some path → path.Plain dirs →
    files.Leads k'.dropLast path k'' → Way files k (n + dirs.length) k''

/-- A file has a spelling in a directory whose path is settled, and has this many characters. -/
def SpelledIn (files : File.Tree) (p : File.Path) (k k' : List String) (n : Nat) : Prop :=
  ∃ q base, Spelled files p k q k' ∧ q.parent? = some base ∧ File.Path.Settled base.text.toList ∧
    n ≤ base.text.toList.length

theorem SpelledIn.mono {n m : Nat} (h : SpelledIn files p k k' n) (hm : m ≤ n) :
    SpelledIn files p k k' m := by
  obtain ⟨q, base, hspelled, hbase, hsettled, hlength⟩ := h
  exact ⟨q, base, hspelled, hbase, hsettled, hm.trans hlength⟩

theorem Way.spelledIn {n m : Nat} (h : Way files k' n k'') (hp : files.Leads [] p k)
    (hspelled : SpelledIn files p k k' m) : SpelledIn files p k k'' (m + n) := by
  induction h with
  | here => exact hspelled
  | further _ href hpath hplain hleads ih =>
    obtain ⟨q, base, hspelled', hbase, hsettled, hlength⟩ := ih
    have hnext := hspelled'.follow href hpath hleads hbase
    obtain ⟨base', hbase', hsettled', hlength'⟩ :=
      (hnext.leads hp).parent?_join hleads.relative hsettled hplain
    exact ⟨_, base', hnext, hbase', hsettled', by omega⟩

/-- Around a cycle through another directory, spellings grow without end. -/
theorem spelledIn_of_cycle {n m : Nat} (hp : files.Leads [] p k) (hcycle : Way files k' m k')
    (hm : 0 < m) (hspelled : SpelledIn files p k k' 0) : SpelledIn files p k k' n := by
  induction n with
  | zero => exact hspelled
  | succ n ih => exact (hcycle.spelledIn hp ih).mono (by omega)

theorem length_le_utf8ByteSize (s : String) : s.toList.length ≤ s.utf8ByteSize := by
  have hlist : ∀ cs : List Char, cs.length ≤ (String.ofList cs).utf8ByteSize := by
    intro cs
    induction cs with
    | nil => exact Nat.zero_le _
    | cons c cs ih =>
      have hpos := c.utf8Size_pos
      rw [String.ofList_cons, String.utf8ByteSize_append, String.utf8ByteSize_singleton,
        List.length_cons]
      omega
  have h := hlist s.toList
  rwa [String.ofList_toList] at h

/-- **Detours.** A file that leads to a cycle through another directory cannot be compiled. -/
theorem not_compiles_of_detour {text : String} {dirs : List Char} {n m : Nat}
    (hread : readText files p p.text = .ok text) (hp : files.Leads [] p k) (hplain : p.Plain dirs)
    (hrelative : ∀ k', FileReaches files k k' → Relative files k') (hway : Way files k n k')
    (hcycle : Way files k' m k') (hm : 0 < m) (s : Schema) :
    compile files [⟨.file p, none⟩] ≠ .ok s := by
  intro hcompile
  obtain ⟨k₀, hfile⟩ := isFile_of_readText hread
  have hk : k₀ = k := hfile.leads.unique hp
  subst hk
  have hloads := loads_compileResources files [⟨p.text, text, p.parent?⟩]
  rw [← compile_eq (loadAll_file hread), hcompile] at hloads
  have hstart : SpelledIn files p k₀ k₀ 0 := by
    have hjoin := File.Path.empty_join p
    obtain ⟨base, hbase, hsettled, -⟩ :=
      (hjoin.symm ▸ hp).parent?_join hp.relative (.inl rfl) hplain
    rw [hjoin] at hbase
    exact ⟨p, base, .start, hbase, hsettled, Nat.zero_le _⟩
  have hreached := (hway.spelledIn hp hstart).mono (Nat.zero_le _)
  obtain ⟨q, base, hspelled, hbase, -, hlength⟩ :=
    spelledIn_of_cycle (n := 4096) hp hcycle hm hreached
  obtain ⟨-, r, horigin, -, hr⟩ := sound_of_spelled hfile hrelative hloads hspelled
  have hshort := hr.short
  have hlength' := (File.Path.isPrefix_of_parent? hbase).length_le
  have hbytes := length_le_utf8ByteSize q.text
  rw [horigin] at hshort
  omega

/-- Two supported files in different directories, each of which includes the other. -/
theorem not_all_cycles_compile : ¬ ∀ (files : File.Tree) (p : File.Path) (k : List String)
    (text : String), readText files p p.text = .ok text → files.Leads [] p k →
    (∀ k', FileReaches files k k' → Supported files k') →
    ∃ s, compile files [⟨.file p, none⟩] = .ok s := by
  intro hclaim
  generalize hfiles : ring [(["a.xsd"], "x/b.xsd"), (["x", "b.xsd"], "../a.xsd")] = files
  have hleads : files.Leads [] ⟨"a.xsd"⟩ ["a.xsd"] ∧ files.Leads [] ⟨"x/b.xsd"⟩ ["x", "b.xsd"] ∧
      files.Leads ["x"] ⟨"../a.xsd"⟩ ["a.xsd"] := by
    rw [← hfiles]
    refine ⟨⟨?_, ?_, _, rfl⟩, ⟨?_, ?_, _, rfl⟩, ⟨?_, ?_, _, rfl⟩⟩ <;> decide +kernel
  have hread : readText files ⟨"a.xsd"⟩ "a.xsd" =
      .ok "<schema><include schemaLocation='x/b.xsd'/></schema>" := by
    rw [← hfiles]
    decide +kernel
  have ha : RefersOnly files ["a.xsd"] ⟨"x/b.xsd"⟩ ["x", "b.xsd"] := by
    refine ⟨?_, hleads.2.1, ?_⟩ <;> rw [← hfiles] <;> decide +kernel
  have hb : RefersOnly files ["x", "b.xsd"] ⟨"../a.xsd"⟩ ["a.xsd"] := by
    refine ⟨?_, hleads.2.2, ?_⟩ <;> rw [← hfiles] <;> decide +kernel
  have hsupported : ∀ k', FileReaches files ["a.xsd"] k' → Supported files k' :=
    fun k' hreaches => ha.supported_of_reaches hb hreaches
  have hcycle : Way files ["a.xsd"] 3 ["a.xsd"] := by
    obtain ⟨ref, href, hpath⟩ := ha.exists_mem
    obtain ⟨ref', href', hpath'⟩ := hb.exists_mem
    have hx : (File.Path.mk "x/b.xsd").Plain ['x'] :=
      .within ['b', '.', 'x', 's', 'd'] ⟨[], ['x'], by simp⟩ (by decide) rfl
    have hup : (File.Path.mk "../a.xsd").Plain ['.', '.'] :=
      .within ['a', '.', 'x', 's', 'd'] ⟨[], ['.', '.'], by simp⟩ (by decide) rfl
    exact (Way.here.further href hpath hx hleads.2.1).further href' hpath' hup hleads.2.2
  obtain ⟨s, hs⟩ := hclaim files ⟨"a.xsd"⟩ ["a.xsd"] _ hread hleads.1 hsupported
  exact not_compiles_of_detour hread hleads.1 (.name (by decide))
    (fun k' hreaches => (hsupported k' hreaches).relative) .here hcycle (by decide) s hs

end ScopedXml.Schema
