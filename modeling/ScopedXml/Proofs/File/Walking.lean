import ScopedXml.File.Location
import ScopedXml.File.Tree

/-!
# Walking along paths

`join` and `parent?` only put texts together. In a tree of files they do what they stand for: the
parent of the path of a file is a path of the directory that holds the file, and a joined path leads
where its second part leads from the directory that the first one names.

* `Tree.walk`: part by part along a text.
* `Path.partsOf_append_slash`: what a slash separates is walked one after the other.
* `Tree.walk_parent`, `Tree.walk_join`: the two ways in which a path is made from others.
* `Tree.Leads.beside`: a relative path from where a file is, behind the path of that file.
-/

namespace ScopedXml.File

namespace Path

theorem partsOf_ne_nil (cs : List Char) : partsOf cs ≠ [] := by
  cases cs with
  | nil => simp [partsOf]
  | cons c cs =>
    unfold partsOf
    split
    · simp
    · split <;> simp

theorem partsOf_append_slash (cs ds : List Char) :
    partsOf (cs ++ '/' :: ds) = partsOf cs ++ partsOf ds := by
  induction cs with
  | nil => simp [partsOf]
  | cons c cs ih =>
    rw [List.cons_append, partsOf, partsOf, ih]
    split
    · rfl
    · cases hparts : partsOf cs with
      | nil => exact absurd hparts (partsOf_ne_nil cs)
      | cons part rest => rfl

theorem partsOf_of_no_slash {cs : List Char} (h : '/' ∉ cs) : partsOf cs = [cs] := by
  induction cs with
  | nil => rfl
  | cons c cs ih =>
    rw [List.mem_cons, not_or] at h
    rw [partsOf, if_neg (Ne.symm h.1), ih h.2]

theorem isAbsolute_iff {p : Path} : p.isAbsolute = true ↔ p.text.toList.head? = some '/' := by
  unfold isAbsolute
  rw [String.startsWith_string_iff]
  cases p.text.toList <;> simp [eq_comm]

end Path

namespace Tree

variable {t : Tree} {spot : Spot} {k : List String} {bytes : List UInt8}

/-- Go along a text, from slash to slash. -/
def walk (t : Tree) (spot : Spot) (cs : List Char) : Except Fault Spot :=
  ((Path.partsOf cs).map String.ofList).foldlM t.go spot

theorem walk_append_slash (cs ds : List Char) :
    t.walk spot (cs ++ '/' :: ds) = t.walk spot cs >>= (t.walk · ds) := by
  unfold walk
  rw [Path.partsOf_append_slash, List.map_append, List.foldlM_append]

theorem walk_of_no_slash {cs : List Char} (h : '/' ∉ cs) :
    t.walk spot cs = t.go spot (String.ofList cs) := by
  unfold walk
  rw [Path.partsOf_of_no_slash h]
  exact bind_pure _

/-! ## Single steps -/

/-- What leads to a directory over a part that counts for nothing stood there. -/
theorem eq_of_go_idle {part : String} (hidle : part = "" ∨ part = ".") {spot' : Spot}
    (h : t.go spot part = .ok spot') : spot = spot' := by
  unfold go at h
  rcases hidle with rfl | rfl
  all_goals
    split at h
    · cases h
    · cases h
      rfl

/-- A file is entered from its directory, by its name. -/
theorem go_file {part : String} (h : t.go spot part = .ok (.inside (.file bytes) k)) :
    ∃ k', spot = .inside .directory k' ∧ k = k' ++ [part] ∧ part ≠ "" ∧ part ≠ "." ∧
      t.place? k = some (.file bytes) ∧ part.utf8ByteSize ≤ 255 := by
  unfold go at h
  split at h
  · cases h
  · next hnofile =>
    split at h
    · cases h
      exact absurd rfl (hnofile bytes k)
    · next hidle =>
      split at h
      · cases spot with
        | outside => cases h
        | inside place parts =>
          simp only [Spot.up] at h
          split at h <;> cases h
      · split at h
        · cases h
        · next hshort =>
          cases spot with
          | outside => cases h
          | inside place parts =>
            cases place with
            | file b => exact absurd rfl (hnofile b parts)
            | directory =>
              simp only [enter?] at h
              cases hplace : t.place? (parts ++ [part]) with
              | none =>
                rw [hplace] at h
                cases h
              | some place =>
                rw [hplace] at h
                cases h
                rw [Bool.or_eq_true, not_or] at hidle
                refine ⟨parts, rfl, rfl, fun hempty => hidle.1 ?_, fun hdot => hidle.2 ?_, hplace,
                  Nat.le_of_not_lt hshort⟩
                · rw [hempty]
                  rfl
                · rw [hdot]
                  rfl

/-! ## Parents -/

/-- What is in front of a last slash and an idle part leads to the same directory. -/
theorem walk_of_idle {cs part : List Char} (hslash : '/' ∉ part)
    (hidle : String.ofList part = "" ∨ String.ofList part = ".") {spot' : Spot}
    (h : t.walk spot (cs ++ '/' :: part) = .ok spot') : t.walk spot cs = .ok spot' := by
  rw [walk_append_slash] at h
  cases hfirst : t.walk spot cs with
  | error f =>
    rw [hfirst] at h
    cases h
  | ok between =>
    rw [hfirst] at h
    change t.walk between part = _ at h
    rw [walk_of_no_slash hslash] at h
    rw [eq_of_go_idle hidle h]

/-- Dropping what counts for nothing from the end of a path to a directory does not change where it
leads. A text `fixed` in front of it is left alone; what stands behind that begins with a slash. -/
theorem walk_dropIdle {fixed rev : List Char}
    (hfixed : fixed = [] ∨ ∀ c, rev.getLast? = some c → c = '/')
    (h : t.walk spot (fixed ++ rev.reverse) = .ok (.inside .directory k)) :
    t.walk spot (fixed ++ (Path.dropIdle rev).reverse) = .ok (.inside .directory k) := by
  fun_induction Path.dropIdle rev with
  | case1 => exact h
  | case2 =>
    rcases hfixed with rfl | hlast
    · have hgo : t.go spot "." = .ok (.inside .directory k) := by
        rwa [List.nil_append, List.reverse_singleton, walk_of_no_slash (by decide)] at h
      rw [eq_of_go_idle (.inr rfl) hgo]
      rfl
    · exact absurd (hlast '.' rfl) (by decide)
  | case3 rest ih =>
    have hrest : t.walk spot (fixed ++ rest.reverse) = .ok (.inside .directory k) := by
      rw [List.reverse_cons, ← List.append_assoc] at h
      exact walk_of_idle (by simp) (.inl rfl) h
    refine ih (hfixed.imp_right fun hlast c hc => hlast c ?_) hrest
    rw [List.getLast?_cons, hc]
    rfl
  | case4 rest ih =>
    have hrest : t.walk spot (fixed ++ rest.reverse) = .ok (.inside .directory k) := by
      rw [List.reverse_cons, List.reverse_cons, List.append_assoc, ← List.append_assoc] at h
      exact walk_of_idle (by decide) (.inr rfl) h
    refine ih (hfixed.imp_right fun hlast c hc => hlast c ?_) hrest
    rw [List.getLast?_cons, List.getLast?_cons, hc]
    rfl
  | case5 rev _ _ _ _ => exact h

end Tree

namespace Path

/-- A text is the name behind its last slash, with what is in front of the slash. -/
theorem exists_name (cs : List Char) :
    ∃ name, '/' ∉ name ∧ (cs = name ∨ ∃ before, cs = before ++ '/' :: name) := by
  induction cs with
  | nil => exact ⟨[], by simp, .inl rfl⟩
  | cons c cs ih =>
    obtain ⟨name, hname, rfl | ⟨before, rfl⟩⟩ := ih
    · by_cases hc : c = '/'
      · subst hc
        exact ⟨cs, hname, .inr ⟨[], rfl⟩⟩
      · exact ⟨c :: cs, by simp [hname, Ne.symm hc], .inl rfl⟩
    · exact ⟨name, hname, .inr ⟨c :: before, rfl⟩⟩

/-- A name that counts is not dropped. -/
theorem dropIdle_of_name {name : List Char} (hslash : '/' ∉ name) (hempty : name ≠ [])
    (hdot : name ≠ ['.']) (rest : List Char) :
    dropIdle (name.reverse ++ rest) = name.reverse ++ rest := by
  have hmem : ∀ c ∈ name.reverse, c ≠ '/' := fun c hc heq => hslash (heq ▸ List.mem_reverse.mp hc)
  have hdot' : name.reverse ≠ ['.'] := fun h => hdot (List.reverse_eq_iff.mp h)
  match hrev : name.reverse with
  | [] => exact absurd (List.reverse_eq_nil_iff.mp hrev) hempty
  | [c] =>
    rw [hrev] at hmem hdot'
    have hc : c ≠ '/' := hmem c (by simp)
    have hc' : c ≠ '.' := fun h => hdot' (by rw [h])
    unfold dropIdle
    split <;> simp_all
  | c :: c' :: more =>
    rw [hrev] at hmem
    have hc : c ≠ '/' := hmem c (by simp)
    have hc' : c' ≠ '/' := hmem c' (by simp)
    unfold dropIdle
    split <;> simp_all

theorem dropWhile_name {name : List Char} (hslash : '/' ∉ name) (rest : List Char) :
    (name.reverse ++ rest).dropWhile (· != '/') = rest.dropWhile (· != '/') := by
  refine List.dropWhile_append_of_pos fun c hc => bne_iff_ne.mpr fun heq => hslash ?_
  rw [← heq]
  exact List.mem_reverse.mp hc

variable {p : Path} {name : List Char}

/-- The parent of a path whose last part has a slash in front of it. -/
theorem parent?_of_slash (before : List Char) (hslash : '/' ∉ name) (hempty : name ≠ [])
    (hdot : name ≠ ['.'])
    (htext : p.text.toList.drop (fixedLength p.text.toList) = before ++ '/' :: name) :
    p.parent? = some ⟨String.ofList (p.text.toList.take (fixedLength p.text.toList) ++
      (dropIdle before.reverse).reverse)⟩ := by
  have hrev : (before ++ '/' :: name).reverse = name.reverse ++ '/' :: before.reverse := by simp
  unfold parent?
  dsimp only
  rw [htext, hrev, dropIdle_of_name hslash hempty hdot]
  split
  · next hnil => exact absurd (List.append_eq_nil_iff.mp hnil).2 (by simp)
  · rw [dropWhile_name hslash]
    rfl

/-- The parent of a path of one part. -/
theorem parent?_of_name (hslash : '/' ∉ name) (hempty : name ≠ []) (hdot : name ≠ ['.'])
    (htext : p.text.toList = name) (hfixed : fixedLength p.text.toList = 0) :
    p.parent? = some ⟨""⟩ := by
  have hdrop := dropIdle_of_name hslash hempty hdot []
  have hwhile := dropWhile_name hslash []
  rw [List.append_nil] at hdrop hwhile
  unfold parent?
  dsimp only
  rw [hfixed, List.drop_zero, htext, hdrop]
  split
  · next hnil => exact absurd (List.reverse_eq_nil_iff.mp hnil) hempty
  · rw [hwhile]
    rfl

theorem fixedLength_of_relative {cs : List Char} (hrelative : cs.head? ≠ some '/') :
    fixedLength cs = 0 ∨ cs = ['.'] ∨ ∃ ds, cs = '.' :: '/' :: ds := by
  unfold fixedLength
  split
  · exact absurd rfl hrelative
  · exact .inr (.inl rfl)
  · exact .inr (.inr ⟨_, rfl⟩)
  · exact .inl rfl

end Path

namespace Tree

variable {t : Tree} {spot : Spot} {k : List String} {bytes : List UInt8}

/-- A part that leads to a file is a name in the directory of the file. -/
theorem walk_name {name : List Char} (hslash : '/' ∉ name)
    (h : t.walk spot name = .ok (.inside (.file bytes) k)) :
    name ≠ [] ∧ name ≠ ['.'] ∧ spot = .inside .directory k.dropLast := by
  rw [walk_of_no_slash hslash] at h
  obtain ⟨k', hspot, hk, hempty, hdot, -⟩ := go_file h
  rw [hk, List.dropLast_concat]
  exact ⟨fun hnil => hempty (congrArg String.ofList hnil),
    fun hone => hdot (congrArg String.ofList hone), hspot⟩

theorem walk_slash (before : List Char) {name : List Char} (hslash : '/' ∉ name)
    (h : t.walk spot (before ++ '/' :: name) = .ok (.inside (.file bytes) k)) :
    name ≠ [] ∧ name ≠ ['.'] ∧ t.walk spot before = .ok (.inside .directory k.dropLast) := by
  rw [walk_append_slash] at h
  cases hbefore : t.walk spot before with
  | error f =>
    rw [hbefore] at h
    cases h
  | ok between =>
    rw [hbefore] at h
    obtain ⟨hempty, hdot, hbetween⟩ := walk_name hslash h
    exact ⟨hempty, hdot, by rw [hbetween]⟩

theorem place_of_walk {cs : List Char} (h : t.walk spot cs = .ok (.inside (.file bytes) k)) :
    t.place? k = some (.file bytes) := by
  have hname : ∀ {spot name}, '/' ∉ name → t.walk spot name = .ok (.inside (.file bytes) k) →
      t.place? k = some (.file bytes) := by
    intro spot name hslash hwalk
    rw [walk_of_no_slash hslash] at hwalk
    obtain ⟨-, -, -, -, -, hplace, -⟩ := go_file hwalk
    exact hplace
  obtain ⟨name, hslash, rfl | ⟨before, rfl⟩⟩ := Path.exists_name cs
  · exact hname hslash h
  · rw [walk_append_slash] at h
    cases hbefore : t.walk spot before with
    | error f =>
      rw [hbefore] at h
      cases h
    | ok between =>
      rw [hbefore] at h
      exact hname hslash h

/-- **Parents.** A relative path to a file has a parent, which is a path to the directory of the
file. -/
theorem walk_parent {p : Path} {dir : List String} (hrelative : p.text.toList.head? ≠ some '/')
    (h : t.walk (.inside .directory dir) p.text.toList = .ok (.inside (.file bytes) k)) :
    ∃ base, p.parent? = some base ∧
      t.walk (.inside .directory dir) base.text.toList = .ok (.inside .directory k.dropLast) := by
  rcases Path.fixedLength_of_relative hrelative with hfixed | htext | ⟨ds, htext⟩
  · obtain ⟨name, hslash, htext | ⟨before, htext⟩⟩ := Path.exists_name p.text.toList
    · rw [htext] at h
      obtain ⟨hempty, hdot, hspot⟩ := walk_name hslash h
      refine ⟨_, Path.parent?_of_name hslash hempty hdot htext hfixed, ?_⟩
      rw [hspot]
      rfl
    · rw [htext] at h
      obtain ⟨hempty, hdot, hbefore⟩ := walk_slash before hslash h
      refine ⟨_, Path.parent?_of_slash before hslash hempty hdot (by rw [hfixed]; exact htext), ?_⟩
      rw [hfixed, String.toList_ofList]
      exact walk_dropIdle (.inl rfl)
        (by rwa [List.take_zero, List.nil_append, List.reverse_reverse])
  · rw [htext] at h
    cases h
  · -- The leading `.` is kept; what is behind it begins with a slash.
    have hlength : Path.fixedLength p.text.toList = 1 := by rw [htext]; rfl
    obtain ⟨name, hslash, rfl | ⟨before, rfl⟩⟩ := Path.exists_name ds
    · rw [htext] at h
      obtain ⟨hempty, hdot, hbefore⟩ := walk_slash ['.'] hslash h
      refine ⟨_, Path.parent?_of_slash [] hslash hempty hdot ?_, ?_⟩
      · rw [hlength, htext]
        rfl
      · rw [hlength, htext, String.toList_ofList]
        exact hbefore
    · rw [htext] at h
      obtain ⟨hempty, hdot, hbefore⟩ := walk_slash ('.' :: '/' :: before) hslash h
      refine ⟨_, Path.parent?_of_slash ('/' :: before) hslash hempty hdot ?_, ?_⟩
      · rw [hlength, htext]
        rfl
      · rw [hlength, htext, String.toList_ofList]
        refine walk_dropIdle (.inr fun c hc => ?_) (by rwa [List.reverse_reverse])
        rw [List.getLast?_reverse] at hc
        exact (Option.some.inj hc).symm

/-! ## Joined paths -/

/-- **Joined paths.** From a path to a directory, a relative path leads where it leads within that
directory. -/
theorem walk_join {base path : Path} {dir : List String} (hrelative : path.isAbsolute = false)
    (h : t.walk (.inside .directory dir) base.text.toList = .ok (.inside .directory k)) :
    t.walk (.inside .directory dir) (base.join path).text.toList =
      t.walk (.inside .directory k) path.text.toList := by
  have hslash : ∀ front, t.walk (.inside .directory dir) front = .ok (.inside .directory k) →
      t.walk (.inside .directory dir) (front ++ '/' :: path.text.toList) =
        t.walk (.inside .directory k) path.text.toList := by
    intro front hfront
    rw [walk_append_slash, hfront]
    rfl
  unfold Path.join
  rw [hrelative, Bool.false_or]
  split
  · next hempty =>
    have hnil : base.text.toList = [] := by
      rw [String.isEmpty_iff.mp hempty]
      rfl
    rw [hnil] at h
    cases h
    rfl
  · split
    · next hends =>
      rw [String.endsWith_eq_endsWith_toSlice, String.Slice.endsWith_string_iff,
        String.copy_toSlice] at hends
      obtain ⟨front, hfront⟩ := hends
      change front ++ ['/'] = _ at hfront
      rw [← hfront] at h
      rw [String.toList_append, ← hfront, List.append_assoc]
      exact hslash front (walk_of_idle (by simp) (.inl rfl) h)
    · rw [String.toList_append, String.toList_append, List.append_assoc]
      exact hslash _ h

end Tree

namespace Path

variable {p base : Path}

theorem dropIdle_suffix (rev : List Char) : dropIdle rev <:+ rev := by
  fun_induction dropIdle rev with
  | case1 => exact List.suffix_refl _
  | case2 => exact List.nil_suffix
  | case3 rest ih => exact ih.trans (List.suffix_cons _ _)
  | case4 rest ih => exact ih.trans ((List.suffix_cons _ _).trans (List.suffix_cons _ _))
  | case5 rev _ _ _ _ => exact List.suffix_refl _

/-- A parent is a beginning of the path. -/
theorem isPrefix_of_parent? (h : p.parent? = some base) : base.text.toList <+: p.text.toList := by
  unfold parent? at h
  dsimp only at h
  split at h
  · split at h
    · cases h
      exact List.nil_prefix
    · cases h
  · cases h
    rw [String.toList_ofList]
    have hbody := dropIdle_suffix (p.text.toList.drop (fixedLength p.text.toList)).reverse
    have hshorter := (dropIdle_suffix _).trans
      ((List.drop_suffix 1 _).trans ((List.dropWhile_suffix (· != '/')).trans hbody))
    have hbegins := (List.prefix_append_right_inj
      (p.text.toList.take (fixedLength p.text.toList))).mpr (List.reverse_prefix.mpr hshorter)
    rwa [List.reverse_reverse, List.take_append_drop] at hbegins

theorem isAbsolute_eq_false_of_prefix (hbegins : base.text.toList <+: p.text.toList)
    (hrelative : p.isAbsolute = false) : base.isAbsolute = false := by
  rw [← Bool.not_eq_true, isAbsolute_iff] at hrelative ⊢
  obtain ⟨rest, hrest⟩ := hbegins
  intro hhead
  rw [← hrest, List.head?_append, hhead] at hrelative
  exact hrelative rfl

theorem empty_join (path : Path) : (Path.mk "").join path = path := by
  unfold join
  exact if_pos (Bool.or_eq_true_iff.mpr (.inr rfl))

/-- What a joined path is made of. -/
theorem join_text {path : Path} (base : Path) (hrelative : path.isAbsolute = false) :
    (base.text.toList = [] ∧ base.join path = path) ∨
      base.text.toList ≠ [] ∧ ∃ between, (between = [] ∨ between = ['/']) ∧
        (base.join path).text.toList = base.text.toList ++ between ++ path.text.toList := by
  unfold join
  rw [hrelative, Bool.false_or]
  split
  · next hempty => exact .inl ⟨by rw [String.isEmpty_iff.mp hempty]; rfl, rfl⟩
  · next hsome =>
    refine .inr ⟨fun hnil => hsome (String.isEmpty_iff.mpr (String.toList_eq_nil_iff.mp hnil)), ?_⟩
    split
    · exact ⟨[], .inl rfl, by simp⟩
    · exact ⟨['/'], .inr rfl, by simp⟩

theorem join_relative {path : Path} (hbase : base.isAbsolute = false)
    (hrelative : path.isAbsolute = false) : (base.join path).isAbsolute = false := by
  rcases join_text base hrelative with ⟨-, hjoin⟩ | ⟨hsome, between, -, htext⟩
  · rwa [hjoin]
  · rw [← Bool.not_eq_true, isAbsolute_iff] at hbase ⊢
    obtain ⟨c, cs, hcons⟩ := List.exists_cons_of_ne_nil hsome
    rw [hcons] at hbase
    rw [htext, hcons]
    exact hbase

theorem mem_join {path : Path} (hrelative : path.isAbsolute = false) {c : Char}
    (hc : c ∈ (base.join path).text.toList) (hslash : c ≠ '/') :
    c ∈ base.text.toList ∨ c ∈ path.text.toList := by
  rcases join_text base hrelative with ⟨-, hjoin⟩ | ⟨-, between, hbetween, htext⟩
  · rw [hjoin] at hc
    exact .inr hc
  · rw [htext, List.mem_append, List.mem_append] at hc
    rcases hc with (hc | hc) | hc
    · exact .inl hc
    · rcases hbetween with rfl | rfl
      · cases hc
      · exact absurd (List.mem_singleton.mp hc) hslash
    · exact .inr hc

end Path

namespace Tree

variable {t : Tree} {k : List String} {bytes : List UInt8}

/-- No way leads back from outside the working directory. -/
theorem eq_outside_of_foldlM {parts : List String} {spot : Spot}
    (h : parts.foldlM t.go .outside = .ok spot) : spot = .outside := by
  induction parts with
  | nil =>
    cases h
    rfl
  | cons part parts ih =>
    rw [List.foldlM_cons] at h
    have hgo : ∀ spot', t.go .outside part = .ok spot' → spot' = .outside := by
      intro spot' hspot
      change (if part.isEmpty || part == "." then Except.ok Spot.outside
        else if part == ".." then .ok .outside
        else if 255 < part.utf8ByteSize then .error Fault.nameTooLong
        else .error .missing) = _ at hspot
      split at hspot
      · exact (Except.ok.inj hspot).symm
      · split at hspot
        · exact (Except.ok.inj hspot).symm
        · split at hspot <;> cases hspot
    cases hpart : t.go .outside part with
    | error f =>
      rw [hpart] at h
      cases h
    | ok spot' =>
      rw [hpart, hgo spot' hpart] at h
      exact ih h

/-- What is known of a path at which a file is found. -/
theorem walk_of_find {p : Path} (h : t.find p = .ok (.file bytes)) :
    '\x00' ∉ p.text.toList ∧ p.text.utf8ByteSize < 4096 ∧ p.isAbsolute = false ∧
      ∃ k, t.walk (.inside .directory []) p.text.toList = .ok (.inside (.file bytes) k) := by
  unfold find at h
  split at h
  · cases h
  · next hzero =>
    split at h
    · cases h
    · split at h
      · cases h
      · next hshort =>
        dsimp only at h
        refine ⟨fun hmem => hzero (List.contains_iff_mem.mpr hmem), Nat.lt_of_not_le hshort, ?_⟩
        split at h
        · next place k hwalk =>
          cases h
          cases habsolute : p.isAbsolute with
          | true =>
            rw [habsolute, if_pos rfl] at hwalk
            cases eq_outside_of_foldlM hwalk
          | false =>
            rw [habsolute] at hwalk
            exact ⟨rfl, k, hwalk⟩
        · cases h
        · cases h

/-- A path that leads to a file is found unless it is too long. -/
theorem find_of_walk {p : Path} (hzero : '\x00' ∉ p.text.toList) (hrelative : p.isAbsolute = false)
    (hwalk : t.walk (.inside .directory []) p.text.toList = .ok (.inside (.file bytes) k)) :
    t.find p = if 4096 ≤ p.text.utf8ByteSize then .error .nameTooLong else .ok (.file bytes) := by
  have hsome : p.text.isEmpty = false := by
    rw [← Bool.not_eq_true, String.isEmpty_iff]
    intro hempty
    rw [hempty] at hwalk
    cases hwalk
  unfold find
  rw [if_neg (mt List.contains_iff_mem.mp hzero), hsome, if_neg Bool.false_ne_true]
  split
  · rfl
  · dsimp only
    have hparts : p.parts.foldlM t.go (.inside .directory []) = .ok (.inside (.file bytes) k) :=
      hwalk
    rw [hrelative, if_neg Bool.false_ne_true, hparts]

/-- A relative path leads from a directory to a file. -/
structure Leads (t : Tree) (dir : List String) (path : Path) (k : List String) : Prop where
  relative : path.isAbsolute = false
  plain : '\x00' ∉ path.text.toList
  walk : ∃ bytes, t.walk (.inside .directory dir) path.text.toList = .ok (.inside (.file bytes) k)

variable {dir k' : List String} {p : Path}

theorem Leads.unique (h : t.Leads dir p k) (h' : t.Leads dir p k') : k = k' := by
  obtain ⟨bytes, hwalk⟩ := h.walk
  obtain ⟨bytes', hwalk'⟩ := h'.walk
  rw [hwalk] at hwalk'
  cases hwalk'
  rfl

/-- A path of one part leads to a file of that name beside. -/
theorem Leads.of_no_slash (h : t.Leads dir p k) (hslash : '/' ∉ p.text.toList) :
    k = dir ++ [p.text] ∧ p.text.utf8ByteSize ≤ 255 := by
  obtain ⟨bytes, hwalk⟩ := h.walk
  rw [walk_of_no_slash hslash, String.ofList_toList] at hwalk
  obtain ⟨k', hspot, hk, -, -, -, hshort⟩ := go_file hwalk
  cases hspot
  exact ⟨hk, hshort⟩

/-- The parent of a bare name is empty. -/
theorem Leads.parent?_of_no_slash (h : t.Leads dir p k) (hslash : '/' ∉ p.text.toList) :
    p.parent? = some ⟨""⟩ := by
  obtain ⟨bytes, hwalk⟩ := h.walk
  obtain ⟨hempty, hdot, -⟩ := walk_name hslash hwalk
  have hrelative := h.relative
  rw [← Bool.not_eq_true, Path.isAbsolute_iff] at hrelative
  rcases Path.fixedLength_of_relative hrelative with hfixed | htext | ⟨ds, htext⟩
  · exact Path.parent?_of_name hslash hempty hdot rfl hfixed
  · exact absurd htext hdot
  · rw [htext] at hslash
    exact absurd (List.mem_cons_of_mem _ List.mem_cons_self) hslash

/-- What a relative path leads to from the directory of a file is what it leads to behind the parent
of a path to that file. -/
theorem Leads.beside (h : t.Leads dir p k) :
    ∃ base, p.parent? = some base ∧ ∀ path : Path, path.isAbsolute = false →
      '\x00' ∉ path.text.toList → ∀ k',
        t.Leads k.dropLast path k' ↔ t.Leads dir (base.join path) k' := by
  obtain ⟨bytes, hwalk⟩ := h.walk
  have hrelative := h.relative
  rw [← Bool.not_eq_true, Path.isAbsolute_iff] at hrelative
  obtain ⟨base, hbase, hdirectory⟩ := walk_parent hrelative hwalk
  have hbegins := Path.isPrefix_of_parent? hbase
  have hbaseRelative := Path.isAbsolute_eq_false_of_prefix hbegins h.relative
  refine ⟨base, hbase, fun path hpath hplain k' => ?_⟩
  have hjoin := walk_join hpath hdirectory
  constructor
  · rintro ⟨-, -, bytes', hwalk'⟩
    refine ⟨Path.join_relative hbaseRelative hpath, fun hzero => ?_, bytes', by rwa [hjoin]⟩
    rcases Path.mem_join hpath hzero (by decide) with hmem | hmem
    · exact h.plain (hbegins.subset hmem)
    · exact hplain hmem
  · rintro ⟨-, -, bytes', hwalk'⟩
    exact ⟨hpath, hplain, bytes', by rwa [← hjoin]⟩

end Tree

end ScopedXml.File
