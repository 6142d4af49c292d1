import Mathlib.Data.List.Perm.Basic
import ScopedXml.Proofs.Schema.Loading

/-!
# Walking through documents

A walk goes through documents in the order in which they are referred to. A document under a new
name is read: the walk goes on through its own references, and the document counts behind those that
were read there. A name that was met before is passed over, whatever is there.

* `Resource.targets`: the documents that a document refers to.
* `Walks`: a walk, with the documents that it reads.
* `Ordered`: the place of each document on a walk.
* `exists_walks`, `Walks.eq`: walks end, cycles or not, and read the same documents every time.
-/

namespace ScopedXml.Schema

open Document (Element)

/-- The documents that parts of a document with this base directory refer to, in order. -/
def targetsIn (files : File.Tree) (base : Option File.Path) (es : List Element) : List Resource :=
  es.filterMap fun e => (reference? e).bind fun ref => (ref.target files base).toOption

/-- The documents that a document refers to, in order. -/
def Resource.targets (files : File.Tree) (r : Resource) : List Resource :=
  match r.root with
  | .ok root => targetsIn files r.base root.children
  | .error _ => []

/-- A walk through documents, where `seen` are the names that were met before, and the documents
that it reads. Each of them stands behind those that its own references are the first to lead to. -/
inductive Walks (files : File.Tree) : List String → List Resource → List Resource → Prop
  | nil {seen : List String} : Walks files seen [] []
  | known {seen : List String} {r : Resource} {rest qs : List Resource} :
    r.origin ∈ seen → Walks files seen rest qs → Walks files seen (r :: rest) qs
  | read {seen : List String} {r : Resource} {rest inner later : List Resource} :
    r.origin ∉ seen → Walks files (r.origin :: seen) (r.targets files) inner →
    Walks files (inner.map (·.origin) ++ r.origin :: seen) rest later →
    Walks files seen (r :: rest) (inner ++ r :: later)

variable {files : File.Tree} {seen seen' : List String} {rs rs' qs qs' : List Resource}

theorem targetsIn_cons_of_none {base : Option File.Path} {e : Element} {es : List Element}
    (href : reference? e = none) : targetsIn files base (e :: es) = targetsIn files base es := by
  simp [targetsIn, href]

theorem targetsIn_cons_of_some {base : Option File.Path} {e : Element} {es : List Element}
    {ref : Reference} {next : Resource} (href : reference? e = some ref)
    (htarget : ref.target files base = .ok next) :
    targetsIn files base (e :: es) = next :: targetsIn files base es := by
  simp [targetsIn, href, htarget, Except.toOption]

theorem Resource.targets_of_root {r : Resource} {root : Element} (hroot : r.root = .ok root) :
    r.targets files = targetsIn files r.base root.children := by
  rw [targets, hroot]

theorem exists_of_mem_targets {r next : Resource} (h : next ∈ r.targets files) :
    ∃ root, r.root = .ok root ∧
      ∃ e ∈ root.children, ∃ ref, reference? e = some ref ∧ ref.target files r.base = .ok next := by
  unfold Resource.targets at h
  split at h
  · next root hroot =>
    obtain ⟨e, he, hnext⟩ := List.mem_filterMap.mp h
    obtain ⟨ref, href, htarget⟩ := Option.bind_eq_some_iff.mp hnext
    refine ⟨root, hroot, e, he, ref, href, ?_⟩
    cases hanswer : ref.target files r.base with
    | error f =>
      rw [hanswer] at htarget
      cases htarget
    | ok found =>
      rw [hanswer] at htarget
      cases htarget
      rfl
  · cases h

/-! ## One walk -/

namespace Walks

/-- A walk reads the same documents every time. -/
theorem eq (h : Walks files seen rs qs) (h' : Walks files seen rs qs') : qs' = qs := by
  induction h generalizing qs' with
  | nil =>
    cases h'
    rfl
  | known hknown _ ih =>
    cases h' with
    | known _ h' => exact ih h'
    | read hnew _ _ => exact absurd hknown hnew
  | read hnew _ _ ihinner ihlater =>
    cases h' with
    | known hknown _ => exact absurd hknown hnew
    | read _ hinner hlater =>
      obtain rfl := ihinner hinner
      rw [ihlater hlater]

/-- It does not matter in which order names were met. -/
theorem congr (h : Walks files seen rs qs) (hseen : ∀ n, n ∈ seen ↔ n ∈ seen') :
    Walks files seen' rs qs := by
  induction h generalizing seen' with
  | nil => exact .nil
  | known hknown _ ih => exact .known ((hseen _).mp hknown) (ih hseen)
  | read hnew _ _ ihinner ihlater =>
    refine .read (mt (hseen _).mpr hnew) (ihinner fun n => ?_) (ihlater fun n => ?_)
    · simp [hseen n]
    · simp [hseen n]

theorem append (h : Walks files seen rs qs)
    (h' : Walks files (qs.map (·.origin) ++ seen) rs' qs') :
    Walks files seen (rs ++ rs') (qs ++ qs') := by
  induction h with
  | nil => exact h'
  | known hknown _ ih => exact .known hknown (ih h')
  | @read seen r rest inner later hnew hinner _ _ ih =>
    rw [List.append_assoc, List.cons_append]
    refine .read hnew hinner (ih (h'.congr fun n => ?_))
    simp only [List.map_append, List.map_cons, List.mem_append, List.mem_cons]
    tauto

theorem split (rs : List Resource) (h : Walks files seen (rs ++ rs') qs) :
    ∃ first later, qs = first ++ later ∧ Walks files seen rs first ∧
      Walks files (first.map (·.origin) ++ seen) rs' later := by
  induction rs generalizing seen qs with
  | nil => exact ⟨[], qs, rfl, .nil, h⟩
  | cons r rs ih =>
    cases h with
    | known hknown h =>
      obtain ⟨first, later, rfl, hfirst, hlater⟩ := ih h
      exact ⟨first, later, rfl, .known hknown hfirst, hlater⟩
    | read hnew hinner h =>
      obtain ⟨first, later, rfl, hfirst, hlater⟩ := ih h
      refine ⟨_, later, by rw [List.append_assoc, List.cons_append], .read hnew hinner hfirst,
        hlater.congr fun n => ?_⟩
      simp only [List.map_append, List.map_cons, List.mem_append, List.mem_cons]
      tauto

/-- A document of a new name is read, its own references first. -/
theorem of_new {r : Resource} (h : Walks files seen [r] qs) (hnew : r.origin ∉ seen) :
    ∃ inner, qs = inner ++ [r] ∧ Walks files (r.origin :: seen) (r.targets files) inner := by
  cases h with
  | known hknown _ => exact absurd hknown hnew
  | read _ hinner hlater =>
    cases hlater
    exact ⟨_, rfl, hinner⟩

/-- No name is read twice, and none that was met before. -/
theorem nodup (h : Walks files seen rs qs) (hseen : seen.Nodup) :
    (qs.map (·.origin) ++ seen).Nodup := by
  induction h with
  | nil => exact hseen
  | known _ _ ih => exact ih hseen
  | @read seen r rest inner later hnew _ _ ihinner ihlater =>
    have hall := ihlater (ihinner (List.nodup_cons.mpr ⟨hnew, hseen⟩))
    rw [List.map_append, List.map_cons, List.append_assoc, List.cons_append]
    refine ((List.perm_append_comm_assoc _ _ _).trans (.append_left _ ?_)).nodup_iff.mp hall
    exact List.perm_middle

/-- What holds of the names in front of a walk, and is handed on by references, holds of all names
that are read. -/
theorem forall_origin (h : Walks files seen rs qs) {P : String → Prop}
    (hrs : ∀ r ∈ rs, P r.origin)
    (htargets : ∀ q ∈ qs, P q.origin → ∀ next ∈ q.targets files, P next.origin) :
    ∀ q ∈ qs, P q.origin := by
  induction h with
  | nil => simp
  | known _ _ ih => exact ih (fun r hr => hrs r (List.mem_cons_of_mem _ hr)) htargets
  | @read seen r rest inner later hnew _ _ ihinner ihlater =>
    obtain ⟨hr, hrest⟩ := List.forall_mem_cons.mp hrs
    obtain ⟨hinner, hmore⟩ := List.forall_mem_append.mp htargets
    obtain ⟨hown, hlater⟩ := List.forall_mem_cons.mp hmore
    exact List.forall_mem_append.mpr
      ⟨ihinner (hown hr) hinner, List.forall_mem_cons.mpr ⟨hr, ihlater hrest hlater⟩⟩

end Walks

/-! ## The order of a walk -/

/-- A document is met while those in `pending` are being read, the innermost first: each of them
refers to what stands before it, and the outermost is a source. -/
def MetWithin (files : File.Tree) (sources : List Resource) : Resource → List Resource → Prop
  | r, [] => r ∈ sources
  | r, q :: pending => r ∈ q.targets files ∧ MetWithin files sources q pending

/-- The place of `r` on a walk that takes place while those in `pending` are being read. When `r`
was met, the documents in `before` had been read, and those in `nearer` were being read as well;
these were all names that had been met. What is read between `before` and `r` are the documents that
the references of `r` are the first to lead to. -/
def InPlace (files : File.Tree) (sources pending earlier : List Resource) (r : Resource)
    (later : List Resource) : Prop :=
  ∃ before inner nearer, earlier = before ++ inner ∧ nearer.Sublist later ∧
    MetWithin files sources r (nearer ++ pending) ∧
    r.origin ∉ (before ++ (nearer ++ pending)).map (·.origin) ∧
    Walks files (r.origin :: (before ++ (nearer ++ pending)).map (·.origin)) (r.targets files) inner

/-- Each document is in its place. -/
def Ordered (files : File.Tree) (sources qs : List Resource) : Prop :=
  ∀ earlier r later, qs = earlier ++ r :: later → InPlace files sources [] earlier r later

section Order

variable {sources pending before earlier inner later : List Resource} {r q : Resource}

/-- The document that is met. -/
theorem inPlace_of_walks (hmet : MetWithin files sources r pending) (hnew : r.origin ∉ seen)
    (hinner : Walks files (r.origin :: seen) (r.targets files) inner)
    (hseen : ∀ n, n ∈ seen ↔ n ∈ (before ++ pending).map (·.origin)) (later : List Resource) :
    InPlace files sources pending (before ++ inner) r later := by
  refine ⟨before, inner, [], rfl, List.nil_sublist _, hmet, mt (hseen _).mpr hnew,
    hinner.congr fun n => ?_⟩
  rw [List.mem_cons, List.mem_cons, hseen, List.nil_append]

/-- A document within one that is still being read. -/
theorem InPlace.outward (h : InPlace files sources (q :: pending) earlier r later)
    (behind : List Resource) :
    InPlace files sources pending earlier r (later ++ q :: behind) := by
  obtain ⟨before, inner, nearer, hsame, hsublist, hplace⟩ := h
  rw [List.append_cons nearer q pending] at hplace
  have hq : [q].Sublist (q :: behind) := List.singleton_sublist.mpr List.mem_cons_self
  exact ⟨before, inner, nearer ++ [q], hsame, hsublist.append hq, hplace⟩

/-- All documents of a walk are in their places behind those in `front`. -/
theorem Walks.inPlace (h : Walks files seen rs qs) (front : List Resource)
    (hseen : ∀ n, n ∈ seen ↔ n ∈ (front ++ pending).map (·.origin))
    (hmet : ∀ r ∈ rs, MetWithin files sources r pending) (hsplit : qs = earlier ++ r :: later) :
    InPlace files sources pending (front ++ earlier) r later := by
  induction h generalizing front pending earlier r later with
  | nil => simp at hsplit
  | known _ _ ih => exact ih front hseen (fun r hr => hmet r (List.mem_cons_of_mem _ hr)) hsplit
  | @read seen first rest inner behind hnew hinner _ ihinner ihlater =>
    obtain ⟨hfirst, hrest⟩ := List.forall_mem_cons.mp hmet
    -- The document is among those within `first`, or it is `first`, or it comes later.
    rcases List.append_eq_append_iff.mp hsplit with ⟨inside, rfl, htail⟩ | ⟨inside, rfl, htail⟩
    · cases inside with
      | nil =>
        obtain ⟨rfl, rfl⟩ := List.cons.inj htail
        rw [List.append_nil]
        exact inPlace_of_walks hfirst hnew hinner hseen _
      | cons q inside =>
        obtain ⟨rfl, hlater⟩ := List.cons.inj htail
        have hseen' : ∀ n, n ∈ inner.map (·.origin) ++ first.origin :: seen ↔
            n ∈ ((front ++ inner ++ [first]) ++ pending).map (·.origin) := by
          intro n
          have hfront := hseen n
          simp only [List.map_append, List.map_cons, List.map_nil, List.mem_append, List.mem_cons,
            List.not_mem_nil, or_false] at hfront ⊢
          tauto
        have hplace := ihlater _ hseen' hrest hlater
        simpa using hplace
    · cases inside with
      | nil =>
        obtain ⟨rfl, rfl⟩ := List.cons.inj htail
        rw [List.append_nil] at hinner
        exact inPlace_of_walks hfirst hnew hinner hseen _
      | cons q inside =>
        obtain ⟨rfl, rfl⟩ := List.cons.inj htail
        have hseen' : ∀ n,
            n ∈ first.origin :: seen ↔ n ∈ (front ++ first :: pending).map (·.origin) := by
          intro n
          have hfront := hseen n
          simp only [List.map_append, List.map_cons, List.mem_append, List.mem_cons] at hfront ⊢
          tauto
        exact (ihinner front hseen' (fun r hr => ⟨hr, hfirst⟩) rfl).outward _

theorem Walks.ordered (h : Walks files [] rs qs) : Ordered files rs qs :=
  fun _ _ _ hsplit => h.inPlace [] (fun _ => Iff.rfl) (fun _ hr => hr) hsplit

end Order

/-! ## Walks end -/

/-- A walk ends if there are only so many names that it can meet. -/
theorem exists_walks_of_bound {P : String → Prop} {bound : Nat}
    (hbound : ∀ names : List String, names.Nodup → (∀ n ∈ names, P n) → names.length ≤ bound)
    (htargets : ∀ r, ∀ next ∈ Resource.targets files r, P next.origin)
    (hnodup : seen.Nodup) (hseen : ∀ n ∈ seen, P n) (hrs : ∀ r ∈ rs, P r.origin) :
    ∃ qs, Walks files seen rs qs := by
  -- Either a name is new, and fewer are left, or there is one document less to look at.
  induction hroom : bound - seen.length using Nat.strong_induction_on generalizing seen rs with
  | _ room ih =>
  induction rs with
  | nil => exact ⟨[], .nil⟩
  | cons r rest ihrest =>
    obtain ⟨hr, hrest⟩ := List.forall_mem_cons.mp hrs
    by_cases hknown : r.origin ∈ seen
    · obtain ⟨qs, hqs⟩ := ihrest hrest
      exact ⟨qs, .known hknown hqs⟩
    · have hnodup' := List.nodup_cons.mpr ⟨hknown, hnodup⟩
      have hseen' := List.forall_mem_cons.mpr ⟨hr, hseen⟩
      have hfits := hbound _ hnodup' hseen'
      have hless : ∀ names, bound - (names ++ r.origin :: seen).length < room := by
        intro names
        rw [List.length_cons] at hfits
        rw [List.length_append, List.length_cons]
        omega
      obtain ⟨inner, hinner⟩ := ih _ (hless []) hnodup' hseen' (htargets r) rfl
      have hinner' : ∀ n ∈ inner.map (·.origin) ++ r.origin :: seen, P n := by
        refine List.forall_mem_append.mpr ⟨List.forall_mem_map.mpr ?_, hseen'⟩
        exact hinner.forall_origin (htargets r) fun q _ _ => htargets q
      obtain ⟨later, hlater⟩ := ih _ (hless _) (hinner.nodup hnodup') hinner' hrest rfl
      exact ⟨_, .read hknown hinner hlater⟩

theorem short_of_mem_targets {r next : Resource} (h : next ∈ r.targets files) :
    next.origin.utf8ByteSize < 4096 := by
  obtain ⟨root, -, e, -, ref, -, htarget⟩ := exists_of_mem_targets h
  exact Reference.short_of_target htarget

/-- **Walks end.** References lead to short names only, and there are not many of these. -/
theorem exists_walks (files : File.Tree) (seen : List String) (rs : List Resource) :
    ∃ qs, Walks files seen rs qs := by
  generalize hk : 4096 = k
  let others := rs.map (·.origin) ++ seen
  have hbound : ∀ names : List String, names.Nodup →
      (∀ n ∈ names, n.utf8ByteSize < k ∨ n ∈ others) → names.length ≤ 256 ^ k + others.length := by
    intro names hnodup hnames
    have hsplit := List.length_eq_length_filter_add (l := names) (·.utf8ByteSize < k)
    have hshort := length_le_of_short (k := k) (hnodup.filter (·.utf8ByteSize < k)) (by simp)
    have hothers : names.filter (fun n => !decide (n.utf8ByteSize < k)) ⊆ others := by
      intro n hn
      obtain ⟨hn, hlong⟩ := List.mem_filter.mp hn
      exact (hnames n hn).resolve_left (by simpa using hlong)
    have hfew := (List.subperm_of_subset (hnodup.filter _) hothers).length_le
    omega
  have hshort : ∀ r, ∀ next ∈ Resource.targets files r,
      next.origin.utf8ByteSize < k ∨ next.origin ∈ others :=
    fun r next hnext => .inl (hk ▸ short_of_mem_targets hnext)
  obtain ⟨qs, hqs⟩ := exists_walks_of_bound hbound hshort (List.nodup_dedup seen)
    (fun n hn => .inr (List.mem_append_right _ (List.mem_dedup.mp hn)))
    fun r hr => .inr (List.mem_append_left _ (List.mem_map_of_mem hr))
  exact ⟨qs, hqs.congr fun n => List.mem_dedup⟩

end ScopedXml.Schema
