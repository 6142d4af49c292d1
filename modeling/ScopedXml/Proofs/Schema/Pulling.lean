import Mathlib.Data.List.Infix
import ScopedXml.Schema.Compile

/-!
# Documents that are pulled in

Compiling follows references to other documents. `pullDocument` compiles like `addDocument` and keeps
a log of the references that it followed (`pullResources_schema`). A schema rests on the documents in
this log and on nothing else in the files: while they stay as they are, it is compiled again
(`pullResources_of_holds`).
-/

namespace ScopedXml.Schema

open Document (Element)

/-- A reference that was followed, with the document that it led to. -/
structure Pull where
  base : Option File.Path
  reference : Reference
  document : Resource
deriving DecidableEq

/-- The reference leads to the same document in these files. -/
def Pull.HoldsIn (p : Pull) (files : File.Tree) : Prop :=
  p.reference.resolve files p.base = .ok (some p.document)

/-! ## Compiling with a log -/

/-- A schema so far, with the references that were followed for it. -/
abbrev Pulling := Schema × List Pull

/-- Follow a reference in a document with this base directory, and note where it led. -/
def followPull (files : File.Tree) (base : Option File.Path)
    (load : Resource → Pulling → Except Fault Pulling) (t : Pulling) (ref : Reference) :
    Except Fault Pulling := do
  match ← ref.resolve files base with
  | some next => load next (t.1, t.2 ++ [⟨base, ref, next⟩])
  | none => throw (.unresolved ref.shown)

def pullPart (follow : Pulling → Reference → Except Fault Pulling) (origin : String) (h : Header)
    (t : Pulling) (e : Element) : Except Fault Pulling :=
  match reference? e with
  | some ref => follow t ref
  | none => ((declare h t.1 e).mapError (.invalid origin)).map (·, t.2)

def pullDocument (files : File.Tree) (depth : Nat) (reading : List String) (r : Resource)
    (t : Pulling) : Except Fault Pulling :=
  match depth with
  | 0 => .error (.unresolved r.origin)
  | depth + 1 =>
    if t.1.documents.contains r.origin || reading.contains r.origin then .ok t
    else do
      let root ← r.root
      let h := Header.ofElement root
      let first := t.1.documents.isEmpty && reading.isEmpty
      let s := if first then { t.1 with targetNamespace := h.targetNamespace } else t.1
      let t ← root.children.foldlM (pullPart (followPull files r.base fun next t =>
        pullDocument files depth (r.origin :: reading) next t) r.origin h) (s, t.2)
      return ({ t.1 with documents := t.1.documents ++ [r.origin] }, t.2)
termination_by structural depth

def pullResources (files : File.Tree) (rs : List Resource) : Except Fault Pulling :=
  rs.foldlM (fun t r => pullDocument files deepest [] r t) (empty, [])

/-- The references that are followed for a schema, if it can be compiled. -/
def pulled (files : File.Tree) (rs : List Resource) : List Pull :=
  match pullResources files rs with
  | .ok t => t.2
  | .error _ => []

/-! ## The log changes nothing -/

variable {files files' : File.Tree}

theorem foldlM_fst {α β γ : Type} {f : α × β → γ → Except Fault (α × β)}
    {g : α → γ → Except Fault α} (h : ∀ t e, (f t e).map (·.1) = g t.1 e) (es : List γ) (t : α × β) :
    (es.foldlM f t).map (·.1) = es.foldlM g t.1 := by
  induction es generalizing t with
  | nil => rfl
  | cons e es ih =>
    rw [List.foldlM_cons, List.foldlM_cons, ← h]
    cases f t e with
    | error fault => rfl
    | ok t' => exact ih t'

theorem pullDocument_schema (files : File.Tree) (depth : Nat) (reading : List String) (r : Resource)
    (t : Pulling) :
    (pullDocument files depth reading r t).map (·.1) = addDocument files depth reading r t.1 := by
  induction depth generalizing reading r t with
  | zero => rfl
  | succ depth ih =>
    rw [pullDocument, addDocument]
    split
    · rfl
    · cases r.root with
      | error fault => rfl
      | ok root =>
        -- Each part adds the same to the schema, whether the log is kept or not.
        have hpart : ∀ (t : Pulling) (e : Element),
            (pullPart (followPull files r.base fun next t =>
                pullDocument files depth (r.origin :: reading) next t) r.origin
              (Header.ofElement root) t e).map (·.1) =
            addPart (fun s ref => do
                match ← ref.resolve files r.base with
                | some next => addDocument files depth (r.origin :: reading) next s
                | none => throw (.unresolved ref.shown)) r.origin (Header.ofElement root) t.1 e := by
          intro t e
          unfold pullPart addPart
          cases reference? e with
          | none => cases declare (Header.ofElement root) t.1 e <;> rfl
          | some ref =>
            dsimp only [followPull]
            cases ref.resolve files r.base with
            | error fault => rfl
            | ok found =>
              cases found with
              | none => rfl
              | some next => exact ih _ next _
        dsimp only [bind, Except.bind]
        generalize (if (t.1.documents.isEmpty && reading.isEmpty) = true then
          { t.1 with targetNamespace := (Header.ofElement root).targetNamespace } else t.1) = s
        refine Eq.trans ?_ (congrArg (fun parts : Except Fault Schema => parts.bind fun s =>
          .ok { s with documents := s.documents ++ [r.origin] })
            (foldlM_fst hpart root.children (s, t.2)))
        cases root.children.foldlM (pullPart (followPull files r.base fun next t =>
          pullDocument files depth (r.origin :: reading) next t) r.origin (Header.ofElement root))
          (s, t.2) <;> rfl

theorem pullResources_schema (files : File.Tree) (rs : List Resource) :
    (pullResources files rs).map (·.1) = compileResources files rs := by
  unfold pullResources compileResources
  generalize deepest = depth
  exact foldlM_fst (fun t r => pullDocument_schema files depth [] r t) rs (empty, [])

/-! ## What a schema rests on -/

/-- From `t` on the first answer rests on what it pulled in: where all of that holds, the second is
the same. -/
def Rests (files' : File.Tree) (t : Pulling) (answer answer' : Except Fault Pulling) : Prop :=
  ∀ t', answer = .ok t' →
    t.2 <+: t'.2 ∧ ((∀ p ∈ t'.2, p.HoldsIn files') → answer' = .ok t')

theorem rests_self (files' : File.Tree) (t : Pulling) : Rests files' t (.ok t) (.ok t) := by
  rintro t' ⟨⟩
  exact ⟨List.prefix_refl _, fun _ => rfl⟩

theorem foldlM_rests {γ : Type} {f f' : Pulling → γ → Except Fault Pulling}
    (h : ∀ t e, Rests files' t (f t e) (f' t e)) (es : List γ) (t : Pulling) :
    Rests files' t (es.foldlM f t) (es.foldlM f' t) := by
  induction es generalizing t with
  | nil => exact rests_self files' t
  | cons e es ih =>
    intro t' ht'
    rw [List.foldlM_cons] at ht' ⊢
    cases hfirst : f t e with
    | error fault =>
      rw [hfirst] at ht'
      cases ht'
    | ok t₁ =>
      rw [hfirst] at ht'
      obtain ⟨hlog, hholds⟩ := h t e t₁ hfirst
      obtain ⟨hlog', hholds'⟩ := ih t₁ t' ht'
      refine ⟨hlog.trans hlog', fun hpulls => ?_⟩
      rw [hholds fun p hp => hpulls p (hlog'.subset hp)]
      exact hholds' hpulls

theorem followPull_rests {load load' : Resource → Pulling → Except Fault Pulling}
    (h : ∀ next t, Rests files' t (load next t) (load' next t)) (base : Option File.Path)
    (t : Pulling) (ref : Reference) :
    Rests files' t (followPull files base load t ref) (followPull files' base load' t ref) := by
  intro t' ht'
  unfold followPull at ht' ⊢
  cases hresolve : ref.resolve files base with
  | error fault =>
    rw [hresolve] at ht'
    cases ht'
  | ok found =>
    rw [hresolve] at ht'
    cases found with
    | none => cases ht'
    | some next =>
      obtain ⟨hlog, hholds⟩ := h next _ t' ht'
      refine ⟨(List.prefix_append _ _).trans hlog, fun hpulls => ?_⟩
      have hnoted : (⟨base, ref, next⟩ : Pull) ∈ t'.2 := hlog.subset (by simp)
      have hagain : ref.resolve files' base = .ok (some next) := hpulls _ hnoted
      rw [hagain]
      exact hholds hpulls

theorem pullPart_rests {follow follow' : Pulling → Reference → Except Fault Pulling}
    (h : ∀ t ref, Rests files' t (follow t ref) (follow' t ref)) (origin : String) (header : Header)
    (t : Pulling) (e : Element) :
    Rests files' t (pullPart follow origin header t e) (pullPart follow' origin header t e) := by
  unfold pullPart
  cases reference? e with
  | some ref => exact h t ref
  | none =>
    intro t' ht'
    refine ⟨?_, fun _ => ht'⟩
    cases hdeclare : declare header t.1 e with
    | error flaw =>
      rw [hdeclare] at ht'
      cases ht'
    | ok s =>
      rw [hdeclare] at ht'
      cases ht'
      exact List.prefix_refl _

theorem pullDocument_rests (files files' : File.Tree) (depth : Nat) (reading : List String)
    (r : Resource) (t : Pulling) :
    Rests files' t (pullDocument files depth reading r t)
      (pullDocument files' depth reading r t) := by
  induction depth generalizing reading r t with
  | zero =>
    intro t' ht'
    cases ht'
  | succ depth ih =>
    rw [pullDocument, pullDocument]
    split
    · exact rests_self files' t
    · cases r.root with
      | error fault =>
        intro t' ht'
        cases ht'
      | ok root =>
        intro t' ht'
        have hfollow : ∀ t ref, Rests files' t
            (followPull files r.base (pullDocument files depth (r.origin :: reading)) t ref)
            (followPull files' r.base (pullDocument files' depth (r.origin :: reading)) t ref) :=
          followPull_rests (ih (r.origin :: reading)) r.base
        have hparts := foldlM_rests
          (pullPart_rests hfollow r.origin (Header.ofElement root)) root.children
        dsimp only [bind, Except.bind] at ht' ⊢
        generalize (if (t.1.documents.isEmpty && reading.isEmpty) = true then
          { t.1 with targetNamespace := (Header.ofElement root).targetNamespace } else t.1) = s at ht' ⊢
        cases hfold : root.children.foldlM (pullPart (followPull files r.base fun next t =>
            pullDocument files depth (r.origin :: reading) next t) r.origin (Header.ofElement root))
            (s, t.2) with
        | error fault =>
          rw [hfold] at ht'
          cases ht'
        | ok t₁ =>
          rw [hfold] at ht'
          obtain ⟨hlog, hholds⟩ := hparts (s, t.2) t₁ hfold
          cases ht'
          refine ⟨hlog, fun hpulls => ?_⟩
          rw [hholds hpulls]
          rfl

/-- **What a schema rests on.** Where all references that were followed for it lead to the same
documents, the same schema is compiled, along the same references. -/
theorem pullResources_of_holds {rs : List Resource} {t : Pulling}
    (h : pullResources files rs = .ok t) (hholds : ∀ p ∈ t.2, p.HoldsIn files') :
    pullResources files' rs = .ok t := by
  unfold pullResources at h ⊢
  generalize deepest = depth at h ⊢
  exact (foldlM_rests (fun t r => pullDocument_rests files files' depth [] r t) rs (empty, []) t h).2
    hholds

end ScopedXml.Schema
