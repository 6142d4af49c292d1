import Mathlib.Computability.Language
import ScopedXml.Content.Model

/-!
# The language of a content model

The words of a model are the sequences of child names that it describes. `Particle.language` says
which they are, without any regard to how they are recognised: a leaf stands for one name, a
sequence concatenates, a choice takes one member, members in any order are interleaved, and the
bounds repeat all that (`Occurs.repeats`). Names are of any type `A`, and `fits` says which of them
a leaf takes.

* `cons_mem_pow`: a word of a power that is not empty begins within the first factor.
* `Occurs.cons_mem_repeats_after`: the same for bounds of which some occurrences are used up.
* `Particle.Part`: a particle within a model. What is asked of all of a model is asked of its parts.
-/

namespace ScopedXml.Content

variable {A L : Type}

/-! ## Words of a product -/

@[simp] theorem nil_mem_mul {l m : Language A} : [] ∈ l * m ↔ [] ∈ l ∧ [] ∈ m := by
  rw [Language.mem_mul]
  constructor
  · rintro ⟨u, hu, v, hv, h⟩
    obtain ⟨rfl, rfl⟩ := List.append_eq_nil_iff.mp h
    exact ⟨hu, hv⟩
  · rintro ⟨hl, hm⟩
    exact ⟨[], hl, [], hm, rfl⟩

theorem cons_mem_mul {l m : Language A} {a : A} {w : List A} :
    a :: w ∈ l * m ↔
      (∃ u v, w = u ++ v ∧ a :: u ∈ l ∧ v ∈ m) ∨ ([] ∈ l ∧ a :: w ∈ m) := by
  rw [Language.mem_mul]
  constructor
  · rintro ⟨u, hu, v, hv, h⟩
    cases u with
    | nil => exact Or.inr ⟨hu, by simpa using h ▸ hv⟩
    | cons b u =>
      rw [List.cons_append, List.cons.injEq] at h
      obtain ⟨rfl, rfl⟩ := h
      exact Or.inl ⟨u, v, rfl, hu, hv⟩
  · rintro (⟨u, v, rfl, hu, hv⟩ | ⟨hl, hw⟩)
    · exact ⟨a :: u, hu, v, hv, rfl⟩
    · exact ⟨[], hl, a :: w, hw, rfl⟩

theorem nil_mem_pow {l : Language A} (h : [] ∈ l) (n : Nat) : [] ∈ l ^ n := by
  induction n with
  | zero => exact Language.nil_mem_one
  | succ n ih =>
    rw [pow_succ]
    exact nil_mem_mul.mpr ⟨ih, h⟩

theorem nil_mem_of_nil_mem_pow {l : Language A} {n : Nat} (h : [] ∈ l ^ (n + 1)) : [] ∈ l := by
  rw [pow_succ] at h
  exact (nil_mem_mul.mp h).2

theorem mem_pow_of_le {l : Language A} (h : [] ∈ l) {n m : Nat} (hnm : n ≤ m) {w : List A}
    (hw : w ∈ l ^ n) : w ∈ l ^ m := by
  obtain ⟨k, rfl⟩ := Nat.exists_eq_add_of_le hnm
  have := Language.append_mem_mul hw (nil_mem_pow h k)
  rwa [List.append_nil, ← pow_add] at this

/-- Empty factors at the front can be moved behind the first one that is not empty. -/
theorem cons_mem_pow {l : Language A} {a : A} {w : List A} {n : Nat} (h : a :: w ∈ l ^ n) :
    ∃ m u v, n = m + 1 ∧ w = u ++ v ∧ a :: u ∈ l ∧ v ∈ l ^ m := by
  induction n with
  | zero =>
    rw [pow_zero, Language.mem_one] at h
    cases h
  | succ n ih =>
    rw [pow_succ', cons_mem_mul] at h
    rcases h with ⟨u, v, rfl, hu, hv⟩ | ⟨hnil, h⟩
    · exact ⟨n, u, v, rfl, rfl, hu, hv⟩
    · obtain ⟨m, u, v, rfl, rfl, hu, hv⟩ := ih h
      exact ⟨m + 1, u, v, rfl, rfl, hu, mem_pow_of_le hnil (Nat.le_succ m) hv⟩

/-! ## Bounds -/

namespace Occurs

/-- The lower bound does not exceed the upper one. -/
def Sane (o : Occurs) : Prop := ∀ m ∈ o.most, o.least ≤ m

/-- The bounds allow `n` occurrences. -/
def Admits (o : Occurs) (n : Nat) : Prop := o.least ≤ n ∧ ∀ m ∈ o.most, n ≤ m

/-- The bounds on what is still to come behind `n` occurrences. -/
def after (o : Occurs) (n : Nat) : Occurs := ⟨o.least - n, o.most.map (· - n)⟩

theorem roomAfter_iff {o : Occurs} {n : Nat} : o.roomAfter n = true ↔ ∀ m ∈ o.most, n < m := by
  cases h : o.most <;> simp [roomAfter, h]

theorem admits_after_iff {o : Occurs} {n k : Nat} :
    (o.after n).Admits k ↔ o.least ≤ k + n ∧ ∀ m ∈ o.most, k ≤ m - n := by
  cases h : o.most <;> simp [Admits, after, h]

@[simp] theorem after_zero (o : Occurs) : o.after 0 = o := by
  rcases o with ⟨least, _ | most⟩ <;> rfl

theorem admits_after_succ {o : Occurs} {n k : Nat} :
    (o.after n).Admits (k + 1) ↔ o.roomAfter n = true ∧ (o.after (n + 1)).Admits k := by
  rw [admits_after_iff, admits_after_iff, roomAfter_iff]
  constructor
  · rintro ⟨hleast, hmost⟩
    refine ⟨fun m hm => ?_, by omega, fun m hm => ?_⟩
    · have := hmost m hm
      omega
    · have := hmost m hm
      omega
  · rintro ⟨hroom, hleast, hmost⟩
    refine ⟨by omega, fun m hm => ?_⟩
    have := hroom m hm
    have := hmost m hm
    omega

/-- Words of `l` one after another, as often as the bounds allow. -/
def repeats (o : Occurs) (l : Language A) : Language A := {w | ∃ n, o.Admits n ∧ w ∈ l ^ n}

theorem append_mem_repeats_after {o : Occurs} {l : Language A} {n : Nat} {u v : List A}
    (hroom : o.roomAfter n = true) (hu : u ∈ l) (hv : v ∈ (o.after (n + 1)).repeats l) :
    u ++ v ∈ (o.after n).repeats l := by
  obtain ⟨k, hk, hv⟩ := hv
  refine ⟨k + 1, admits_after_succ.mpr ⟨hroom, hk⟩, ?_⟩
  rw [pow_succ']
  exact Language.append_mem_mul hu hv

/-- A word that is not empty begins with an occurrence for which there is room. -/
theorem cons_mem_repeats_after {o : Occurs} {l : Language A} {n : Nat} {a : A} {w : List A}
    (h : a :: w ∈ (o.after n).repeats l) :
    o.roomAfter n = true ∧
      ∃ u v, w = u ++ v ∧ a :: u ∈ l ∧ v ∈ (o.after (n + 1)).repeats l := by
  obtain ⟨k, hk, hw⟩ := h
  obtain ⟨m, u, v, rfl, rfl, hu, hv⟩ := cons_mem_pow hw
  obtain ⟨hroom, hm⟩ := admits_after_succ.mp hk
  exact ⟨hroom, u, v, rfl, hu, m, hm, hv⟩

theorem nil_mem_repeats_after {o : Occurs} {l : Language A} {n : Nat} (hs : o.Sane) :
    [] ∈ (o.after n).repeats l ↔ o.least ≤ n ∨ [] ∈ l := by
  constructor
  · rintro ⟨k, hk, hw⟩
    cases k with
    | zero => exact Or.inl (by have := (admits_after_iff.mp hk).1; omega)
    | succ k => exact Or.inr (nil_mem_of_nil_mem_pow hw)
  · intro h
    refine ⟨o.least - n, admits_after_iff.mpr ⟨by omega, fun m hm => ?_⟩, ?_⟩
    · have := hs m hm
      omega
    · rcases h with h | h
      · rw [Nat.sub_eq_zero_of_le h]
        exact Language.nil_mem_one
      · exact nil_mem_pow h _

end Occurs

/-! ## Interleaving -/

/-- The third word consists of the first two, each in its own order. -/
inductive Interleaves : List A → List A → List A → Prop
  | nil : Interleaves [] [] []
  | left {a : A} {u v w : List A} : Interleaves u v w → Interleaves (a :: u) v (a :: w)
  | right {a : A} {u v w : List A} : Interleaves u v w → Interleaves u (a :: v) (a :: w)

/-- The interleavings of two languages. -/
def interleave (l m : Language A) : Language A := {w | ∃ u ∈ l, ∃ v ∈ m, Interleaves u v w}

theorem nil_mem_interleave {l m : Language A} : [] ∈ interleave l m ↔ [] ∈ l ∧ [] ∈ m := by
  constructor
  · rintro ⟨u, hu, v, hv, h⟩
    cases h
    exact ⟨hu, hv⟩
  · rintro ⟨hl, hm⟩
    exact ⟨[], hl, [], hm, .nil⟩

/-! ## The letters of a language -/

/-- Every letter of every word has the property. -/
def Spelled (P : A → Prop) (l : Language A) : Prop := ∀ w ∈ l, ∀ a ∈ w, P a

namespace Spelled

variable {P Q : A → Prop} {l m : Language A}

theorem mono (h : Spelled P l) (hPQ : ∀ a, P a → Q a) : Spelled Q l :=
  fun w hw a ha => hPQ a (h w hw a ha)

theorem one (P : A → Prop) : Spelled P 1 := by
  intro w hw a ha
  rw [(Language.mem_one w).mp hw] at ha
  cases ha

theorem mul (hl : Spelled P l) (hm : Spelled P m) : Spelled P (l * m) := by
  intro w hw a ha
  obtain ⟨u, hu, v, hv, rfl⟩ := Language.mem_mul.mp hw
  exact (List.mem_append.mp ha).elim (hl u hu a) (hm v hv a)

theorem pow (h : Spelled P l) (n : Nat) : Spelled P (l ^ n) := by
  induction n with
  | zero => exact one P
  | succ n ih =>
    rw [pow_succ]
    exact ih.mul h

theorem repeats (h : Spelled P l) (o : Occurs) : Spelled P (o.repeats l) := by
  rintro w ⟨n, -, hw⟩
  exact h.pow n w hw

theorem interleave (hl : Spelled P l) (hm : Spelled P m) : Spelled P (interleave l m) := by
  rintro w ⟨u, hu, v, hv, hw⟩
  replace hl := hl u hu
  replace hm := hm v hv
  clear hu hv
  induction hw with
  | nil => exact hl
  | left _ ih =>
    obtain ⟨ha, hu⟩ := List.forall_mem_cons.mp hl
    exact List.forall_mem_cons.mpr ⟨ha, ih hu hm⟩
  | right _ ih =>
    obtain ⟨ha, hv⟩ := List.forall_mem_cons.mp hm
    exact List.forall_mem_cons.mpr ⟨ha, ih hl hv⟩

end Spelled

/-! ## The words of a particle -/

/-- The names that a leaf takes, as words. -/
def letter (fits : A → L → Bool) (t : L) : Language A := {w | ∃ a, w = [a] ∧ fits a t = true}

theorem cons_mem_letter {fits : A → L → Bool} {t : L} {a : A} {w : List A} :
    a :: w ∈ letter fits t ↔ w = [] ∧ fits a t = true := by
  constructor
  · rintro ⟨b, h, hb⟩
    cases h
    exact ⟨rfl, hb⟩
  · rintro ⟨rfl, h⟩
    exact ⟨a, rfl, h⟩

theorem nil_notMem_letter {fits : A → L → Bool} {t : L} : [] ∉ letter fits t := by
  rintro ⟨a, h, -⟩
  cases h

namespace Particle

/-- Induction over a model: a group is reached from all its members. -/
@[elab_as_elim]
theorem induction {motive : Particle L → Prop} (leaf : ∀ t o, motive (.leaf t o))
    (group : ∀ c ms o, (∀ q ∈ ms, motive q) → motive (.group c ms o)) (p : Particle L) :
    motive p :=
  @Particle.rec L motive (fun ms => ∀ q ∈ ms, motive q) leaf group (fun _ h => nomatch h)
    (fun _ _ hp hps => List.forall_mem_cons.mpr ⟨hp, hps⟩) p

mutual

/-- The words of a particle, by which leaves fit which names. -/
def language (fits : A → L → Bool) : Particle L → Language A
  | .leaf t o => o.repeats (letter fits t)
  | .group c ms o =>
    o.repeats
      (match c with
        | .sequence => inSequence fits ms
        | .choice => inChoice fits ms
        | .all => inAnyOrder fits ms)
termination_by structural p => p

/-- A word of each, in their order. -/
def inSequence (fits : A → L → Bool) : List (Particle L) → Language A
  | [] => 1
  | p :: ps => language fits p * inSequence fits ps
termination_by structural ps => ps

/-- A word of one of them. -/
def inChoice (fits : A → L → Bool) : List (Particle L) → Language A
  | [] => 0
  | p :: ps => language fits p + inChoice fits ps
termination_by structural ps => ps

/-- A word of each, interleaved. -/
def inAnyOrder (fits : A → L → Bool) : List (Particle L) → Language A
  | [] => 1
  | p :: ps => interleave (language fits p) (inAnyOrder fits ps)
termination_by structural ps => ps

end

/-- The words of one occurrence of a group. -/
def groupLanguage (fits : A → L → Bool) (c : Compositor) (ms : List (Particle L)) : Language A :=
  match c with
  | .sequence => inSequence fits ms
  | .choice => inChoice fits ms
  | .all => inAnyOrder fits ms

theorem language_leaf (fits : A → L → Bool) (t : L) (o : Occurs) :
    language fits (.leaf t o) = o.repeats (letter fits t) := rfl

theorem language_group (fits : A → L → Bool) (c : Compositor) (ms : List (Particle L))
    (o : Occurs) : language fits (.group c ms o) = o.repeats (groupLanguage fits c ms) := by
  cases c <;> rfl

theorem mem_inChoice {fits : A → L → Bool} {ms : List (Particle L)} {w : List A} :
    w ∈ inChoice fits ms ↔ ∃ q ∈ ms, w ∈ q.language fits := by
  induction ms with
  | nil => simp [inChoice, Language.notMem_zero]
  | cons p ps ih => simp [inChoice, Language.mem_add, ih]

theorem nil_mem_inSequence {fits : A → L → Bool} {ms : List (Particle L)} :
    [] ∈ inSequence fits ms ↔ ∀ q ∈ ms, [] ∈ q.language fits := by
  induction ms with
  | nil => simp [inSequence]
  | cons p ps ih => simp [inSequence, ih]

theorem inSequence_append (fits : A → L → Bool) (ms ns : List (Particle L)) :
    inSequence fits (ms ++ ns) = inSequence fits ms * inSequence fits ns := by
  induction ms with
  | nil => simp [inSequence]
  | cons p ps ih => simp [inSequence, ih, mul_assoc]

/-! ## Parts -/

/-- `q` stands somewhere within `p`. -/
inductive Part : Particle L → Particle L → Prop
  | self (p : Particle L) : Part p p
  | member {c : Compositor} {ms : List (Particle L)} {o : Occurs} {p q : Particle L} :
    p ∈ ms → Part p q → Part (.group c ms o) q

theorem part_leaf_iff {t : L} {o : Occurs} {q : Particle L} :
    Part (.leaf t o) q ↔ q = .leaf t o := by
  constructor
  · rintro ⟨⟩
    rfl
  · rintro rfl
    exact .self _

theorem part_group_iff {c : Compositor} {ms : List (Particle L)} {o : Occurs} {q : Particle L} :
    Part (.group c ms o) q ↔ q = .group c ms o ∨ ∃ p ∈ ms, Part p q := by
  constructor
  · intro h
    cases h with
    | self _ => exact Or.inl rfl
    | member hp hq => exact Or.inr ⟨_, hp, hq⟩
  · rintro (rfl | ⟨p, hp, hq⟩)
    · exact .self _
    · exact .member hp hq

/-- No lower bound in the model exceeds its upper bound. -/
def Bounded (p : Particle L) : Prop := ∀ q, Part p q → q.occurs.Sane

/-- The model has sequences and choices only. -/
def Ordered (p : Particle L) : Prop := ∀ ms o, ¬ Part p (.group .all ms o)

theorem Bounded.sane {p : Particle L} (h : Bounded p) : p.occurs.Sane := h p (.self p)

theorem Bounded.member {c : Compositor} {ms : List (Particle L)} {o : Occurs}
    (h : Bounded (.group c ms o)) {q : Particle L} (hq : q ∈ ms) : Bounded q :=
  fun r hr => h r (.member hq hr)

theorem Ordered.member {c : Compositor} {ms : List (Particle L)} {o : Occurs}
    (h : Ordered (.group c ms o)) {q : Particle L} (hq : q ∈ ms) : Ordered q :=
  fun ns o' hr => h ns o' (.member hq hr)

theorem Ordered.ne_all {c : Compositor} {ms : List (Particle L)} {o : Occurs}
    (h : Ordered (.group c ms o)) : c ≠ .all := by
  rintro rfl
  exact h ms o (.self _)

end Particle

end ScopedXml.Content
