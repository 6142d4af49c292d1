/-!
# Content models

A model says which sequences of children an element may have. It is a tree of particles: leaves
stand for single children, groups put their members in sequence, offer a choice, or take all of them
in any order, and every particle has bounds on its occurrences. What a leaf is, is left open.
-/

namespace ScopedXml.Content

/-- How often a particle may occur; without a `most` there is no upper bound. -/
structure Occurs where
  least : Nat
  most : Option Nat
deriving DecidableEq

namespace Occurs

/-- Exactly once. -/
def once : Occurs := ⟨1, some 1⟩

/-- Whether one more occurrence fits behind `count` of them. -/
def roomAfter (o : Occurs) (count : Nat) : Bool := o.most.all (count < ·)

/-- The bounds in the form `least..most`. -/
def text (o : Occurs) : String :=
  toString o.least ++ ".." ++ (match o.most with
    | some n => toString n
    | none => "unbounded")

end Occurs

/-- What a group makes of its members. -/
inductive Compositor
  | sequence
  | choice
  | all
deriving DecidableEq

/-- The name of a group in messages. -/
def Compositor.label : Compositor → String
  | sequence => "xs:sequence"
  | choice => "xs:choice"
  | all => "xs:all"

/-- A leaf or a group, with the bounds on its occurrences. -/
inductive Particle (L : Type) where
  | leaf (term : L) (occurs : Occurs)
  | group (compositor : Compositor) (members : List (Particle L)) (occurs : Occurs)

namespace Particle

variable {L : Type}

def occurs : Particle L → Occurs
  | leaf _ o => o
  | group _ _ o => o

/-- The name of a particle in messages, where leaves are named by `name`. -/
def label (name : L → String) : Particle L → String
  | leaf t _ => name t
  | group c _ _ => c.label

mutual

/-- Whether a particle can be satisfied without any child. -/
def emptiable : Particle L → Bool
  | leaf _ o => o.least == 0
  | group c ms o =>
    o.least == 0 ||
      match c with
      | .choice => emptiableAny ms
      | _ => emptiableAll ms
termination_by structural p => p

def emptiableAny : List (Particle L) → Bool
  | [] => false
  | p :: ps => emptiable p || emptiableAny ps
termination_by structural ps => ps

def emptiableAll : List (Particle L) → Bool
  | [] => true
  | p :: ps => emptiable p && emptiableAll ps
termination_by structural ps => ps

end

/-- Whether one occurrence of a group can be satisfied without any child. -/
def emptiableGroup (c : Compositor) (ms : List (Particle L)) : Bool :=
  match c with
  | .choice => emptiableAny ms
  | _ => emptiableAll ms

mutual

/-- The leaves of a model, from left to right. -/
def leaves : Particle L → List L
  | leaf t _ => [t]
  | group _ ms _ => leavesOf ms

def leavesOf : List (Particle L) → List L
  | [] => []
  | p :: ps => leaves p ++ leavesOf ps

end

end Particle

end ScopedXml.Content
