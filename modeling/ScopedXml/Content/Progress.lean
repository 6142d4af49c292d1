import ScopedXml.Content.Model

/-!
# Matching children one by one

`Progress` is how far the children of an element have come in its content model. A particle counts
its occurrences; a group also remembers the occurrence that is under way: the member reached in a
sequence or chosen in a choice, and the progress of each member. The first particle that can take a
child takes it, and nothing is ever taken back.

* `Progress.accept`: the leaf that takes the next child, and the progress behind it.
* `Progress.satisfied`: whether the children may end here.
* `Progress.expected`: the names of the leaves that could take a child now.
* `Progress.missing`: what is lacking when the children may not end here.
-/

namespace ScopedXml.Content

mutual

inductive Progress where
  /-- Occurrences begun so far, and for a group the one under way. -/
  | mk (count : Nat) (current : Option Occurrence)

inductive Occurrence where
  /-- The member reached or chosen, and the progress of every member. -/
  | mk (cursor : Option Nat) (members : List Progress)

end

/-- What is lacking at the end of the children. -/
inductive Shortage
  /-- A particle that has not occurred often enough. -/
  | tooFew (label : String) (bounds : Occurs) (found : Nat)
  /-- A choice of which no member was taken. -/
  | oneOf (options : List String)
deriving DecidableEq

/-- Texts in single quotes, with commas between. -/
def quotedList (names : List String) : String :=
  ", ".intercalate (names.map fun n => "'" ++ n ++ "'")

def Shortage.message : Shortage → String
  | tooFew label bounds found =>
    "Cardinality error for '" ++ label ++ "': expected " ++ bounds.text ++ ", found "
      ++ toString found
  | oneOf options => "Missing one of " ++ quotedList options

namespace Progress

variable {L : Type}

/-- No child has come yet. -/
def fresh : Progress := mk 0 none

def count : Progress → Nat
  | mk n _ => n

def current : Progress → Option Occurrence
  | mk _ c => c

/-! ## The end of the children -/

mutual

def satisfied : Particle L → Progress → Bool
  | .leaf _ o, s => o.least ≤ s.count
  | .group c ms o, s =>
    (match s.current with
      | none => true
      | some (.mk cursor states) =>
        match c, cursor with
        | .sequence, _ => satisfiedFrom ms states (cursor.getD 0)
        | .choice, some index => satisfiedAt ms states index
        | .choice, none => satisfiedAny ms states
        | .all, _ => satisfiedFrom ms states 0)
    && (o.least ≤ s.count || Particle.emptiableGroup c ms)
termination_by structural p => p

/-- Whether all members from `skip` on are satisfied. -/
def satisfiedFrom : List (Particle L) → List Progress → Nat → Bool
  | p :: ps, s :: ss, 0 => satisfied p s && satisfiedFrom ps ss 0
  | _ :: ps, _ :: ss, skip + 1 => satisfiedFrom ps ss skip
  | _, _, _ => true
termination_by structural ps => ps

def satisfiedAt : List (Particle L) → List Progress → Nat → Bool
  | p :: _, s :: _, 0 => satisfied p s
  | _ :: ps, _ :: ss, index + 1 => satisfiedAt ps ss index
  | _, _, _ => false
termination_by structural ps => ps

def satisfiedAny : List (Particle L) → List Progress → Bool
  | p :: ps, s :: ss => satisfied p s || satisfiedAny ps ss
  | _, _ => false
termination_by structural ps => ps

end

/-- Whether an occurrence of a group may end here. -/
def satisfiedGroup (c : Compositor) (ms : List (Particle L)) : Occurrence → Bool
  | .mk cursor states =>
    match c, cursor with
    | .sequence, _ => satisfiedFrom ms states (cursor.getD 0)
    | .choice, some index => satisfiedAt ms states index
    | .choice, none => satisfiedAny ms states
    | .all, _ => satisfiedFrom ms states 0

theorem satisfied_group (c : Compositor) (ms : List (Particle L)) (o : Occurs) (s : Progress) :
    satisfied (.group c ms o) s =
      (s.current.all (satisfiedGroup c ms)
        && (o.least ≤ s.count || Particle.emptiableGroup c ms)) := by
  rcases s with ⟨n, _ | ⟨cursor, states⟩⟩
  · rfl
  · cases c <;> cases cursor <;> rfl

/-! ## The next child -/

mutual

/-- The leaf that takes the next child, where `fits` says which leaves can, and the progress behind
it. A group first goes on with its occurrence; when that may end, it begins another. -/
def accept (fits : L → Bool) : Particle L → Progress → Option (L × Progress)
  | .leaf t o, s => if o.roomAfter s.count && fits t then some (t, mk (s.count + 1) none) else none
  | .group c ms o, s =>
    let onward (cursor : Option Nat) (states : List Progress) : Option (L × Occurrence) :=
      match c, cursor with
      | .sequence, _ =>
        (acceptFrom fits ms states (cursor.getD 0)).map fun (t, index, states) =>
          (t, .mk (some index) states)
      | .choice, some index =>
        (acceptAt fits ms states index).map fun (t, states) => (t, .mk (some index) states)
      | .choice, none =>
        (acceptAny fits ms states).map fun (t, index, states) => (t, .mk (some index) states)
      | .all, _ => (acceptAny fits ms states).map fun (t, _, states) => (t, .mk cursor states)
    let anew : Option (L × Progress) :=
      if o.roomAfter s.count then
        (onward none (ms.map fun _ => fresh)).map fun (t, occurrence) =>
          (t, mk (s.count + 1) (some occurrence))
      else none
    match s.current with
    | none => anew
    | some (.mk cursor states) =>
      match onward cursor states with
      | some (t, occurrence) => some (t, mk s.count (some occurrence))
      | none => if satisfiedGroup c ms (.mk cursor states) then anew else none
termination_by structural p => p

/-- The first member from `skip` on that takes the child, where only satisfied ones are passed
over. -/
def acceptFrom (fits : L → Bool) :
    List (Particle L) → List Progress → Nat → Option (L × Nat × List Progress)
  | p :: ps, s :: ss, 0 =>
    match accept fits p s with
    | some (t, s') => some (t, 0, s' :: ss)
    | none =>
      if satisfied p s then
        (acceptFrom fits ps ss 0).map fun (t, index, ss) => (t, index + 1, s :: ss)
      else none
  | _ :: ps, s :: ss, skip + 1 =>
    (acceptFrom fits ps ss skip).map fun (t, index, ss) => (t, index + 1, s :: ss)
  | _, _, _ => none
termination_by structural ps => ps

/-- The member with this index, if it takes the child. -/
def acceptAt (fits : L → Bool) :
    List (Particle L) → List Progress → Nat → Option (L × List Progress)
  | p :: _, s :: ss, 0 => (accept fits p s).map fun (t, s) => (t, s :: ss)
  | _ :: ps, s :: ss, index + 1 => (acceptAt fits ps ss index).map fun (t, ss) => (t, s :: ss)
  | _, _, _ => none
termination_by structural ps => ps

/-- The first of all members that takes the child. -/
def acceptAny (fits : L → Bool) :
    List (Particle L) → List Progress → Option (L × Nat × List Progress)
  | p :: ps, s :: ss =>
    match accept fits p s with
    | some (t, s') => some (t, 0, s' :: ss)
    | none => (acceptAny fits ps ss).map fun (t, index, ss) => (t, index + 1, s :: ss)
  | _, _ => none
termination_by structural ps => ps

end

/-! ## What could come next -/

/-- Add a name unless it is there already. -/
def addName (name : String) (names : List String) : List String :=
  if names.contains name then names else names ++ [name]

mutual

/-- Add the names of the leaves that could take a child now, in the order of the model. -/
def addExpected (name : L → String) : Particle L → Progress → List String → List String
  | .leaf t o, s, names => if o.roomAfter s.count then addName (name t) names else names
  | .group c ms o, s, names =>
    let onward (cursor : Option Nat) (states : List Progress) (names : List String) :
        List String :=
      match c, cursor with
      | .sequence, _ => addExpectedFrom name ms states (cursor.getD 0) names
      | .choice, some index => addExpectedAt name ms states index names
      | .choice, none => addExpectedEach name ms states names
      | .all, _ => addExpectedEach name ms states names
    let anew (names : List String) : List String :=
      if o.roomAfter s.count then onward none (ms.map fun _ => fresh) names else names
    match s.current with
    | none => anew names
    | some (.mk cursor states) =>
      let names := onward cursor states names
      if satisfiedGroup c ms (.mk cursor states) then anew names else names
termination_by structural p => p

def addExpectedFrom (name : L → String) :
    List (Particle L) → List Progress → Nat → List String → List String
  | p :: ps, s :: ss, 0, names =>
    let names := addExpected name p s names
    if satisfied p s then addExpectedFrom name ps ss 0 names else names
  | _ :: ps, _ :: ss, skip + 1, names => addExpectedFrom name ps ss skip names
  | _, _, _, names => names
termination_by structural ps => ps

def addExpectedAt (name : L → String) :
    List (Particle L) → List Progress → Nat → List String → List String
  | p :: _, s :: _, 0, names => addExpected name p s names
  | _ :: ps, _ :: ss, index + 1, names => addExpectedAt name ps ss index names
  | _, _, _, names => names
termination_by structural ps => ps

def addExpectedEach (name : L → String) :
    List (Particle L) → List Progress → List String → List String
  | p :: ps, s :: ss, names => addExpectedEach name ps ss (addExpected name p s names)
  | _, _, names => names
termination_by structural ps => ps

end

/-- The names of the leaves that could take a child now, each one once. -/
def expected (name : L → String) (p : Particle L) (s : Progress) : List String :=
  addExpected name p s []

/-! ## What is lacking -/

mutual

/-- Why the children may not end here, or `none` when they may. -/
def missing (name : L → String) : Particle L → Progress → Option Shortage
  | .leaf t o, s =>
    if satisfied (.leaf t o) s then none else some (.tooFew (name t) o s.count)
  | .group c ms o, s =>
    let within (cursor : Option Nat) (states : List Progress) : Option Shortage :=
      match c, cursor with
      | .sequence, _ => missingFrom name ms states (cursor.getD 0)
      | .choice, some index => missingAt name ms states index
      | .choice, none => some (.oneOf (addExpectedEach name ms states []))
      | .all, _ => missingFrom name ms states 0
    if satisfied (.group c ms o) s then none
    else
      match s.current with
      | none => within none (ms.map fun _ => fresh)
      | some (.mk cursor states) =>
        if satisfiedGroup c ms (.mk cursor states) then some (.tooFew c.label o s.count)
        else within cursor states
termination_by structural p => p

def missingFrom (name : L → String) :
    List (Particle L) → List Progress → Nat → Option Shortage
  | p :: ps, s :: ss, 0 =>
    match missing name p s with
    | some shortage => some shortage
    | none => missingFrom name ps ss 0
  | _ :: ps, _ :: ss, skip + 1 => missingFrom name ps ss skip
  | _, _, _ => none
termination_by structural ps => ps

def missingAt (name : L → String) :
    List (Particle L) → List Progress → Nat → Option Shortage
  | p :: _, s :: _, 0 => missing name p s
  | _ :: ps, _ :: ss, index + 1 => missingAt name ps ss index
  | _, _, _ => none
termination_by structural ps => ps

end

end Progress

end ScopedXml.Content
