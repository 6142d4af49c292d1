/-!
# File paths

Paths are texts with `/` between their parts, and they are shown as they were put together: `join`
and `parent?` work on the text and resolve nothing. A part that is empty or `.` counts for nothing,
except a `.` at the very start.

* `join`, `parent?`: the two ways in which a path is made from others.
* `components`: what a path consists of; two paths are the same when these agree.
-/

namespace ScopedXml.File

/-- A path as text. -/
structure Path where
  text : String
deriving DecidableEq

namespace Path

def isAbsolute (p : Path) : Bool := p.text.startsWith "/"

/-- Go from `base` along `path`; an absolute `path` leaves the base behind. -/
def join (base path : Path) : Path :=
  if path.isAbsolute || base.text.isEmpty then path
  else if base.text.endsWith "/" then ⟨base.text ++ path.text⟩
  else ⟨base.text ++ "/" ++ path.text⟩

/-- The parts of a text between its slashes. -/
def partsOf : List Char → List (List Char)
  | [] => [[]]
  | c :: cs =>
    if c = '/' then [] :: partsOf cs
    else
      match partsOf cs with
      | [] => [[c]]
      | part :: rest => (c :: part) :: rest

def parts (p : Path) : List String := (partsOf p.text.toList).map String.ofList

/-- How many characters at the start, a root slash or a leading `.`, are never dropped as a
part. -/
def fixedLength (cs : List Char) : Nat :=
  match cs with
  | '/' :: _ => 1
  | ['.'] => 1
  | '.' :: '/' :: _ => 1
  | _ => 0

/-- Drop the parts at the end that count for nothing. `rev` is the body of the path in reverse. -/
def dropIdle (rev : List Char) : List Char :=
  match rev with
  | [] => []
  | ['.'] => []
  | '/' :: rest => dropIdle rest
  | '.' :: '/' :: rest => dropIdle rest
  | _ => rev

/-- The path without its last part that counts, if it has one. -/
def parent? (p : Path) : Option Path :=
  let cs := p.text.toList
  let fixed := cs.take (fixedLength cs)
  match dropIdle (cs.drop (fixedLength cs)).reverse with
  | [] => if fixed = ['.'] then some ⟨""⟩ else none
  | rev =>
    let shorter := dropIdle ((rev.dropWhile (· != '/')).drop 1)
    some ⟨String.ofList (fixed ++ shorter.reverse)⟩

/-- The parts that count, behind a mark for a root or a leading `.`. -/
def components (p : Path) : List String :=
  let cs := p.text.toList
  let fixed := cs.take (fixedLength cs)
  let idle (s : String) : Bool := s.isEmpty || s == "."
  (if fixed.isEmpty then [] else [String.ofList fixed])
    ++ ((partsOf (cs.drop fixed.length)).map String.ofList).filter (!idle ·)

/-- Whether two paths have the same components. -/
def same (p q : Path) : Bool := p.components == q.components

end Path

end ScopedXml.File
