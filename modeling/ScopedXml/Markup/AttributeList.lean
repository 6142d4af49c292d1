import ScopedXml.Text.WhiteSpace

/-!
# The attributes written in a tag

Blanks, a key, `=`, and a value in quotes: `readAttributes` reads the attributes of a tag one by one
and stops at the first mistake. A key ends at `=` or at a blank, so it may hold any other byte;
blanks between attributes may be missing. Offsets count from the start of the tag's content.
-/

namespace ScopedXml.Markup

open Text

/-- An attribute as written: where its key begins, the key and the text between the quotes. -/
structure RawAttribute where
  start : Nat
  key : List UInt8
  value : List UInt8
deriving DecidableEq

/-- A mistake in a list of attributes, with its offset. -/
inductive AttributeFault
  | noEquals (offset : Nat)
  | noValue (offset : Nat)
  | noQuote (offset : Nat)
  | unclosedQuote (offset : Nat) (quote : Char)
  | duplicate (offset : Nat) (previous : Nat)
deriving DecidableEq

def AttributeFault.message : AttributeFault → String
  | noEquals p => s!"position {p}: attribute key must be directly followed by `=` or space"
  | noValue p => s!"position {p}: `=` must be followed by an attribute value"
  | noQuote p => s!"position {p}: attribute value must be enclosed in `\"` or `'`"
  | unclosedQuote p q =>
    s!"position {p}: missing closing quote `" ++ q.toString ++ "` in attribute value"
  | duplicate p q => s!"position {p}: duplicated attribute, previous declaration at position {q}"

/-- The bytes from the first on that is no blank, with the offset of that byte. -/
def skipBlanks (offset : Nat) (bytes : List UInt8) : Nat × List UInt8 :=
  (offset + (bytes.takeWhile isMarkupBlank).length, bytes.dropWhile isMarkupBlank)

theorem length_skipBlanks_le (offset : Nat) (bytes : List UInt8) :
    (skipBlanks offset bytes).2.length ≤ bytes.length :=
  (List.dropWhile_sublist _).length_le

/-- Behind a key: the `=` that has to come, and what follows it. -/
def afterKey (total offset : Nat) (bytes : List UInt8) :
    Except AttributeFault (Nat × List UInt8) :=
  match skipBlanks offset bytes with
  | (p, b :: rest) => if b = 61 then .ok (p + 1, rest) else .error (.noEquals p)
  | (_, []) => .error (.noEquals total)

/-- Behind `=`: the value in its quotes, and what follows it. -/
def quotedValue (total offset : Nat) (bytes : List UInt8) :
    Except AttributeFault (List UInt8 × Nat × List UInt8) :=
  match skipBlanks offset bytes with
  | (_, []) => .error (.noValue total)
  | (p, q :: rest) =>
    if q = 34 || q = 39 then
      match rest.dropWhile (· != q) with
      | [] => .error (.unclosedQuote total (Char.ofNat q.toNat))
      | _ :: more =>
        let value := rest.takeWhile (· != q)
        .ok (value, p + value.length + 2, more)
    else .error (.noQuote p)

theorem length_afterKey_lt {total offset p : Nat} {bytes rest : List UInt8}
    (h : afterKey total offset bytes = .ok (p, rest)) : rest.length < bytes.length := by
  have hle := length_skipBlanks_le offset bytes
  unfold afterKey at h
  split at h
  · next heq =>
    rw [heq] at hle
    split at h
    · cases h
      simp only [List.length_cons] at hle
      omega
    · cases h
  · cases h

theorem length_quotedValue_lt {total offset p : Nat} {bytes value rest : List UInt8}
    (h : quotedValue total offset bytes = .ok (value, p, rest)) :
    rest.length < bytes.length := by
  have hle := length_skipBlanks_le offset bytes
  unfold quotedValue at h
  split at h
  · cases h
  · next _ q tail heq =>
    rw [heq] at hle
    split at h
    · have hdrop := (List.dropWhile_sublist (l := tail) (· != q)).length_le
      split at h
      · cases h
      · next heq' =>
        cases h
        rw [heq'] at hdrop
        simp only [List.length_cons] at hle hdrop
        omega
    · cases h

/-- The attributes from `offset` on, up to the end or the first mistake. `seen` holds the earlier
ones when keys must be distinct, and is `none` when they need not be. -/
def readAttributesFrom (total : Nat) (seen : Option (List RawAttribute)) (offset : Nat)
    (bytes : List UInt8) : List RawAttribute × Option AttributeFault :=
  match _hskip : skipBlanks offset bytes with
  | (_, []) => ([], none)
  | (start, first :: rest) =>
    let more := rest.takeWhile fun b => b != 61 && !isMarkupBlank b
    let key := first :: more
    match _hkey : afterKey total (start + key.length) (rest.drop more.length) with
    | .error fault => ([], some fault)
    | .ok (valueOffset, tail) =>
      match (seen.getD []).find? (·.key == key) with
      | some previous => ([], some (.duplicate start previous.start))
      | none =>
        match _hvalue : quotedValue total valueOffset tail with
        | .error fault => ([], some fault)
        | .ok (value, next, remaining) =>
          let raw : RawAttribute := ⟨start, key, value⟩
          let (others, fault) :=
            readAttributesFrom total (seen.map (· ++ [raw])) next remaining
          (raw :: others, fault)
termination_by bytes.length
decreasing_by
  have h1 := length_skipBlanks_le offset bytes
  have h2 := length_afterKey_lt _hkey
  have h3 := length_quotedValue_lt _hvalue
  rw [_hskip] at h1
  simp only [List.length_cons, List.length_drop] at h1 h2
  omega

/-- The attributes of a tag, behind a name of `nameLength` bytes; their keys must be distinct. -/
def readAttributes (content : List UInt8) (nameLength : Nat) :
    List RawAttribute × Option AttributeFault :=
  readAttributesFrom content.length (some []) nameLength (content.drop nameLength)

end ScopedXml.Markup
