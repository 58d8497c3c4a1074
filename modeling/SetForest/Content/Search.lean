import SetForest.Content.Basic

/-!
# Looking up keys

A content is increasing by key, so a key is found either by scanning from the
smallest key up to the first one that is not below it, or by halving the range
of positions that can hold it.  `position` scans short contents and halves long
ones.  Which of the two it does is a matter of speed alone.

`place` says where a key is or where it would have to be inserted, and the
updates of a content at one key are built on it.
-/

namespace SetForest

/-- Where a key stands in a content, or where it would have to be inserted. -/
inductive Place where
  | occupied (position : Nat)
  | vacant (position : Nat)
deriving DecidableEq, Repr

namespace Content

variable {K : Type} [Key K]

/-- Walk up to the first key that is not below the one sought. -/
def scan (key : K) : Content K → Option Nat
  | [] => none
  | first :: rest =>
    match compare first.key key with
    | .lt => (scan key rest).map (· + 1)
    | .eq => some 0
    | .gt => none

/-- Halve the range of `size` positions that starts at `base` until one is
left.  The key sought is at that position if it is in the range at all: the
upper half is kept whenever its first key is not above the one sought. -/
def narrow (elements : Array (Element K)) (key : K) (base size : Nat) : Nat :=
  if 1 < size then
    let middle := base + size / 2
    match elements[middle]? with
    | none => base
    | some element =>
      let kept := if compare element.key key = .gt then base else middle
      narrow elements key kept (size - size / 2)
  else base
termination_by size

/-- Find the place of a key by halving. -/
def place (content : Content K) (key : K) : Place :=
  let elements := content.toArray
  let base := narrow elements key 0 elements.size
  match elements[base]? with
  | none => .vacant 0
  | some element =>
    match compare element.key key with
    | .lt => .vacant (base + 1)
    | .eq => .occupied base
    | .gt => .vacant base

/-- The position of a key.  Contents with at most `threshold` elements are
scanned, longer ones are halved. -/
def position (content : Content K) (key : K) (threshold : Nat) : Option Nat :=
  if content.length ≤ threshold then scan key content
  else
    match content.place key with
    | .occupied position => some position
    | .vacant _ => none

/-- Put an element in the place of the one with its key, or insert it in order. -/
def put (content : Content K) (element : Element K) : Content K :=
  match content.place element.key with
  | .occupied position => content.set position element
  | .vacant position => content.insertIdx position element

end Content

end SetForest
