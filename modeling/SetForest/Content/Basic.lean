import SetForest.Element
import SetForest.Error

/-!
# Contents of sets

The content of a set is the list of its elements, strictly increasing by key.
This is the canonical form: two sets are the same exactly when their lists are.

`violation?` finds the first place where a list departs from that form, and
finds none exactly on the increasing lists (`violation?_eq_none_iff`).  `prepare`
brings an arbitrary collection as close to it as sorting can.  It cannot choose
between two elements that share a key and differ in their children, so its
result is still subject to `violation?`.
-/

namespace SetForest

/-- The elements of a set, in the order of their keys. -/
abbrev Content (K : Type) := List (Element K)

namespace Content

variable {K : Type} [Key K]

/-- Every element has a smaller key than all that follow it. -/
def Increasing (content : Content K) : Prop :=
  content.Pairwise (fun first second => first.compareKeys second = .lt)

instance (content : Content K) : Decidable content.Increasing :=
  inferInstanceAs (Decidable (content.Pairwise _))

/-- The first violation in a list that continues `previous` at `position`. -/
def violationAfter? (previous : Element K) (position : Nat) : Content K → Option Violation
  | [] => none
  | next :: rest =>
    match previous.compareKeys next with
    | .lt => violationAfter? next (position + 1) rest
    | .eq => some (.duplicateKey position)
    | .gt => some (.unsorted position)

/-- The first element whose key is not above that of its predecessor. -/
def violation? : Content K → Option Violation
  | [] => none
  | first :: rest => violationAfter? first 1 rest

/-- The elements of a collection by key and then by child indices, each once. -/
def prepare (elements : List (Element K)) : Content K :=
  Key.distinct elements

/-- The elements between braces, each followed by a blank. -/
def text [ToString K] (content : Content K) : String :=
  "\x7b " ++ String.join (content.map (fun element => element.text ++ " ")) ++ "\x7d"

private theorem violationAfter?_eq_none_iff (previous : Element K) (position : Nat)
    (content : Content K) :
    violationAfter? previous position content = none ↔ Increasing (previous :: content) := by
  induction content generalizing previous position with
  | nil => simp [violationAfter?, Increasing]
  | cons next rest ih =>
    unfold violationAfter?
    split
    next below =>
      rw [ih]
      simp only [Increasing, List.pairwise_cons] at *
      constructor
      · rintro ⟨aboveNext, increasing⟩
        refine ⟨?_, aboveNext, increasing⟩
        rintro element (_ | ⟨_, later⟩)
        · exact below
        · exact Std.TransCmp.lt_trans below (aboveNext element later)
      · exact And.right
    all_goals
      next tie =>
        simp [Increasing, tie]

/-- The check accepts exactly the strictly increasing lists. -/
theorem violation?_eq_none_iff (content : Content K) :
    violation? content = none ↔ content.Increasing := by
  cases content with
  | nil => simp [violation?, Increasing]
  | cons first rest => exact violationAfter?_eq_none_iff first 1 rest

/-- Preparing a collection neither loses nor adds an element. -/
theorem mem_prepare (element : Element K) (elements : List (Element K)) :
    element ∈ prepare elements ↔ element ∈ elements :=
  Key.mem_distinct element elements

end Content

end SetForest
