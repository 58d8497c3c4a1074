import SetForest.Content.Basic

namespace SetForest.Content

/-!
# Where a list departs from the order

The check of a content compares neighbours, from the front.  What it reports is the
first fault: everything up to the earlier of the two neighbours is a content, and the
later one has the same key or a smaller one.  A fault is described by cutting the list
between the two (`FaultAt`), and the check finds a fault exactly where there is one
(`violation?_eq_some_iff`).
-/

variable {K : Type} [Key K]

/-- A list is in order up to an element, and the next one does not follow it. -/
inductive FaultAt : Content K → Violation → Prop where
  | duplicateKey (before : Content K) (previous next : Element K) (after : Content K)
      (increasing : Increasing (before ++ [previous])) (sameKey : next.key = previous.key) :
      FaultAt (before ++ previous :: next :: after) (.duplicateKey (before.length + 1))
  | unsorted (before : Content K) (previous next : Element K) (after : Content K)
      (increasing : Increasing (before ++ [previous]))
      (smaller : compare next.key previous.key = .lt) :
      FaultAt (before ++ previous :: next :: after) (.unsorted (before.length + 1))

/-- The order is carried on by an element above the last one. -/
theorem increasing_concat {before : Content K} {previous next : Element K}
    (increasing : Increasing (before ++ [previous])) (above : previous.compareKeys next = .lt) :
    Increasing (before ++ [previous] ++ [next]) := by
  refine List.pairwise_append.mpr ⟨increasing, List.pairwise_singleton _ next, ?_⟩
  intro earlier member last isNext
  rw [List.mem_singleton.mp isNext]
  rcases List.mem_append.mp member with inBefore | isPrevious
  · have below : earlier.compareKeys previous = .lt :=
      (List.pairwise_append.mp increasing).2.2 earlier inBefore previous List.mem_cons_self
    exact Std.TransCmp.lt_trans below above
  · rw [List.mem_singleton.mp isPrevious]
    exact above

/-- What is found after an element that ends an increasing list is the first fault. -/
theorem faultAt_of_violationAfter? {before rest : Content K} {previous : Element K}
    {violation : Violation} (increasing : Increasing (before ++ [previous]))
    (found : violationAfter? previous (before.length + 1) rest = some violation) :
    FaultAt (before ++ previous :: rest) violation := by
  induction rest generalizing before previous with
  | nil => cases found
  | cons next rest ih =>
      rw [violationAfter?] at found
      cases order : previous.compareKeys next with
      | lt =>
          rw [order] at found
          have length : (before ++ [previous]).length = before.length + 1 := List.length_append
          rw [← length] at found
          have fault := ih (increasing_concat increasing order) found
          rwa [List.append_assoc] at fault
      | eq =>
          rw [order] at found
          cases found
          exact .duplicateKey before previous next rest increasing
            (Std.LawfulEqOrd.eq_of_compare order).symm
      | gt =>
          rw [order] at found
          cases found
          exact .unsorted before previous next rest increasing (Std.OrientedCmp.lt_of_gt order)

/-- The check steps over what is in order. -/
theorem violationAfter?_append {middle rest : Content K} {previous last : Element K}
    (increasing : Increasing (previous :: (middle ++ [last]))) (position : Nat) :
    violationAfter? previous position (middle ++ last :: rest) =
      violationAfter? last (position + middle.length + 1) rest := by
  induction middle generalizing previous position with
  | nil =>
      have above : previous.compareKeys last = .lt :=
        (List.pairwise_cons.mp increasing).1 last List.mem_cons_self
      rw [List.nil_append, violationAfter?, above]
      rfl
  | cons next middle ih =>
      have above : previous.compareKeys next = .lt :=
        (List.pairwise_cons.mp increasing).1 next List.mem_cons_self
      rw [List.cons_append, violationAfter?, above]
      dsimp only
      rw [ih (List.pairwise_cons.mp increasing).2, List.length_cons]
      congr 1
      omega

/-- The check goes up to the end of an increasing list, and on from there. -/
theorem violation?_append {before rest : Content K} {last : Element K}
    (increasing : Increasing (before ++ [last])) :
    violation? (before ++ last :: rest) = violationAfter? last (before.length + 1) rest := by
  cases before with
  | nil => rfl
  | cons first before =>
      rw [List.cons_append, violation?, violationAfter?_append increasing, List.length_cons]
      congr 1
      omega

/-- The check reports a fault if and only if it is the first one of the list. -/
theorem violation?_eq_some_iff (content : Content K) (violation : Violation) :
    content.violation? = some violation ↔ FaultAt content violation := by
  constructor
  · intro found
    cases content with
    | nil => cases found
    | cons first rest =>
        have single : Increasing ([] ++ [first]) := List.pairwise_singleton _ first
        exact faultAt_of_violationAfter? single found
  · intro fault
    cases fault with
    | duplicateKey before previous next after increasing sameKey =>
        have order : previous.compareKeys next = .eq := by
          rw [Element.compareKeys, sameKey, Std.ReflOrd.compare_self]
        rw [violation?_append increasing, violationAfter?, order]
    | unsorted before previous next after increasing smaller =>
        have order : previous.compareKeys next = .gt := Std.OrientedCmp.gt_of_lt smaller
        rw [violation?_append increasing, violationAfter?, order]

end SetForest.Content
