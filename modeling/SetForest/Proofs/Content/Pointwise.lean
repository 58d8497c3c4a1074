import SetForest.Proofs.Content.Alignment
import SetForest.Proofs.Content.Update

namespace SetForest

/-!
# Operations key by key

What a lattice operation makes of two contents is said for one key at a time.
`Operation.Joins` relates the elements that the operands and the result have
there.  A key of one operand alone is kept or left out.  For a key of both, the
children of the three elements are related by whatever relation the child
forests are known to keep, so that the notion is about one level only.

`joins_of_resolved` ties this to the walk: once the calls of an alignment are
answered, the resulting content is increasing and joins its operands at every
key.
-/

variable {K : Type} {n : Nat}

namespace Element

/-- The index that an element has in the child forest of a number.  The empty
set stands in where there is none, as in every reading. -/
def child (element : Element K) (number : Nat) : Index :=
  element.children.getD number Index.empty

theorem child_eq_of_getElem? {element : Element K} {number : Nat} {index : Index}
    (here : element.children[number]? = some index) : element.child number = index := by
  rw [child, List.getD_eq_getElem?_getD, here]
  rfl

/-- An element is its key together with its children. -/
theorem ext_child {first second : Element K} (key : first.key = second.key)
    (arity : first.children.length = second.children.length)
    (children : ∀ number, number < first.children.length →
      first.child number = second.child number) : first = second := by
  rcases first with ⟨firstKey, firstChildren⟩
  rcases second with ⟨secondKey, secondChildren⟩
  obtain rfl : firstKey = secondKey := key
  refine congrArg (Element.mk firstKey) (List.ext_getElem arity ?_)
  intro number inFirst inSecond
  have same := children number inFirst
  rw [child_eq_of_getElem? (List.getElem?_eq_getElem inFirst),
    child_eq_of_getElem? (List.getElem?_eq_getElem inSecond)] at same
  exact same

/-- Without children, an element is its key. -/
theorem eq_of_flat {first second : Element K} (key : first.key = second.key)
    (firstFlat : first.children.length = 0) (secondFlat : second.children.length = 0) :
    first = second := by
  apply ext_child key (firstFlat.trans secondFlat.symm)
  intro number inside
  rw [firstFlat] at inside
  exact absurd inside (Nat.not_lt_zero number)

/-- The children of an element are those of two others, combined one by one. -/
structure Combined (children : List (Fin n)) (holds : Fin n → Index → Index → Index → Prop)
    (first second result : Element K) : Prop where
  key : result.key = first.key
  arity : result.children.length = children.length
  child : ∀ number child, children[number]? = some child →
    holds child (first.child number) (second.child number) (result.child number)

end Element

/-- What an operation leaves at a key, by the elements that its operands have
there.  Without child forests a difference has nothing to keep of a shared key. -/
def Operation.Joins (operation : Operation) (children : List (Fin n))
    (holds : Fin n → Index → Index → Index → Prop) :
    Option (Element K) → Option (Element K) → Option (Element K) → Prop
  | some first, some second, result =>
    if operation = .difference ∧ children = [] then result = none
    else ∃ element, result = some element ∧ Element.Combined children holds first second element
  | some first, none, result => result = if operation = .intersection then none else some first
  | none, some second, result => result = if operation = .union then some second else none
  | none, none, result => result = none

namespace Cell

variable {holds : Fin n → Index → Index → Index → Prop}

/-- What a cell becomes, if each of its calls is answered by an index that
`holds` relates to its operands. -/
def Resolves (holds : Fin n → Index → Index → Index → Prop) : Cell K n → Element K → Prop
  | kept element, result => result = element
  | joined key calls, result =>
    result.key = key ∧
      List.Forall₂ (fun call index => holds call.1 call.2.left call.2.right index)
        calls result.children

/-- The calls that a cell waits for. -/
def calls : Cell K n → List (Fin n × Operands)
  | kept _ => []
  | joined _ calls => calls

/-- The call for a child forest is about the two indices there. -/
theorem mem_calls_join {children : List (Fin n)} {first second : Element K}
    {call : Fin n × Operands} (called : call ∈ (join children first second).calls) :
    ∃ number, children[number]? = some call.1 ∧
      call.2 = ⟨first.child number, second.child number⟩ := by
  rcases List.mem_iff_getElem?.mp called with ⟨number, found⟩
  rcases List.getElem?_zip_eq_some.mp found with ⟨atChild, paired⟩
  rcases List.getElem?_zipWith_eq_some.mp paired with ⟨x, y, inFirst, inSecond, same⟩
  refine ⟨number, atChild, ?_⟩
  rw [← same, Element.child_eq_of_getElem? inFirst, Element.child_eq_of_getElem? inSecond]

/-- A cell for two elements asks about all their children. -/
theorem mem_calls_of_getElem? {children : List (Fin n)} {first second : Element K} {number : Nat}
    {child : Fin n} (atChild : children[number]? = some child)
    (inFirst : number < first.children.length) (inSecond : number < second.children.length) :
    (child, ⟨first.child number, second.child number⟩) ∈ (join children first second).calls := by
  refine List.mem_of_getElem? (List.getElem?_zip_eq_some.mpr ⟨atChild,
    List.getElem?_zipWith_eq_some.mpr ⟨first.children[number], second.children[number],
      List.getElem?_eq_getElem inFirst, List.getElem?_eq_getElem inSecond, ?_⟩⟩)
  rw [Element.child_eq_of_getElem? (List.getElem?_eq_getElem inFirst),
    Element.child_eq_of_getElem? (List.getElem?_eq_getElem inSecond)]

/-- What holds of all answered calls of a cell holds of its calls. -/
theorem Resolves.forall_calls {known : Fin n → Index → Index → Prop} {cell : Cell K n}
    {element : Element K} (resolves : cell.Resolves (fun child x y _ => known child x y) element) :
    ∀ call ∈ cell.calls, known call.1 call.2.left call.2.right := by
  cases cell with
  | kept own => exact nofun
  | joined key calls =>
      exact ((List.forall₂_and_left _ _).mp (resolves.2.imp fun _ _ here => ⟨here, trivial⟩)).1

theorem Resolves.key_eq {cell : Cell K n} {element : Element K}
    (resolves : cell.Resolves holds element) : element.key = cell.key := by
  cases cell with
  | kept own => exact congrArg Element.key resolves
  | joined key calls => exact resolves.1

/-- A cell for two elements becomes their combination. -/
theorem combined_of_resolves {children : List (Fin n)} {first second element : Element K}
    (firstArity : first.children.length = children.length)
    (secondArity : second.children.length = children.length)
    (resolves : (join children first second).Resolves holds element) :
    Element.Combined children holds first second element := by
  rcases resolves with ⟨key, answered⟩
  have arity : element.children.length = children.length := by
    rw [← answered.length_eq, List.length_zip, List.length_zipWith, firstArity, secondArity,
      Nat.min_self, Nat.min_self]
  refine ⟨key, arity, ?_⟩
  intro number child atChild
  rcases List.getElem?_eq_some_iff.mp atChild with ⟨inChildren, rfl⟩
  have inFirst : number < first.children.length := firstArity ▸ inChildren
  have inSecond : number < second.children.length := secondArity ▸ inChildren
  have inResult : number < element.children.length := arity ▸ inChildren
  have holdsHere := answered.get (answered.length_eq ▸ inResult) inResult
  rw [Element.child_eq_of_getElem? (List.getElem?_eq_getElem inFirst),
    Element.child_eq_of_getElem? (List.getElem?_eq_getElem inSecond),
    Element.child_eq_of_getElem? (List.getElem?_eq_getElem inResult)]
  simpa using holdsHere

end Cell

namespace Content

variable {operation : Operation} {children : List (Fin n)}
  {holds : Fin n → Index → Index → Index → Prop}

/-- The cell for two elements becomes what the operation leaves of them. -/
theorem joins_of_rel {first second result : Option (Element K)}
    (firstArity : ∀ element, first = some element → element.children.length = children.length)
    (secondArity : ∀ element, second = some element → element.children.length = children.length)
    (rel : Option.Rel (Cell.Resolves holds) (cellAt operation children first second) result) :
    operation.Joins children holds first second result := by
  cases first with
  | none =>
      cases second with
      | none =>
          cases rel
          rfl
      | some second =>
          simp only [cellAt] at rel
          simp only [Operation.Joins]
          by_cases isUnion : operation = .union
          · rw [if_pos isUnion] at rel ⊢
            cases rel with
            | some resolves => exact congrArg some resolves
          · rw [if_neg isUnion] at rel ⊢
            cases rel
            rfl
  | some first =>
      cases second with
      | none =>
          simp only [cellAt] at rel
          simp only [Operation.Joins]
          by_cases isIntersection : operation = .intersection
          · rw [if_pos isIntersection] at rel ⊢
            cases rel
            rfl
          · rw [if_neg isIntersection] at rel ⊢
            cases rel with
            | some resolves => exact congrArg some resolves
      | some second =>
          simp only [cellAt] at rel
          simp only [Operation.Joins]
          by_cases dropped : operation = .difference ∧ children = []
          · rw [if_pos dropped] at rel ⊢
            cases rel
            rfl
          · rw [if_neg dropped] at rel ⊢
            cases rel with
            | some resolves =>
                exact ⟨_, rfl, Cell.combined_of_resolves (firstArity first rfl)
                  (secondArity second rfl) resolves⟩

/-- What an operation leaves is the element of one operand, or combines those of both. -/
theorem origin_of_joins {first second : Option (Element K)} {element : Element K}
    (joins : operation.Joins children holds first second (some element)) :
    first = some element ∨ second = some element ∨ ∃ one other, first = some one ∧
      second = some other ∧ Element.Combined children holds one other element := by
  cases first with
  | none =>
      cases second with
      | none => cases joins
      | some second =>
          simp only [Operation.Joins] at joins
          split at joins <;> cases joins
          exact Or.inr (Or.inl rfl)
  | some first =>
      cases second with
      | none =>
          simp only [Operation.Joins] at joins
          split at joins <;> cases joins
          exact Or.inl rfl
      | some second =>
          simp only [Operation.Joins] at joins
          split at joins
          · cases joins
          · rcases joins with ⟨result, same, combined⟩
            cases same
            exact Or.inr (Or.inr ⟨first, second, rfl, rfl, combined⟩)

/-- What an operation leaves has the arity of its operands. -/
theorem arity_of_joins {first second : Option (Element K)} {element : Element K}
    (firstArity : ∀ element, first = some element → element.children.length = children.length)
    (secondArity : ∀ element, second = some element → element.children.length = children.length)
    (joins : operation.Joins children holds first second (some element)) :
    element.children.length = children.length := by
  rcases origin_of_joins joins with inFirst | inSecond | ⟨one, other, -, -, combined⟩
  · exact firstArity element inFirst
  · exact secondArity element inSecond
  · exact combined.arity

variable [Key K] {left right content : Content K} {cells : List (Cell K n)}

/-- Every element has as many children as the forest has child forests. -/
def HasArity (content : Content K) (arity : Nat) : Prop :=
  ∀ element ∈ content, element.children.length = arity

/-- The resolved content has the keys of its cells. -/
theorem increasing_of_resolved (resolved : List.Forall₂ (Cell.Resolves holds) cells content)
    (increasing : Keyed.Increasing Cell.key cells) : content.Increasing := by
  have keys : content.map Element.key = cells.map Cell.key := by
    induction resolved with
    | nil => rfl
    | cons resolves _ ih =>
        rw [List.map_cons, List.map_cons, resolves.key_eq, ih increasing.tail]
  have ordered : (cells.map Cell.key).Pairwise (fun first second => compare first second = .lt) :=
    List.pairwise_map.mpr increasing
  rw [← keys] at ordered
  exact List.pairwise_map.mp ordered

/-- The element at a key is what the cell at that key became. -/
theorem rel_find?_of_resolved (resolved : List.Forall₂ (Cell.Resolves holds) cells content)
    (key : K) :
    Option.Rel (Cell.Resolves holds) (Keyed.find? Cell.key key cells) (content.find? key) := by
  induction resolved with
  | nil => exact Option.Rel.none
  | @cons cell element cells content resolves _ ih =>
      by_cases here : cell.key = key
      · have found : Content.find? (element :: content) key = some element :=
          Keyed.find?_cons_self (resolves.key_eq.trans here)
        rw [Keyed.find?_cons_self here, found]
        exact Option.Rel.some resolves
      · have skipped : Content.find? (element :: content) key = Content.find? content key :=
          Keyed.find?_cons_of_ne (fun same => here (resolves.key_eq.symm.trans same))
        rw [Keyed.find?_cons_of_ne here, skipped]
        exact ih

theorem HasArity.of_find? {arity : Nat} (hasArity : content.HasArity arity) {key : K}
    {element : Element K} (found : content.find? key = some element) :
    element.children.length = arity :=
  hasArity element (mem_of_find? found)

/-- The calls of an alignment are about the children of two elements with one key. -/
theorem mem_calls_align (leftIncreasing : left.Increasing) (rightIncreasing : right.Increasing)
    {cell : Cell K n} (member : cell ∈ align operation children left right)
    {call : Fin n × Operands} (called : call ∈ cell.calls) :
    ∃ first ∈ left, ∃ second ∈ right, first.key = second.key ∧
      ∃ number, children[number]? = some call.1 ∧
        call.2 = ⟨first.child number, second.child number⟩ := by
  have aligned := aligned_align operation children leftIncreasing rightIncreasing
  have here := aligned.increasing.find?_of_mem member
  rw [aligned.find?_eq cell.key] at here
  cases inLeft : left.find? cell.key with
  | none =>
      cases inRight : right.find? cell.key with
      | none =>
          rw [inLeft, inRight] at here
          cases here
      | some second =>
          rw [inLeft, inRight, cellAt] at here
          split at here <;> cases here
          cases called
  | some first =>
      cases inRight : right.find? cell.key with
      | none =>
          rw [inLeft, inRight, cellAt] at here
          split at here <;> cases here
          cases called
      | some second =>
          have sameKey := (key_of_find? inLeft).trans (key_of_find? inRight).symm
          rw [inLeft, inRight, cellAt] at here
          split at here <;> cases here
          exact ⟨first, mem_of_find? inLeft, second, mem_of_find? inRight, sameKey,
            Cell.mem_calls_join called⟩

/-- All children of two elements with one key are asked about. -/
theorem exists_calls_of_align (operation : Operation) (leftIncreasing : left.Increasing)
    (rightIncreasing : right.Increasing) (leftArity : left.HasArity children.length)
    (rightArity : right.HasArity children.length) {first second : Element K} (inLeft : first ∈ left)
    (inRight : second ∈ right) (sameKey : first.key = second.key) {number : Nat} {child : Fin n}
    (atChild : children[number]? = some child) :
    ∃ cell ∈ align operation children left right,
      (child, ⟨first.child number, second.child number⟩) ∈ cell.calls := by
  have aligned := aligned_align operation children leftIncreasing rightIncreasing
  have here := aligned.find?_eq first.key
  have notFlat : ¬(operation = .difference ∧ children = []) := by
    rintro ⟨-, rfl⟩
    cases atChild
  rw [(find?_eq_some_iff leftIncreasing).mpr ⟨inLeft, rfl⟩,
    (find?_eq_some_iff rightIncreasing).mpr ⟨inRight, sameKey.symm⟩, cellAt, if_neg notFlat] at here
  have inside := (List.getElem?_eq_some_iff.mp atChild).1
  exact ⟨_, Keyed.mem_of_find? here, Cell.mem_calls_of_getElem? atChild
    (leftArity first inLeft ▸ inside) (rightArity second inRight ▸ inside)⟩

/-- Once the calls of an alignment are answered, what has come out is a content
of the forest, and at every key it is what the operation leaves there. -/
theorem joins_of_resolved (leftIncreasing : left.Increasing) (rightIncreasing : right.Increasing)
    (leftArity : left.HasArity children.length) (rightArity : right.HasArity children.length)
    (resolved : List.Forall₂ (Cell.Resolves holds) (align operation children left right) content) :
    content.Increasing ∧ content.HasArity children.length ∧
      ∀ key, operation.Joins children holds (left.find? key) (right.find? key)
        (content.find? key) := by
  have aligned := aligned_align operation children leftIncreasing rightIncreasing
  have increasing := increasing_of_resolved resolved aligned.increasing
  have joins : ∀ key, operation.Joins children holds (left.find? key) (right.find? key)
      (content.find? key) := by
    intro key
    have rel := rel_find?_of_resolved resolved key
    rw [aligned.find?_eq key] at rel
    exact joins_of_rel (fun _ => leftArity.of_find?) (fun _ => rightArity.of_find?) rel
  refine ⟨increasing, ?_, joins⟩
  intro element member
  have here := joins element.key
  rw [(find?_eq_some_iff increasing).mpr ⟨member, rfl⟩] at here
  exact arity_of_joins (fun _ => leftArity.of_find?) (fun _ => rightArity.of_find?) here

end Content

end SetForest
