import SetForest.Forest.Basic

/-!
# Aligning two contents

A lattice operation walks through both of its operands in the order of their
keys.  A key that only one operand has is decided at once: it is kept or left
out.  A key that both have is kept too, and the child indices of its two
elements are to be combined by the same operation in each child forest.  Without
child forests there is nothing to combine, and a difference drops the key.

`align` does the walk.  Its result is a list of cells, in which the work that is
left to the child forests stands as a list of calls.
-/

namespace SetForest

/-- One element of a result: settled, or waiting for calls to child forests. -/
inductive Cell (K : Type) (n : Nat) where
  | kept (element : Element K)
  | joined (key : K) (calls : List (Fin n × Operands))

namespace Cell

variable {K : Type} {n : Nat}

/-- The cell for two elements with one key: a call for every child forest. -/
def join (children : List (Fin n)) (first second : Element K) : Cell K n :=
  let pairs := first.children.zipWith Operands.mk second.children
  .joined first.key (children.zip pairs)

/-- Make the calls of a cell from left to right. -/
def resolve {m : Type → Type} [Monad m] (call : Fin n → Index → Index → m Index) :
    Cell K n → m (Element K)
  | kept element => return element
  | joined key calls => do
    let indices ← calls.mapM fun (child, pair) => call child pair.left pair.right
    return ⟨key, indices⟩

end Cell

namespace Content

variable {K : Type} [Key K] {n : Nat}

/-- The cells for one element on the left and the contents that follow it, where
`later` aligns what comes after that element. -/
def alignAfter (operation : Operation) (children : List (Fin n)) (first : Element K)
    (rest : Content K) (later : Content K → List (Cell K n)) : Content K → List (Cell K n)
  | [] => if operation = .intersection then [] else (first :: rest).map .kept
  | second :: right =>
    match first.compareKeys second with
    | .lt => (if operation = .intersection then [] else [.kept first]) ++ later (second :: right)
    | .gt =>
      (if operation = .union then [.kept second] else []) ++
        alignAfter operation children first rest later right
    | .eq =>
      (if operation = .difference ∧ children = [] then [] else [.join children first second]) ++
        later right

/-- The cells of the result of an operation, in the order of their keys. -/
def align (operation : Operation) (children : List (Fin n)) :
    Content K → Content K → List (Cell K n)
  | [] => fun right => if operation = .union then right.map .kept else []
  | first :: left => alignAfter operation children first left (align operation children left)

end Content

end SetForest
