import SetForest.Forest.Read
import SetForest.Proofs.Content.Search

namespace SetForest.Forest

/-!
# What is read off a set

The questions about a single set are answered from its content.  Which of the two searches
is made for a key makes no difference, as long as the content is in order.
-/

variable {K : Type} [Key K] {n : Nat} {forest : Forest K n} {index : Index} {content : Content K}

theorem sizeOf_eq (read : forest.content index = .ok content) :
    forest.sizeOf index = .ok content.length := by
  rw [sizeOf, read]
  rfl

theorem findKey_eq (increasing : content.Increasing) (read : forest.content index = .ok content)
    (key : K) : forest.findKey index key = .ok (content.find? key) := by
  rw [findKey, read, ← Content.bind_position increasing key forest.config.searchThreshold]
  rfl

theorem contains_eq (increasing : content.Increasing) (read : forest.content index = .ok content)
    (key : K) : forest.contains index key = .ok (content.find? key).isSome := by
  have placed := Content.position_eq_some_iff increasing key forest.config.searchThreshold
  rw [contains, read, ← Content.bind_position increasing key forest.config.searchThreshold]
  cases found : content.position key forest.config.searchThreshold with
  | none => exact congrArg Except.ok (congrArg Option.isSome found)
  | some position =>
      rcases (placed position).mp found with ⟨element, here, -⟩
      rw [Option.bind_some, here]
      exact congrArg Except.ok (congrArg Option.isSome found)

end SetForest.Forest
