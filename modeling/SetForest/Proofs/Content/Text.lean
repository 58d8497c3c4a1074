import SetForest.Content.Basic
import SetForest.Proofs.Text.Delimited

namespace SetForest

/-!
# The text of a set of integers

The text of a set has its elements between braces, and the text of an element has its child
indices between brackets.  Where the keys are integers, all the marks in between are
characters that are in no number.  So every part of the text shows where it ends, and two
sets have the same text only if they are the same list.

This asks neither for an order of the elements nor for a common number of children.
-/

/-- Keys that are integers of some kind, and are shown as such. -/
class IntegerKey (K : Type) extends Key K, ToString K where
  value : K → Int
  value_injective : ∀ first second, value first = value second → first = second
  toString_eq : ∀ key, toString key = ToString.toString (value key)

instance : IntegerKey Nat where
  value := Int.ofNat
  value_injective _ _ := Int.ofNat.inj
  toString_eq _ := rfl

instance : IntegerKey Int where
  value := id
  value_injective _ _ := id
  toString_eq _ := rfl

instance : IntegerKey Int64 where
  value := Int64.toInt
  value_injective _ _ := Int64.toInt_inj.mp
  toString_eq _ := rfl

open Text (SelfDelimiting Words isIntegerChar)

variable {K : Type} [IntegerKey K]

namespace IntegerKey

/-- Keys are written as words, as integers are. -/
theorem words : Words (fun key : K => (toString key).toList) isIntegerChar := by
  have written : (fun key : K => (toString key).toList) =
      fun key => (toString (value key)).toList :=
    funext fun key => congrArg String.toList (toString_eq key)
  rw [written]
  exact Text.words_integer.comp value_injective

end IntegerKey

namespace Element

/-- The characters of an element with children. -/
theorem toList_text_cons (key : K) (child : Index) (children : List Index) :
    (Element.mk key (child :: children)).text.toList =
      '(' :: ((toString key).toList ++ ' ' :: '-' :: '>' :: ' ' :: '[' ::
        ([',', ' '].intercalate ((child :: children).map fun child => (toString child).toList) ++
          [']', ')'])) := by
  change (("(" ++ toString key ++ " -> [") ++
    ", ".intercalate ((child :: children).map toString) ++ "])").toList = _
  simp only [String.toList_append, String.toList_intercalate, List.map_map, List.append_assoc]
  rfl

/-- Whatever follows an element is preceded by a blank. -/
def write (element : Element K) : List Char :=
  (element.text ++ " ").toList

theorem write_append (element : Element K) (rest : List Char) :
    element.write ++ rest = element.text.toList ++ ' ' :: rest := by
  simp [write, String.toList_append]

/-- An element followed by a blank shows where it ends. -/
theorem selfDelimiting_write : SelfDelimiting (write (K := K)) := by
  have keys : Words (fun key : K => (toString key).toList) isIntegerChar := IntegerKey.words
  have indices : Words (fun child : Index => (toString child).toList) isIntegerChar :=
    IntegerKey.words
  rintro ⟨key, children⟩ ⟨key', children'⟩ rest rest' same
  rw [write_append, write_append] at same
  cases children with
  | nil =>
      cases children' with
      | nil =>
          rcases keys.eq_of_stopped rfl rfl same with ⟨rfl, -, sameRest⟩
          exact ⟨rfl, sameRest⟩
      | cons child' children' =>
          rw [toList_text_cons] at same
          exact absurd same (keys.ne_of_stopped rfl rfl (by decide) key _ _)
  | cons child children =>
      cases children' with
      | nil =>
          rw [toList_text_cons] at same
          exact absurd same.symm (keys.ne_of_stopped rfl rfl (by decide) key' _ _)
      | cons child' children' =>
          simp only [toList_text_cons, List.cons_append, List.append_assoc, List.cons.injEq,
            true_and] at same
          rcases keys.eq_of_stopped rfl rfl same with ⟨rfl, -, sameList⟩
          simp only [List.cons.injEq, true_and, List.nil_append] at sameList
          rcases indices.eq_of_intercalate rfl rfl (by decide) (List.cons_ne_nil _ _)
            (List.cons_ne_nil _ _) sameList with ⟨sameChildren, sameRest⟩
          simp only [List.cons.injEq, true_and] at sameRest
          exact ⟨congrArg (Element.mk key) sameChildren, sameRest⟩

/-- No element begins with the brace that closes a set. -/
theorem write_ne (element : Element K) (rest rest' : List Char) :
    element.write ++ rest ≠ '\x7d' :: rest' := by
  have keys : Words (fun key : K => (toString key).toList) isIntegerChar := IntegerKey.words
  rcases element with ⟨key, children⟩
  rw [write_append]
  cases children with
  | nil => exact keys.ne_of_stopped rfl rfl (by decide) key _ _
  | cons child children =>
      rw [toList_text_cons]
      intro same
      exact absurd (List.cons.inj same).1 (by decide)

end Element

namespace Content

/-- The characters of a set. -/
theorem toList_text (content : Content K) :
    content.text.toList =
      '\x7b' :: ' ' :: (content.flatMap Element.write ++ ['\x7d']) := by
  rw [text, String.toList_append, String.toList_append, String.toList_join, List.flatMap_map]
  rfl

/-- Two sets have the same text if and only if they are the same list. -/
theorem text_eq_iff (left right : Content K) : left.text = right.text ↔ left = right := by
  constructor
  · intro same
    have characters := congrArg String.toList same
    rw [toList_text, toList_text] at characters
    simp only [List.cons.injEq, true_and] at characters
    exact (Element.selfDelimiting_write.eq_of_flatMap Element.write_ne characters).1
  · rintro rfl
    rfl

end Content

end SetForest
