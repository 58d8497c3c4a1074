import Std.Data.String.ToInt

namespace SetForest.Text

/-!
# Written values that can be told apart

What is written one after the other can only be read again if every part shows where it
ends.  A word shows it by what follows, a character that is in no word (`Words`).  A
self-delimiting text needs nothing to follow (`SelfDelimiting`).

Both compose.  Words between separators can be told apart up to a closing character, and so
can self-delimiting texts if none of them begins with that character.
-/

variable {α β : Type} {write : α → List Char} {inside : Char → Bool} {stop stop' : Char}

/-- A text of characters inside ends at the first character outside. -/
theorem eq_of_stopped {word word' rest rest' : List Char}
    (isInside : ∀ c ∈ word, inside c = true) (isInside' : ∀ c ∈ word', inside c = true)
    (outside : inside stop = false) (outside' : inside stop' = false)
    (same : word ++ stop :: rest = word' ++ stop' :: rest') :
    word = word' ∧ stop = stop' ∧ rest = rest' := by
  have taken := congrArg (List.takeWhile inside) same
  rw [List.takeWhile_append_of_pos isInside, List.takeWhile_append_of_pos isInside'] at taken
  simp only [List.takeWhile_cons, outside, outside', Bool.false_eq_true, if_false,
    List.append_nil] at taken
  subst taken
  rcases List.cons.inj (List.append_cancel_left same) with ⟨sameStop, sameRest⟩
  exact ⟨rfl, sameStop, sameRest⟩

/-- Each value is written as a word of characters inside, and no two are written alike. -/
structure Words (write : α → List Char) (inside : Char → Bool) : Prop where
  injective : ∀ value other, write value = write other → value = other
  isInside : ∀ value, ∀ c ∈ write value, inside c = true

namespace Words

theorem comp (words : Words write inside) {through : β → α}
    (injective : ∀ value other, through value = through other → value = other) :
    Words (fun value => write (through value)) inside where
  injective value other same := injective value other (words.injective _ _ same)
  isInside value := words.isInside (through value)

/-- What follows a word shows where it ends. -/
theorem eq_of_stopped (words : Words write inside) {value other : α} {rest rest' : List Char}
    (outside : inside stop = false) (outside' : inside stop' = false)
    (same : write value ++ stop :: rest = write other ++ stop' :: rest') :
    value = other ∧ stop = stop' ∧ rest = rest' := by
  rcases Text.eq_of_stopped (words.isInside value) (words.isInside other) outside outside' same with
    ⟨sameWord, sameStop, sameRest⟩
  exact ⟨words.injective value other sameWord, sameStop, sameRest⟩

/-- A stopped word does not begin with any other character outside. -/
theorem ne_of_stopped (words : Words write inside) (outside : inside stop = false)
    (outside' : inside stop' = false) (different : stop ≠ stop') (value : α)
    (rest rest' : List Char) : write value ++ stop :: rest ≠ stop' :: rest' := by
  intro same
  have none : ∀ c ∈ ([] : List Char), inside c = true := nofun
  exact different (Text.eq_of_stopped (words.isInside value) none outside outside' same).2.1

/-- A list of words ends at the closing character, and is made of the words between the
separators. -/
theorem eq_of_intercalate (words : Words write inside) {comma closing : Char} {gap : List Char}
    (outside : inside comma = false) (outside' : inside closing = false)
    (different : comma ≠ closing) {values others : List α} (nonempty : values ≠ [])
    (nonempty' : others ≠ []) {rest rest' : List Char}
    (same : (comma :: gap).intercalate (values.map write) ++ closing :: rest =
      (comma :: gap).intercalate (others.map write) ++ closing :: rest') :
    values = others ∧ rest = rest' := by
  induction values generalizing others with
  | nil => exact absurd rfl nonempty
  | cons value values ih =>
      cases others with
      | nil => exact absurd rfl nonempty'
      | cons other others =>
          cases values with
          | nil =>
              cases others with
              | nil =>
                  simp only [List.map_cons, List.map_nil, List.intercalate_singleton] at same
                  rcases words.eq_of_stopped outside' outside' same with ⟨rfl, -, sameRest⟩
                  exact ⟨rfl, sameRest⟩
              | cons next others =>
                  simp only [List.map_cons, List.map_nil, List.intercalate_singleton,
                    List.intercalate_cons_cons, List.append_assoc, List.cons_append] at same
                  exact absurd (words.eq_of_stopped outside' outside same).2.1.symm different
          | cons next values =>
              cases others with
              | nil =>
                  simp only [List.map_cons, List.map_nil, List.intercalate_singleton,
                    List.intercalate_cons_cons, List.append_assoc, List.cons_append] at same
                  exact absurd (words.eq_of_stopped outside outside' same).2.1 different
              | cons next' others =>
                  simp only [List.map_cons, List.intercalate_cons_cons, List.append_assoc,
                    List.cons_append] at same
                  rcases words.eq_of_stopped outside outside same with ⟨rfl, -, sameRest⟩
                  rcases ih (List.cons_ne_nil _ _) (List.cons_ne_nil _ _)
                    (List.append_cancel_left sameRest) with ⟨sameValues, sameRest⟩
                  exact ⟨congrArg (List.cons value) sameValues, sameRest⟩

end Words

/-! ## Integers -/

/-- The characters of integers in decimal digits. -/
def isIntegerChar (c : Char) : Bool :=
  c.isDigit || c == '-'

/-- Integers are words of digits and a minus sign. -/
theorem words_integer : Words (fun value : Int => (toString value).toList) isIntegerChar where
  injective value other same := Int.repr_inj.mp (String.toList_inj.mp same)
  isInside := by
    have digits : ∀ value : Nat, ∀ c ∈ value.repr.toList, isIntegerChar c = true := by
      intro value c member
      rw [Nat.toList_repr] at member
      simp [isIntegerChar, Nat.isDigit_of_mem_toDigits (by decide) (by decide) member]
    intro value c member
    cases value with
    | ofNat value => exact digits value c member
    | negSucc value =>
        have written : (toString (Int.negSucc value)).toList = '-' :: (value + 1).repr.toList :=
          String.toList_append
        rw [written] at member
        rcases List.mem_cons.mp member with rfl | member
        · rfl
        · exact digits _ c member

/-! ## Texts that end by themselves -/

/-- What is written shows by itself where it ends, and which value it is. -/
def SelfDelimiting (write : α → List Char) : Prop :=
  ∀ value other rest rest', write value ++ rest = write other ++ rest' →
    value = other ∧ rest = rest'

/-- A list of self-delimiting texts ends where the closing character stands in the place of
another one. -/
theorem SelfDelimiting.eq_of_flatMap (selfDelimiting : SelfDelimiting write) {closing : Char}
    (never : ∀ value rest rest', write value ++ rest ≠ closing :: rest')
    {values others : List α} {rest rest' : List Char}
    (same : values.flatMap write ++ closing :: rest = others.flatMap write ++ closing :: rest') :
    values = others ∧ rest = rest' := by
  induction values generalizing others with
  | nil =>
      cases others with
      | nil => exact ⟨rfl, (List.cons.inj same).2⟩
      | cons other others =>
          rw [List.flatMap_nil, List.flatMap_cons, List.append_assoc] at same
          exact absurd same.symm (never other _ rest)
  | cons value values ih =>
      cases others with
      | nil =>
          rw [List.flatMap_nil, List.flatMap_cons, List.append_assoc] at same
          exact absurd same (never value _ rest')
      | cons other others =>
          rw [List.flatMap_cons, List.flatMap_cons, List.append_assoc, List.append_assoc] at same
          rcases selfDelimiting value other _ _ same with ⟨rfl, sameRest⟩
          rcases ih sameRest with ⟨rfl, sameEnd⟩
          exact ⟨rfl, sameEnd⟩

end SetForest.Text
