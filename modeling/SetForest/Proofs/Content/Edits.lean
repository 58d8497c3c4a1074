import SetForest.Proofs.Content.Update

namespace SetForest

/-!
# Edits at one key

A content is a finite map from the keys of its elements.  To put an element in changes
the map at the key of this element, and to leave out a key changes it there, whichever
search has found the place (`Content.find?_put`, `Content.find?_without`).

There are two ways to do each, which an `Edit` names.  What all of them make of a map
depends on the key and on what is found there afterwards (`Edit.effect`).  Edits therefore
obey the laws of updates of a map.
-/

/-- A change of a set at one key.  An element is updated or inserted, a key is removed
by itself or with an element that has it. -/
inductive Edit (K : Type) where
  | update (element : Element K)
  | removeKey (key : K)
  | insert (element : Element K)
  | remove (element : Element K)

namespace Edit

variable {K : Type}

def key : Edit K → K
  | update element => element.key
  | removeKey key => key
  | insert element => element.key
  | remove element => element.key

/-- The element that comes with an edit. -/
def element? : Edit K → Option (Element K)
  | update element => some element
  | removeKey _ => none
  | insert element => some element
  | remove element => some element

/-- What is found at the key afterwards. -/
def outcome : Edit K → Option (Element K)
  | update element => some element
  | removeKey _ => none
  | insert element => some element
  | remove _ => none

theorem key_of_outcome {edit : Edit K} {element : Element K}
    (found : edit.outcome = some element) : element.key = edit.key := by
  cases edit with
  | update element => cases found; rfl
  | removeKey key => cases found
  | insert element => cases found; rfl
  | remove element => cases found

variable [Key K] {first second edit : Edit K} {look : K → Option (Element K)}

/-- What an edit makes of a map. -/
def effect (edit : Edit K) (look : K → Option (Element K)) (key : K) : Option (Element K) :=
  if Key.same edit.key key then edit.outcome else look key

/-- What a sequence of edits makes of a map. -/
def effects (edits : List (Edit K)) (look : K → Option (Element K)) : K → Option (Element K) :=
  edits.foldl (fun look edit => edit.effect look) look

theorem effect_self (edit : Edit K) (look : K → Option (Element K)) :
    edit.effect look edit.key = edit.outcome :=
  if_pos ((Key.same_iff _ _).mpr rfl)

theorem effect_of_ne {key : K} (different : key ≠ edit.key) :
    edit.effect look key = look key :=
  if_neg fun same => different ((Key.same_iff _ _).mp same).symm

/-- Of two edits at one key, the second counts. -/
theorem effect_effect (same : first.key = second.key) :
    second.effect (first.effect look) = second.effect look := by
  funext key
  by_cases here : key = second.key
  · subst key
    rw [effect_self, effect_self]
  · rw [effect_of_ne here, effect_of_ne here, effect_of_ne (same ▸ here)]

/-- Edits at different keys do not interfere. -/
theorem effect_comm (different : first.key ≠ second.key) :
    second.effect (first.effect look) = first.effect (second.effect look) := by
  funext key
  by_cases here : key = second.key
  · subst key
    rw [effect_self, effect_of_ne (Ne.symm different), effect_self]
  · rw [effect_of_ne here]
    by_cases there : key = first.key
    · subst key
      rw [effect_self, effect_self]
    · rw [effect_of_ne there, effect_of_ne there, effect_of_ne here]

/-- Nothing changes if the outcome was there before. -/
theorem effect_eq_self (holds : look edit.key = edit.outcome) : edit.effect look = look := by
  funext key
  by_cases here : key = edit.key
  · subst key
    rw [effect_self, holds]
  · exact effect_of_ne here

/-- Only the outcome of an edit matters, not the way in which it is made. -/
theorem effect_congr (first second : Edit K) (sameKey : first.key = second.key)
    (sameOutcome : first.outcome = second.outcome) : first.effect look = second.effect look := by
  funext key
  rw [effect, effect, sameKey, sameOutcome]

end Edit

namespace Content

variable {K : Type} [Key K] {content : Content K}

/-! ## Putting an element in -/

theorem find?_put (increasing : content.Increasing) (element : Element K) :
    (content.put element).find? = (Edit.update element).effect content.find? := by
  funext key
  apply Option.ext
  intro other
  rw [find?_eq_some_iff (increasing_put increasing element), mem_put_iff increasing]
  by_cases here : key = element.key
  · subst key
    rw [show (Edit.update element).effect content.find? element.key = some element from
      Edit.effect_self _ _]
    constructor
    · rintro ⟨rfl | ⟨-, different⟩, same⟩
      · rfl
      · exact absurd same different
    · rintro ⟨⟩
      exact ⟨Or.inl rfl, rfl⟩
  · rw [Edit.effect_of_ne here, find?_eq_some_iff increasing]
    constructor
    · rintro ⟨rfl | ⟨member, -⟩, same⟩
      · exact absurd same.symm here
      · exact ⟨member, same⟩
    · rintro ⟨member, rfl⟩
      exact ⟨Or.inr ⟨member, here⟩, rfl⟩

theorem length_put (increasing : content.Increasing) (element : Element K) :
    (content.put element).length + (content.find? element.key).isSome.toNat =
      content.length + 1 := by
  have found : ∀ old, content.find? element.key = some old ↔
      old ∈ content ∧ old.key = element.key := fun old => find?_eq_some_iff increasing
  rcases put_split increasing element with ⟨left, right, joined, parts, before, later⟩
  rw [joined]
  rcases parts with rfl | ⟨old, same, rfl⟩
  · have absent : find? (left ++ right) element.key = none := by
      rw [Option.eq_none_iff_forall_ne_some]
      intro old here
      rcases (found old).mp here with ⟨member, same⟩
      rcases List.mem_append.mp member with inLeft | inRight
      · exact Keyed.compare_ne_of_lt (before old inLeft) same
      · exact Keyed.compare_ne_of_lt (later old inRight) same.symm
    rw [absent]
    simp only [List.length_append, List.length_cons, Option.isSome_none, Bool.toNat_false]
    omega
  · rw [(found old).mpr ⟨List.mem_append_right left List.mem_cons_self, same⟩]
    simp only [List.length_append, List.length_cons, Option.isSome_some, Bool.toNat_true]

/-! ## Leaving a key out -/

/-- The content without the element that a search finds. -/
def without (content : Content K) (key : K) (threshold : Nat) : Content K :=
  match content.position key threshold with
  | none => content
  | some position => content.eraseIdx position

theorem increasing_without (increasing : content.Increasing) (key : K) (threshold : Nat) :
    (content.without key threshold).Increasing := by
  rw [without]
  split
  · exact increasing
  · exact increasing_sublist (List.eraseIdx_sublist content _) increasing

/-- Whichever search is made, no element with the key is left and no other is lost. -/
theorem mem_without_iff (increasing : content.Increasing) {key : K} {threshold : Nat}
    {other : Element K} :
    other ∈ content.without key threshold ↔ other ∈ content ∧ other.key ≠ key := by
  have placed := position_eq_some_iff increasing key threshold
  rw [without]
  cases found : content.position key threshold with
  | none =>
      refine ⟨fun member => ⟨member, ?_⟩, And.left⟩
      intro same
      rcases List.mem_iff_getElem?.mp member with ⟨position, here⟩
      cases found.symm.trans ((placed position).mpr ⟨other, here, same⟩)
  | some position =>
      rcases (placed position).mp found with ⟨element, here, same⟩
      dsimp only
      rw [List.mem_eraseIdx_iff_getElem?]
      constructor
      · rintro ⟨place, elsewhere, there⟩
        refine ⟨List.mem_of_getElem? there, fun sameKey => elsewhere ?_⟩
        exact position_unique increasing there here (sameKey.trans same.symm)
      · rintro ⟨member, different⟩
        rcases List.mem_iff_getElem?.mp member with ⟨place, there⟩
        refine ⟨place, ?_, there⟩
        rintro rfl
        rcases Option.some.inj (here.symm.trans there) with rfl
        exact different same

theorem find?_without (increasing : content.Increasing) (key : K) (threshold : Nat) :
    (content.without key threshold).find? = (Edit.removeKey key).effect content.find? := by
  funext sought
  apply Option.ext
  intro other
  rw [find?_eq_some_iff (increasing_without increasing key threshold),
    mem_without_iff increasing]
  by_cases here : sought = key
  · subst sought
    rw [show (Edit.removeKey key).effect content.find? key = none from Edit.effect_self _ _]
    exact ⟨fun both => absurd both.2 both.1.2, nofun⟩
  · rw [Edit.effect_of_ne here, find?_eq_some_iff increasing]
    constructor
    · rintro ⟨⟨member, -⟩, same⟩
      exact ⟨member, same⟩
    · rintro ⟨member, rfl⟩
      exact ⟨⟨member, here⟩, rfl⟩

theorem length_without (increasing : content.Increasing) (key : K) (threshold : Nat) :
    (content.without key threshold).length + (content.find? key).isSome.toNat =
      content.length := by
  rw [← bind_position increasing key threshold, without]
  cases found : content.position key threshold with
  | none => rfl
  | some position =>
      rcases (position_eq_some_iff increasing key threshold position).mp found with
        ⟨element, here, -⟩
      have inside := (List.getElem?_eq_some_iff.mp here).1
      simp only [Option.bind_some, here, Option.isSome_some, Bool.toNat_true,
        List.length_eraseIdx_of_lt inside]
      omega

/-- An edit changes the number of elements by what was there and by what is there now. -/
theorem length_of_effect {kept : Content K} {edit : Edit K} (increasing : content.Increasing)
    (keptIncreasing : kept.Increasing) (edited : kept.find? = edit.effect content.find?) :
    kept.length + (content.find? edit.key).isSome.toNat =
      content.length + edit.outcome.isSome.toNat := by
  cases outcome : edit.outcome with
  | none =>
      have same : kept = content.without edit.key 0 := by
        refine Content.ext keptIncreasing (increasing_without increasing _ _) fun key => ?_
        rw [edited, find?_without increasing]
        exact congrFun (edit.effect_congr (Edit.removeKey edit.key) rfl outcome) key
      rw [same]
      exact length_without increasing edit.key 0
  | some element =>
      have sameKey := Edit.key_of_outcome outcome
      have same : kept = content.put element := by
        refine Content.ext keptIncreasing (increasing_put increasing element) fun key => ?_
        rw [edited, find?_put increasing]
        exact congrFun (edit.effect_congr (Edit.update element) sameKey.symm outcome) key
      rw [same, ← sameKey]
      exact length_put increasing element

end Content

end SetForest
