import SetForest.Table

/-!
# Interning values

An interner stores each distinct value once and hands out its place in the
order of first registration.  It serves to replace large keys by small ones
before they go into a forest.
-/

namespace SetForest

/-- Distinct values in the order of their first registration. -/
structure Interner (T : Type) [Key T] where
  values : Array T
  places : Table T Nat

namespace Interner

variable {T : Type} [Key T]

def empty : Interner T := ⟨#[], .empty⟩

instance : Inhabited (Interner T) := ⟨empty⟩

/-- The number of distinct values. -/
def size (interner : Interner T) : Nat :=
  interner.values.size

def isEmpty (interner : Interner T) : Bool :=
  interner.size == 0

/-- The place of a value, if it was registered. -/
def find? (interner : Interner T) (value : T) : Option Nat :=
  interner.places.lookup value

/-- The value at a place, if the place was handed out. -/
def get? (interner : Interner T) (place : Nat) : Option T :=
  interner.values[place]?

/-- The place of a value, which is the next one if the value is new. -/
def register (interner : Interner T) (value : T) : Nat × Interner T :=
  match interner.find? value with
  | some place => (place, interner)
  | none =>
    let place := interner.size
    (place, ⟨interner.values.push value, interner.places.store value place⟩)

/-- A registered value is found at the place that its registration answered. -/
theorem find?_register_self (interner : Interner T) (value : T) :
    (interner.register value).2.find? value = some (interner.register value).1 := by
  unfold register
  split
  next found => exact found
  next => simp [find?]

end Interner

end SetForest
