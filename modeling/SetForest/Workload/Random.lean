import SetForest.Operation

/-!
# Random draws

A workload asks for numbers below a bound, for distinct numbers below a bound,
and for a choice between two ways to go on (`RandomSource`).  How the answers
are found is not its business.

Here they are found in words of 64 bits.  A draw below a bound is uniform: a
word is multiplied by the bound, the high half of the product is the draw, and
a word whose low half lies in the incomplete last stretch is drawn again.

Whatever words there are, a draw is below its bound (`drawBelow_lt`).  The
number of attempts is the number of words, so a source that runs through all
words always ends with one that is accepted.
-/

namespace SetForest

/-- A state from which the draws of a workload are made. -/
class RandomSource (σ : Type) where
  /-- Draw a number below a bound. -/
  below (bound : Nat) : StateM σ Nat
  /-- Decide between two ways, in favour of the first in 60 percent of all cases. -/
  likely : StateM σ Bool
  /-- Draw distinct numbers below a length, in random order. -/
  sample (length amount : Nat) : StateM σ (List Nat)

/-- A state from which words of 64 bits are drawn. -/
class WordSource (σ : Type) where
  next : σ → UInt64 × σ

/-- A generator that adds a constant to its state and scrambles the sum.  It
runs through all words before it repeats. -/
structure SplitMix where
  state : UInt64
deriving DecidableEq, Repr

instance : WordSource SplitMix where
  next source :=
    let state := source.state + 0x9E3779B97F4A7C15
    let z := (state ^^^ (state >>> 30)) * 0xBF58476D1CE4E5B9
    let z := (z ^^^ (z >>> 27)) * 0x94D049BB133111EB
    (z ^^^ (z >>> 31), ⟨state⟩)

/-- The size of the integers that a draw is made of. -/
inductive Width where
  | bits32
  | bits64
deriving DecidableEq, Repr

/-- The number of integers of a width. -/
def Width.count : Width → Nat
  | bits32 => UInt32.size
  | bits64 => UInt64.size

variable {σ : Type} [WordSource σ]

namespace Random

/-- Draw an integer of a width: the low bits of one word. -/
def word (width : Width) : StateM σ Nat := do
  let drawn ← modifyGet WordSource.next
  return drawn.toNat % width.count

/-- The low halves of products from here on are drawn again.  The multiples of
the bound up to here fill the width as far as a power of two times the bound can. -/
def acceptedBelow (width : Width) (bound : Nat) : Nat :=
  bound <<< (width.count.log2 - 1 - bound.log2)

/-- Draw below a bound that is less than the number of words. -/
def attempt (width : Width) (bound : Nat) : Nat → StateM σ Nat
  | 0 => return 0
  | attempts + 1 => do
    let product := (← word width) * bound
    if product % width.count < acceptedBelow width bound then return product / width.count
    else attempt width bound attempts

/-- Draw a number below a bound.  A bound of zero stands for the number of words
and is met by every word. -/
def drawBelow (width : Width) (bound : Nat) : StateM σ Nat :=
  if bound % width.count = 0 then word width
  else attempt width (bound % width.count) UInt64.size

/-- Whether a word falls into the lower 60 percent of all words. -/
def likely : StateM σ Bool := do
  let drawn ← word .bits64
  return drawn < 11068046444225730560

/-- Put `value` in front of the first occurrence of `drawn`, or `drawn` itself
at the end if it does not occur. -/
def insertDrawn (drawn value : Nat) : List Nat → List Nat
  | [] => [drawn]
  | first :: rest =>
    if first = drawn then value :: first :: rest else first :: insertDrawn drawn value rest

/-- Draw `amount` distinct numbers below `length`, in random order.  For every
number that may be the largest, one is drawn up to it; if that one was drawn
before, the largest takes its place in the order. -/
def sample (length amount : Nat) : StateM σ (List Nat) :=
  let width := if length < Width.bits32.count then Width.bits32 else Width.bits64
  (List.range' (length - amount) amount).foldlM
    (fun sampled largest => do
      let drawn ← drawBelow width (largest + 1)
      return insertDrawn drawn largest sampled) []

theorem word_lt (width : Width) (source : σ) : ((word width).run source).1 < width.count :=
  Nat.mod_lt _ (by cases width <;> decide)

private theorem attempt_succ (width : Width) (bound attempts : Nat) (source : σ) :
    (attempt width bound (attempts + 1)).run source =
      let drawn := (word width).run source
      if drawn.1 * bound % width.count < acceptedBelow width bound then
        (drawn.1 * bound / width.count, drawn.2)
      else (attempt width bound attempts).run drawn.2 :=
  apply_ite (fun action : StateM σ Nat => action.run ((word width).run source).2) _ _ _

private theorem attempt_lt (width : Width) {bound : Nat} (positive : 0 < bound) (attempts : Nat)
    (source : σ) : ((attempt width bound attempts).run source).1 < bound := by
  induction attempts generalizing source with
  | zero => exact positive
  | succ attempts ih =>
    have below := word_lt width source
    simp only [attempt_succ]
    split
    next accepted => exact Nat.div_lt_of_lt_mul (Nat.mul_lt_mul_of_pos_right below positive)
    next refused => exact ih _

/-- A draw below a bound is below it, whether or not the width can express the bound. -/
theorem drawBelow_lt (width : Width) {bound : Nat} (positive : 0 < bound) (source : σ) :
    ((drawBelow width bound).run source).1 < bound := by
  rw [drawBelow]
  split
  next whole =>
    exact Nat.lt_of_lt_of_le (word_lt width source)
      (Nat.le_of_dvd positive (Nat.dvd_of_mod_eq_zero whole))
  next part =>
    exact Nat.lt_of_lt_of_le (attempt_lt width (Nat.pos_of_ne_zero part) _ source)
      (Nat.mod_le bound width.count)

end Random

/-- Words are a source of random draws. -/
instance : RandomSource σ where
  below := Random.drawBelow .bits64
  likely := Random.likely
  sample := Random.sample

/-- Draw one of the three lattice operations, by its place among all of them. -/
def Random.operation {σ : Type} [RandomSource σ] : StateM σ Operation := do
  return Operation.all.getD (← RandomSource.below Operation.all.length) .difference

end SetForest
