/-!
# Decimal integers

Integers are written in decimal digits, with an optional sign in front.  A plus
sign is accepted everywhere, a minus sign only for signed integers.  A number
that does not fit into 64 bits is refused, and so is everything else that is
no number.  A text is read from left to right, so the first fault decides which
error is reported.
-/

namespace SetForest.Text

/-- Why a text is no integer of the wanted range. -/
inductive IntegerError where
  | empty
  | invalidDigit
  | tooLarge
  | tooSmall
deriving DecidableEq, Repr

def IntegerError.message : IntegerError → String
  | .empty => "cannot parse integer from empty string"
  | .invalidDigit => "invalid digit found in string"
  | .tooLarge => "number too large to fit in target type"
  | .tooSmall => "number too small to fit in target type"

/-- The value of an ASCII digit. -/
def digit? (c : Char) : Option Nat :=
  if c.isDigit then some (c.toNat - '0'.toNat) else none

/-- Continue to read a number whose digits so far have the given value.  The
number must stay within `limit`. -/
def readDigits (limit : Nat) (excess : IntegerError) (value : Nat) :
    List Char → Except IntegerError Nat
  | [] => .ok value
  | c :: rest =>
    match digit? c with
    | none => .error .invalidDigit
    | some digit =>
      let next := value * 10 + digit
      if next ≤ limit then readDigits limit excess next rest else .error excess

/-- Read an unsigned integer of 64 bits. -/
def readUnsigned : List Char → Except IntegerError Nat
  | [] => .error .empty
  | ['+'] => .error .invalidDigit
  | '+' :: digits => readDigits (UInt64.size - 1) .tooLarge 0 digits
  | digits => readDigits (UInt64.size - 1) .tooLarge 0 digits

/-- Read a signed integer of 64 bits. -/
def readSigned : List Char → Except IntegerError Int64
  | [] => .error .empty
  | ['+'] | ['-'] => .error .invalidDigit
  | '+' :: digits => do return .ofNat (← readDigits (UInt64.size / 2 - 1) .tooLarge 0 digits)
  | '-' :: digits => do return .ofInt (-(← readDigits (UInt64.size / 2) .tooSmall 0 digits))
  | digits => do return .ofNat (← readDigits (UInt64.size / 2 - 1) .tooLarge 0 digits)

/-- The digits of a number. -/
def writeUnsigned (value : Nat) : List Char :=
  Nat.toDigits 10 value

/-- The digits of a number, after a minus sign if it is negative. -/
def writeSigned (value : Int64) : List Char :=
  if value.toInt < 0 then '-' :: writeUnsigned value.toInt.natAbs
  else writeUnsigned value.toInt.natAbs

end SetForest.Text
