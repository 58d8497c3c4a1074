import Mathlib.Data.List.Forall2
import SetForest.Text.Blank
import SetForest.Text.Decimal

namespace SetForest.Text

/-!
# Decimal integers and their faults

A numeral is one or more digits, and it stands for the number that the core library reads
off them.  An integer is a numeral with an optional sign that stands for a number of its
type (`IsUnsigned`, `IsSigned`).  Every other word has a first fault.  Digits are read from
left to right, so a character that is no digit counts only if the digits before it do not
already exceed the limit (`DigitFault`).

A reader is correct if it answers the meaning of every text that has one, and refuses every
other text with its fault (`Recognizes`).  Since there is always one of the two, the answers
of the reader say all about the text.
-/

/-- A reader answers what a text means, or else what is wrong with it. -/
structure Recognizes {α β ε : Type} (read : α → Except ε β) (means : α → β → Prop)
    (fault : α → ε → Prop) : Prop where
  reads : ∀ text value, means text value → read text = .ok value
  refuses : ∀ text error, fault text error → read text = .error error
  total : ∀ text, (∃ value, means text value) ∨ ∃ error, fault text error

namespace Recognizes

variable {α β ε : Type} {read : α → Except ε β} {means : α → β → Prop} {fault : α → ε → Prop}

theorem ok_iff (recognizes : Recognizes read means fault) (text : α) (value : β) :
    read text = .ok value ↔ means text value := by
  constructor
  · intro answered
    rcases recognizes.total text with ⟨other, meant⟩ | ⟨error, faulty⟩
    · rw [recognizes.reads text other meant] at answered
      cases answered
      exact meant
    · rw [recognizes.refuses text error faulty] at answered
      cases answered
  · exact recognizes.reads text value

theorem error_iff (recognizes : Recognizes read means fault) (text : α) (error : ε) :
    read text = .error error ↔ fault text error := by
  constructor
  · intro refused
    rcases recognizes.total text with ⟨value, meant⟩ | ⟨other, faulty⟩
    · rw [recognizes.reads text value meant] at refused
      cases refused
    · rw [recognizes.refuses text other faulty] at refused
      cases refused
      exact faulty
  · exact recognizes.refuses text error

/-- A reader of texts that have a place, which its errors are told. -/
theorem mapError {γ φ : Type} (recognizes : Recognizes read means fault) (text : γ → α)
    (context : γ → ε → φ) :
    Recognizes (fun place => (read (text place)).mapError (context place))
      (fun place => means (text place))
      (fun place error => ∃ cause, fault (text place) cause ∧ error = context place cause) where
  reads := by
    intro place value meant
    rw [recognizes.reads (text place) value meant]
    rfl
  refuses := by
    rintro place _ ⟨cause, faulty, rfl⟩
    rw [recognizes.refuses (text place) cause faulty]
    rfl
  total := by
    intro place
    rcases recognizes.total (text place) with meant | ⟨cause, faulty⟩
    · exact Or.inl meant
    · exact Or.inr ⟨_, cause, faulty, rfl⟩

/-- Texts that are read one after the other have the fault of the first that has one. -/
theorem mapM (recognizes : Recognizes read means fault) :
    Recognizes (List.mapM read) (List.Forall₂ means) (fun texts error =>
      ∃ good values bad rest, texts = good ++ bad :: rest ∧ List.Forall₂ means good values ∧
        fault bad error) where
  reads := by
    intro texts values meant
    induction meant with
    | nil => rfl
    | cons first _ ih =>
        rw [List.mapM_cons, recognizes.reads _ _ first, ih]
        rfl
  refuses := by
    rintro _ error ⟨good, values, bad, rest, rfl, meant, faulty⟩
    induction meant with
    | nil =>
        rw [List.nil_append, List.mapM_cons, recognizes.refuses bad error faulty]
        rfl
    | cons first _ ih =>
        rw [List.cons_append, List.mapM_cons, recognizes.reads _ _ first, ih]
        rfl
  total := by
    intro texts
    induction texts with
    | nil => exact Or.inl ⟨[], .nil⟩
    | cons text texts ih =>
        rcases recognizes.total text with ⟨value, meant⟩ | ⟨error, faulty⟩
        · rcases ih with ⟨values, others⟩ | ⟨error, good, values, bad, rest, rfl, others, faulty⟩
          · exact Or.inl ⟨value :: values, .cons meant others⟩
          · exact Or.inr ⟨error, text :: good, value :: values, bad, rest, rfl,
              .cons meant others, faulty⟩
        · exact Or.inr ⟨error, [], [], text, texts, rfl, .nil, faulty⟩

end Recognizes

/-! ## Integers -/

/-- One or more digits, and the number that they stand for. -/
structure Numeral (digits : List Char) (value : Nat) : Prop where
  nonempty : digits ≠ []
  isDigit : ∀ c ∈ digits, c.isDigit = true
  value_eq : Nat.ofDigitChars 10 digits 0 = value

/-- An unsigned integer of 64 bits, which may have a plus sign. -/
def IsUnsigned (word : List Char) (value : Nat) : Prop :=
  ∃ digits, (word = digits ∨ word = '+' :: digits) ∧ Numeral digits value ∧ value < UInt64.size

/-- A signed integer of 64 bits. -/
def IsSigned (word : List Char) (value : Int64) : Prop :=
  ∃ digits magnitude, Numeral digits magnitude ∧
    ((word = digits ∨ word = '+' :: digits) ∧ value.toInt = magnitude ∨
      word = '-' :: digits ∧ value.toInt = -magnitude)

/-- The first fault of digits that stand for no number within a limit. -/
inductive DigitFault (limit : Nat) (excess : IntegerError) (text : List Char) :
    IntegerError → Prop where
  | invalid {good : List Char} {c : Char} {rest : List Char} (cut : text = good ++ c :: rest)
      (digits : ∀ d ∈ good, d.isDigit = true) (within : Nat.ofDigitChars 10 good 0 ≤ limit)
      (notDigit : c.isDigit = false) : DigitFault limit excess text .invalidDigit
  | excess {good : List Char} {c : Char} {rest : List Char} (cut : text = good ++ c :: rest)
      (digits : ∀ d ∈ good ++ [c], d.isDigit = true)
      (within : Nat.ofDigitChars 10 good 0 ≤ limit)
      (beyond : limit < Nat.ofDigitChars 10 (good ++ [c]) 0) : DigitFault limit excess text excess

/-- The fault of a word that is no unsigned integer. -/
inductive UnsignedFault : List Char → IntegerError → Prop where
  | empty : UnsignedFault [] .empty
  | sign : UnsignedFault ['+'] .invalidDigit
  | plain {c : Char} {rest : List Char} {error : IntegerError} (notSign : c ≠ '+')
      (fault : DigitFault (UInt64.size - 1) .tooLarge (c :: rest) error) :
      UnsignedFault (c :: rest) error
  | plus {c : Char} {rest : List Char} {error : IntegerError}
      (fault : DigitFault (UInt64.size - 1) .tooLarge (c :: rest) error) :
      UnsignedFault ('+' :: c :: rest) error

/-- The fault of a word that is no signed integer. -/
inductive SignedFault : List Char → IntegerError → Prop where
  | empty : SignedFault [] .empty
  | sign {c : Char} (isSign : c = '+' ∨ c = '-') : SignedFault [c] .invalidDigit
  | plain {c : Char} {rest : List Char} {error : IntegerError} (notPlus : c ≠ '+')
      (notMinus : c ≠ '-') (fault : DigitFault (UInt64.size / 2 - 1) .tooLarge (c :: rest) error) :
      SignedFault (c :: rest) error
  | plus {c : Char} {rest : List Char} {error : IntegerError}
      (fault : DigitFault (UInt64.size / 2 - 1) .tooLarge (c :: rest) error) :
      SignedFault ('+' :: c :: rest) error
  | minus {c : Char} {rest : List Char} {error : IntegerError}
      (fault : DigitFault (UInt64.size / 2) .tooSmall (c :: rest) error) :
      SignedFault ('-' :: c :: rest) error

/-! ## Digits -/

theorem digit?_of_isDigit {c : Char} (digit : c.isDigit = true) :
    digit? c = some (c.toNat - '0'.toNat) :=
  if_pos digit

theorem digit?_of_not_isDigit {c : Char} (notDigit : c.isDigit = false) : digit? c = none :=
  if_neg (Bool.eq_false_iff.mp notDigit)

/-- A number does not get smaller by further digits. -/
theorem le_ofDigitChars (digits : List Char) (value : Nat) :
    value ≤ Nat.ofDigitChars 10 digits value := by
  induction digits generalizing value with
  | nil => exact Nat.le_of_eq Nat.ofDigitChars_nil.symm
  | cons c rest ih =>
      rw [Nat.ofDigitChars_cons]
      exact Nat.le_trans (by omega) (ih _)

/-- Reading a digit, as long as the number stays within the limit. -/
theorem readDigits_cons_of_isDigit {limit : Nat} {excess : IntegerError} {value : Nat} {c : Char}
    (digit : c.isDigit = true) (rest : List Char) :
    readDigits limit excess value (c :: rest) =
      if Nat.ofDigitChars 10 [c] value ≤ limit then
        readDigits limit excess (Nat.ofDigitChars 10 [c] value) rest
      else .error excess := by
  have value_eq : Nat.ofDigitChars 10 [c] value = value * 10 + (c.toNat - '0'.toNat) := by
    rw [Nat.ofDigitChars_cons, Nat.ofDigitChars_nil, Nat.mul_comm]
  rw [readDigits, digit?_of_isDigit digit, value_eq]

/-- Further digits are read after good ones as they are by themselves. -/
theorem readDigits_append {limit : Nat} {excess : IntegerError} {good : List Char}
    (all : ∀ c ∈ good, c.isDigit = true) {value : Nat}
    (within : Nat.ofDigitChars 10 good value ≤ limit) (rest : List Char) :
    readDigits limit excess value (good ++ rest) =
      readDigits limit excess (Nat.ofDigitChars 10 good value) rest := by
  induction good generalizing value with
  | nil => rfl
  | cons c good ih =>
      have split : Nat.ofDigitChars 10 (c :: good) value =
          Nat.ofDigitChars 10 good (Nat.ofDigitChars 10 [c] value) :=
        Nat.ofDigitChars_append value (l := [c])
      rw [split] at within ⊢
      rw [List.cons_append, readDigits_cons_of_isDigit (all c List.mem_cons_self),
        if_pos (Nat.le_trans (le_ofDigitChars good _) within)]
      exact ih (fun other member => all other (List.mem_cons_of_mem c member)) within

theorem readDigits_of_le {limit : Nat} {excess : IntegerError} {digits : List Char}
    (all : ∀ c ∈ digits, c.isDigit = true) (within : Nat.ofDigitChars 10 digits 0 ≤ limit) :
    readDigits limit excess 0 digits = .ok (Nat.ofDigitChars 10 digits 0) := by
  rw [← List.append_nil digits, readDigits_append all within, List.append_nil]
  rfl

theorem DigitFault.readDigits_eq {limit : Nat} {excess error : IntegerError} {text : List Char}
    (fault : DigitFault limit excess text error) :
    readDigits limit excess 0 text = .error error := by
  cases fault with
  | @invalid good c rest cut digits within notDigit =>
      rw [cut, readDigits_append digits within, readDigits, digit?_of_not_isDigit notDigit]
  | @excess good c rest cut digits within beyond =>
      have digit : c.isDigit = true :=
        digits c (List.mem_append_right good (List.mem_singleton_self c))
      have before : ∀ d ∈ good, d.isDigit = true :=
        fun d member => digits d (List.mem_append_left [c] member)
      rw [cut, readDigits_append before within, readDigits_cons_of_isDigit digit,
        ← Nat.ofDigitChars_append, if_neg (Nat.not_le_of_lt beyond)]

/-- A text is digits within the limit, or it has a first fault. -/
theorem digits_or_fault (limit : Nat) (excess : IntegerError) (text : List Char) :
    (∀ c ∈ text, c.isDigit = true) ∧ Nat.ofDigitChars 10 text 0 ≤ limit ∨
      ∃ error, DigitFault limit excess text error := by
  -- The prefix that was read grows by one character at a time.
  have grow : ∀ (rest good : List Char), (∀ c ∈ good, c.isDigit = true) →
      Nat.ofDigitChars 10 good 0 ≤ limit →
      (∀ c ∈ good ++ rest, c.isDigit = true) ∧ Nat.ofDigitChars 10 (good ++ rest) 0 ≤ limit ∨
        ∃ error, DigitFault limit excess (good ++ rest) error := by
    intro rest
    induction rest with
    | nil =>
        intro good all within
        rw [List.append_nil]
        exact Or.inl ⟨all, within⟩
    | cons c rest ih =>
        intro good all within
        cases digit : c.isDigit with
        | false => exact Or.inr ⟨_, .invalid rfl all within digit⟩
        | true =>
            have longer : ∀ d ∈ good ++ [c], d.isDigit = true := by
              intro d member
              rcases List.mem_append.mp member with inGood | isLast
              · exact all d inGood
              · rw [List.mem_singleton.mp isLast]
                exact digit
            by_cases stays : Nat.ofDigitChars 10 (good ++ [c]) 0 ≤ limit
            · rw [List.append_cons]
              exact ih (good ++ [c]) longer stays
            · exact Or.inr ⟨_, .excess rfl longer within (Nat.lt_of_not_le stays)⟩
  exact grow text [] nofun (Nat.zero_le limit)

/-- A text that is not empty is a numeral within the limit, or it has a first fault. -/
theorem numeral_or_fault (limit : Nat) (excess : IntegerError) (c : Char) (rest : List Char) :
    (∃ value, Numeral (c :: rest) value ∧ value ≤ limit) ∨
      ∃ error, DigitFault limit excess (c :: rest) error := by
  rcases digits_or_fault limit excess (c :: rest) with ⟨all, within⟩ | fault
  · exact Or.inl ⟨_, ⟨List.cons_ne_nil c rest, all, rfl⟩, within⟩
  · exact Or.inr fault

/-- A numeral within the limit is read off its digits. -/
theorem Numeral.readDigits_eq {limit : Nat} {excess : IntegerError} {digits : List Char}
    {value : Nat} (numeral : Numeral digits value) (within : value ≤ limit) :
    readDigits limit excess 0 digits = .ok value := by
  rcases numeral with ⟨-, all, rfl⟩
  exact readDigits_of_le all within

theorem ne_of_isDigit {c other : Char} (digit : c.isDigit = true)
    (notDigit : other.isDigit = false) : c ≠ other := by
  rintro rfl
  exact Bool.false_ne_true (notDigit.symm.trans digit)

/-! ## Unsigned integers -/

theorem readUnsigned_of_ne {c : Char} (notPlus : c ≠ '+') (rest : List Char) :
    readUnsigned (c :: rest) = readDigits (UInt64.size - 1) .tooLarge 0 (c :: rest) := by
  unfold readUnsigned
  split <;> first | rfl | simp_all

theorem IsUnsigned.readUnsigned_eq {word : List Char} {value : Nat}
    (isUnsigned : IsUnsigned word value) : readUnsigned word = .ok value := by
  rcases isUnsigned with ⟨digits, signed, numeral, within⟩
  have read : readDigits (UInt64.size - 1) .tooLarge 0 digits = .ok value :=
    numeral.readDigits_eq (Nat.le_sub_one_of_lt within)
  cases digits with
  | nil => exact absurd rfl numeral.nonempty
  | cons c rest =>
      rcases signed with rfl | rfl
      · rw [readUnsigned_of_ne (ne_of_isDigit (numeral.isDigit c List.mem_cons_self) rfl), read]
      · exact read

theorem UnsignedFault.readUnsigned_eq {word : List Char} {error : IntegerError}
    (fault : UnsignedFault word error) : readUnsigned word = .error error := by
  cases fault with
  | empty => rfl
  | sign => rfl
  | plain notSign fault => rw [readUnsigned_of_ne notSign, fault.readDigits_eq]
  | plus fault => exact fault.readDigits_eq

theorem unsigned_or_fault (word : List Char) :
    (∃ value, IsUnsigned word value) ∨ ∃ error, UnsignedFault word error := by
  have positive : 0 < UInt64.size := by decide
  have bare (c : Char) (rest : List Char) := numeral_or_fault (UInt64.size - 1) .tooLarge c rest
  cases word with
  | nil => exact Or.inr ⟨.empty, .empty⟩
  | cons c rest =>
      by_cases isPlus : c = '+'
      · subst c
        cases rest with
        | nil => exact Or.inr ⟨.invalidDigit, .sign⟩
        | cons d rest =>
            rcases bare d rest with ⟨value, numeral, within⟩ | ⟨error, fault⟩
            · exact Or.inl ⟨value, _, Or.inr rfl, numeral, Nat.lt_of_le_sub_one positive within⟩
            · exact Or.inr ⟨error, .plus fault⟩
      · rcases bare c rest with ⟨value, numeral, within⟩ | ⟨error, fault⟩
        · exact Or.inl ⟨value, _, Or.inl rfl, numeral, Nat.lt_of_le_sub_one positive within⟩
        · exact Or.inr ⟨error, .plain isPlus fault⟩

theorem recognizes_readUnsigned : Recognizes readUnsigned IsUnsigned UnsignedFault where
  reads := fun _ _ => IsUnsigned.readUnsigned_eq
  refuses := fun _ _ => UnsignedFault.readUnsigned_eq
  total := unsigned_or_fault

/-! ## Signed integers -/

theorem readSigned_of_ne {c : Char} (notPlus : c ≠ '+') (notMinus : c ≠ '-')
    (rest : List Char) :
    readSigned (c :: rest) =
      (readDigits (UInt64.size / 2 - 1) .tooLarge 0 (c :: rest)).map Int64.ofNat := by
  unfold readSigned
  split <;> first | rfl | simp_all

theorem readSigned_plus (c : Char) (rest : List Char) :
    readSigned ('+' :: c :: rest) =
      (readDigits (UInt64.size / 2 - 1) .tooLarge 0 (c :: rest)).map Int64.ofNat := rfl

theorem readSigned_minus (c : Char) (rest : List Char) :
    readSigned ('-' :: c :: rest) =
      (readDigits (UInt64.size / 2) .tooSmall 0 (c :: rest)).map (fun value => .ofInt (-value)) :=
  rfl

theorem IsSigned.readSigned_eq {word : List Char} {value : Int64} (isSigned : IsSigned word value) :
    readSigned word = .ok value := by
  rcases isSigned with ⟨digits, magnitude, numeral, signed⟩
  have upper := value.toInt_lt
  have lower := value.le_toInt
  cases digits with
  | nil => exact absurd rfl numeral.nonempty
  | cons c rest =>
      rcases signed with ⟨signed, same⟩ | ⟨rfl, same⟩
      · have within : magnitude < UInt64.size / 2 := by
          have size : UInt64.size / 2 = 2 ^ 63 := by decide
          omega
        have read : readDigits (UInt64.size / 2 - 1) .tooLarge 0 (c :: rest) = .ok magnitude :=
          numeral.readDigits_eq (Nat.le_sub_one_of_lt within)
        have exact_value : Int64.ofNat magnitude = value := by
          rw [← Int64.toInt_inj, Int64.toInt_ofNat_of_lt within, same]
        have digit := numeral.isDigit c List.mem_cons_self
        rcases signed with rfl | rfl
        · rw [readSigned_of_ne (ne_of_isDigit digit rfl) (ne_of_isDigit digit rfl), read,
            Except.map, exact_value]
        · rw [readSigned_plus, read, Except.map, exact_value]
      · have within : magnitude ≤ UInt64.size / 2 := by
          have size : UInt64.size / 2 = 2 ^ 63 := by decide
          omega
        have exact_value : Int64.ofInt (-magnitude) = value := by
          rw [← same, Int64.ofInt_toInt]
        rw [readSigned_minus, numeral.readDigits_eq within, Except.map, exact_value]

theorem SignedFault.readSigned_eq {word : List Char} {error : IntegerError}
    (fault : SignedFault word error) : readSigned word = .error error := by
  cases fault with
  | empty => rfl
  | sign isSign => rcases isSign with rfl | rfl <;> rfl
  | plain notPlus notMinus fault =>
      rw [readSigned_of_ne notPlus notMinus, fault.readDigits_eq, Except.map]
  | plus fault => rw [readSigned_plus, fault.readDigits_eq, Except.map]
  | minus fault => rw [readSigned_minus, fault.readDigits_eq, Except.map]

theorem signed_or_fault (word : List Char) :
    (∃ value, IsSigned word value) ∨ ∃ error, SignedFault word error := by
  have positive (c : Char) (rest : List Char) :
      (∃ value : Int64, ∃ magnitude : Nat, Numeral (c :: rest) magnitude ∧
        value.toInt = magnitude) ∨
        ∃ error, DigitFault (UInt64.size / 2 - 1) .tooLarge (c :: rest) error := by
    rcases numeral_or_fault (UInt64.size / 2 - 1) .tooLarge c rest with
      ⟨magnitude, numeral, within⟩ | fault
    · exact Or.inl ⟨.ofNat magnitude, magnitude, numeral,
        Int64.toInt_ofNat_of_lt (Nat.lt_of_le_sub_one (by decide) within)⟩
    · exact Or.inr fault
  cases word with
  | nil => exact Or.inr ⟨.empty, .empty⟩
  | cons c rest =>
      by_cases isPlus : c = '+'
      · subst c
        cases rest with
        | nil => exact Or.inr ⟨.invalidDigit, .sign (Or.inl rfl)⟩
        | cons d rest =>
            rcases positive d rest with ⟨value, magnitude, numeral, same⟩ | ⟨error, fault⟩
            · exact Or.inl ⟨value, _, magnitude, numeral, Or.inl ⟨Or.inr rfl, same⟩⟩
            · exact Or.inr ⟨error, .plus fault⟩
      · by_cases isMinus : c = '-'
        · subst c
          cases rest with
          | nil => exact Or.inr ⟨.invalidDigit, .sign (Or.inr rfl)⟩
          | cons d rest =>
              rcases numeral_or_fault (UInt64.size / 2) .tooSmall d rest with
                ⟨magnitude, numeral, within⟩ | ⟨error, fault⟩
              · have size : UInt64.size / 2 = 2 ^ 63 := by decide
                exact Or.inl ⟨.ofInt (-magnitude), _, magnitude, numeral,
                  Or.inr ⟨rfl, Int64.toInt_ofInt_of_le (by omega) (by omega)⟩⟩
              · exact Or.inr ⟨error, .minus fault⟩
        · rcases positive c rest with ⟨value, magnitude, numeral, same⟩ | ⟨error, fault⟩
          · exact Or.inl ⟨value, _, magnitude, numeral, Or.inl ⟨Or.inl rfl, same⟩⟩
          · exact Or.inr ⟨error, .plain isPlus isMinus fault⟩

theorem recognizes_readSigned : Recognizes readSigned IsSigned SignedFault where
  reads := fun _ _ => IsSigned.readSigned_eq
  refuses := fun _ _ => SignedFault.readSigned_eq
  total := signed_or_fault

/-! ## Written integers -/

theorem numeral_writeUnsigned (value : Nat) : Numeral (writeUnsigned value) value where
  nonempty := Nat.toDigits_ne_nil
  isDigit := fun _ => Nat.isDigit_of_mem_toDigits (by decide) (by decide)
  value_eq := Nat.ofDigitChars_ten_toDigits

theorem isUnsigned_writeUnsigned {value : Nat} (within : value < UInt64.size) :
    IsUnsigned (writeUnsigned value) value :=
  ⟨writeUnsigned value, Or.inl rfl, numeral_writeUnsigned value, within⟩

/-- The smallest number has a magnitude that is not itself in the type, but it is never
computed there. -/
theorem isSigned_writeSigned (value : Int64) : IsSigned (writeSigned value) value := by
  refine ⟨writeUnsigned value.toInt.natAbs, value.toInt.natAbs, numeral_writeUnsigned _, ?_⟩
  by_cases negative : value.toInt < 0
  · refine Or.inr ⟨if_pos negative, ?_⟩
    omega
  · refine Or.inl ⟨Or.inl (if_neg negative), ?_⟩
    omega

theorem isBlank_of_isDigit {c : Char} (digit : c.isDigit = true) : isBlank c = false := by
  have bounds : 48 ≤ c.toNat ∧ c.toNat ≤ 57 := by
    rw [Char.isDigit, Bool.and_eq_true, decide_eq_true_eq, decide_eq_true_eq] at digit
    exact digit
  have apart : ∀ range ∈ blankRanges, range.2 < 48 ∨ 57 < range.1 := by decide
  rw [isBlank, List.any_eq_false]
  intro range member blank
  rw [Bool.and_eq_true, decide_eq_true_eq, decide_eq_true_eq] at blank
  have outside := apart range member
  omega

theorem solid_writeUnsigned (value : Nat) : ∀ c ∈ writeUnsigned value, isBlank c = false :=
  fun c member => isBlank_of_isDigit ((numeral_writeUnsigned value).isDigit c member)

theorem solid_writeSigned (value : Int64) : ∀ c ∈ writeSigned value, isBlank c = false := by
  rw [writeSigned]
  split
  · exact List.forall_mem_cons.mpr ⟨by decide, solid_writeUnsigned _⟩
  · exact solid_writeUnsigned _

theorem writeSigned_ne_nil (value : Int64) : writeSigned value ≠ [] := by
  rw [writeSigned]
  split
  · exact List.cons_ne_nil _ _
  · exact Nat.toDigits_ne_nil

end SetForest.Text
