import FrameTiming.Number.Literal
import Mathlib.Data.Int.Notation
import Mathlib.Data.List.Induction
import Mathlib.Data.Nat.Notation

/-! # Written whole numbers

A numeral denotes a number by the positions of its digits. However a word is written as a numeral,
it is read as that word, and nothing else is read as a word. The usual notation of a number is one
of its numerals.
-/

namespace FrameTiming.Number

variable {base digit value : ℕ} {char : Char} {text : List Char}

/-! ## Digits -/

/-- A character that stands for a digit. Letters may be in either case. -/
def IsDigit (base : ℕ) (char : Char) (digit : ℕ) : Prop :=
  digit < base ∧ (char = digit.digitChar ∨ char = digit.digitChar.toUpper)

theorem isDigit_digitChar (within : digit < base) : IsDigit base digit.digitChar digit :=
  ⟨within, .inl rfl⟩

theorem digitValue?_of_isDigit (small : base ≤ 16) (isDigit : IsDigit base char digit) :
    digitValue? base char = some digit := by
  have table : ∀ digit < 16, digitValue? 16 digit.digitChar = some digit ∧
      digitValue? 16 digit.digitChar.toUpper = some digit := by
    decide
  have hexadecimal : digitValue? 16 char = some digit := by
    have entries := table digit (by have := isDigit.1; omega)
    rcases isDigit.2 with rfl | rfl
    · exact entries.1
    · exact entries.2
  rw [digitValue?, Option.filter_eq_some_iff] at hexadecimal ⊢
  exact ⟨hexadecimal.1, decide_eq_true isDigit.1⟩

theorem digitValue?_of_not_ascii (base : ℕ) (beyond : 128 ≤ char.toNat) :
    digitValue? base char = none := by
  have above (bound : Char) (ascii : bound.toNat < 128) : ¬char ≤ bound := by
    rw [Char.le_def, UInt32.le_iff_toNat_le]
    change ¬char.toNat ≤ bound.toNat
    omega
  have noDecimal : char.isDigit = false :=
    Bool.and_eq_false_iff.mpr (.inr (decide_eq_false (above '9' (by decide))))
  simp [digitValue?, noDecimal, above 'f' (by decide), above 'F' (by decide)]

/-- The digits are found among the ASCII characters by trying all of them. -/
theorem digitValue?_eq_some_iff (small : base ≤ 16) :
    digitValue? base char = some digit ↔ IsDigit base char digit := by
  refine ⟨fun valued => ?_, digitValue?_of_isDigit small⟩
  have table : ∀ code < 128, ∀ digit ∈ digitValue? 16 (Char.ofNat code),
      Char.ofNat code = digit.digitChar ∨ Char.ofNat code = digit.digitChar.toUpper := by
    decide +kernel
  by_cases ascii : char.toNat < 128
  · rw [digitValue?, Option.filter_eq_some_iff] at valued
    have within : digit < base := of_decide_eq_true valued.2
    have hexadecimal : digitValue? 16 char = some digit := by
      rw [digitValue?, Option.filter_eq_some_iff]
      exact ⟨valued.1, decide_eq_true (Nat.lt_of_lt_of_le within small)⟩
    rw [← Char.ofNat_toNat char] at hexadecimal
    have found := table char.toNat ascii digit hexadecimal
    rw [Char.ofNat_toNat] at found
    exact ⟨within, found⟩
  · rw [digitValue?_of_not_ascii base (Nat.le_of_not_lt ascii)] at valued
    cases valued

theorem isAlphanum_of_isDigit (small : base ≤ 16) (isDigit : IsDigit base char digit) :
    char.isAlphanum = true := by
  have table : ∀ digit < 16, digit.digitChar.isAlphanum = true ∧
      digit.digitChar.toUpper.isAlphanum = true := by
    decide
  have entries := table digit (by have := isDigit.1; omega)
  rcases isDigit.2 with rfl | rfl
  · exact entries.1
  · exact entries.2

/-! ## Numerals -/

/-- The number that some digits denote together. -/
inductive Numeral (base : ℕ) : List Char → ℕ → Prop
  | single {char : Char} {digit : ℕ} (isDigit : IsDigit base char digit) :
      Numeral base [char] digit
  | append {text : List Char} {value : ℕ} {char : Char} {digit : ℕ}
      (front : Numeral base text value) (isDigit : IsDigit base char digit) :
      Numeral base (text ++ [char]) (value * base + digit)

namespace Numeral

theorem ne_nil (numeral : Numeral base text value) : text ≠ [] := by
  cases numeral <;> simp

theorem exists_isDigit (numeral : Numeral base text value) :
    ∀ char ∈ text, ∃ digit, IsDigit base char digit := by
  induction numeral with
  | single isDigit => exact List.forall_mem_singleton.mpr ⟨_, isDigit⟩
  | append front isDigit induction =>
      rw [List.forall_mem_append]
      exact ⟨induction, List.forall_mem_singleton.mpr ⟨_, isDigit⟩⟩

theorem isAlphanum (small : base ≤ 16) (numeral : Numeral base text value) :
    ∀ char ∈ text, char.isAlphanum = true := by
  intro char member
  rcases numeral.exists_isDigit char member with ⟨digit, isDigit⟩
  exact isAlphanum_of_isDigit small isDigit

theorem not_mem (small : base ≤ 16) (numeral : Numeral base text value)
    (noDigit : digitValue? base char = none) : char ∉ text := by
  intro member
  rcases numeral.exists_isDigit char member with ⟨digit, isDigit⟩
  rw [digitValue?_of_isDigit small isDigit] at noDigit
  cases noDigit

theorem toDigits (large : 1 < base) (number : ℕ) :
    Numeral base (Nat.toDigits base number) number := by
  induction number using Nat.strongRecOn with
  | ind number induction =>
      rw [Nat.toDigits_eq_if large]
      split
      · rename_i within
        exact .single (isDigit_digitChar within)
      · rename_i beyond
        have smaller : number / base < number := Nat.div_lt_self (by omega) large
        have numeral : Numeral base _ (number / base * base + number % base) :=
          .append (induction _ smaller) (isDigit_digitChar (Nat.mod_lt _ (by omega)))
        rwa [Nat.div_add_mod'] at numeral

end Numeral

theorem numeral_toString (number : ℕ) : Numeral 10 (toString number).toList number := by
  rw [Nat.toString_eq_repr, Nat.toList_repr]
  exact .toDigits (by decide) number

theorem isDigit_of_mem_toString {number : ℕ} (member : char ∈ (toString number).toList) :
    char.isDigit = true := by
  rw [Nat.toString_eq_repr, Nat.toList_repr] at member
  exact Nat.isDigit_of_mem_toDigits (by decide) (by decide) member

theorem toString_toList_ne_nil (number : ℕ) : (toString number).toList ≠ [] :=
  (numeral_toString number).ne_nil

theorem ofDigits?_append (base start : ℕ) (text rest : List Char) :
    ofDigits? base start (text ++ rest) =
      (ofDigits? base start text).bind fun value => ofDigits? base value rest := by
  induction text generalizing start with
  | nil => rfl
  | cons char text induction =>
      rw [List.cons_append, ofDigits?, ofDigits?]
      cases digitValue? base char with
      | none => rfl
      | some digit => exact induction _

theorem natural?_of_numeral (small : base ≤ 16) (numeral : Numeral base text value) :
    natural? base text = some value := by
  have digits : ofDigits? base 0 text = some value := by
    induction numeral with
    | single isDigit => simp [ofDigits?, digitValue?_of_isDigit small isDigit]
    | append front isDigit induction =>
        simp [ofDigits?_append, induction, ofDigits?, digitValue?_of_isDigit small isDigit]
  rw [natural?, if_neg (by simpa using numeral.ne_nil), digits]

theorem numeral_of_ofDigits? (small : base ≤ 16) (present : text ≠ [])
    (valued : ofDigits? base 0 text = some value) : Numeral base text value := by
  induction text using List.reverseRecOn generalizing value with
  | nil => exact absurd rfl present
  | append_singleton text char induction =>
      rw [ofDigits?_append, Option.bind_eq_some_iff] at valued
      rcases valued with ⟨front, frontValued, valued⟩
      cases last : digitValue? base char with
      | none => simp [ofDigits?, last] at valued
      | some digit =>
          have isDigit := (digitValue?_eq_some_iff small).mp last
          simp only [ofDigits?, last, Option.some.injEq] at valued
          subst valued
          by_cases alone : text = []
          · subst alone
            cases frontValued
            simpa using Numeral.single isDigit
          · exact .append (induction alone frontValued) isDigit

theorem natural?_eq_some_iff (small : base ≤ 16) :
    natural? base text = some value ↔ Numeral base text value := by
  refine ⟨fun valued => ?_, natural?_of_numeral small⟩
  unfold natural? at valued
  split at valued
  · cases valued
  · rename_i present
    exact numeral_of_ofDigits? small (by simpa using present) valued

theorem natural?_toString (number : ℕ) : natural? 10 (toString number).toList = some number :=
  natural?_of_numeral (by decide) (numeral_toString number)

/-! ## Words -/

theorem splitSign_of_isAlphanum (plain : ∀ char ∈ text, char.isAlphanum = true) :
    splitSign text = (none, text) := by
  unfold splitSign
  split
  · exact absurd (plain '+' (by simp)) (by decide)
  · exact absurd (plain '-' (by simp)) (by decide)
  · rfl

theorem unsigned?_of_numeral {number : UInt64} (small : base ≤ 16)
    (numeral : Numeral base text number.toNat) : unsigned? base text = some number := by
  have word : number.toNat < UInt64.size := number.toNat_lt
  rw [unsigned?, splitSign_of_isAlphanum (numeral.isAlphanum small)]
  simp only [natural?_of_numeral small numeral, Option.filter_some, decide_eq_true word, if_true,
    Option.map_some]
  exact congrArg some UInt64.ofNat_toNat

theorem unsigned?_toString (number : UInt64) :
    unsigned? 10 (toString number.toNat).toList = some number :=
  unsigned?_of_numeral (by decide) (numeral_toString number.toNat)

/-- A natural number written with or without a plus sign. -/
inductive Natural (base : ℕ) : List Char → ℕ → Prop
  | unsigned {text : List Char} {value : ℕ} (numeral : Numeral base text value) :
      Natural base text value
  | plus {text : List Char} {value : ℕ} (numeral : Numeral base text value) :
      Natural base ('+' :: text) value

theorem splitSign_cases (text : List Char) :
    (∃ digits, text = '+' :: digits) ∨ (∃ digits, text = '-' :: digits) ∨
      splitSign text = (none, text) := by
  unfold splitSign
  split
  · exact .inl ⟨_, rfl⟩
  · exact .inr (.inl ⟨_, rfl⟩)
  · exact .inr (.inr rfl)

/-- A text is read as an unsigned word exactly if it denotes that word. -/
theorem unsigned?_eq_some_iff {number : UInt64} (small : base ≤ 16) :
    unsigned? base text = some number ↔ Natural base text number.toNat := by
  have word {digits : List Char} :
      ((natural? base digits).filter (· < UInt64.size)).map UInt64.ofNat = some number ↔
        Numeral base digits number.toNat := by
    simp only [Option.map_eq_some_iff, Option.filter_eq_some_iff, natural?_eq_some_iff small,
      decide_eq_true_eq]
    constructor
    · rintro ⟨value, ⟨numeral, within⟩, rfl⟩
      rwa [UInt64.toNat_ofNat', Nat.mod_eq_of_lt within]
    · exact fun numeral => ⟨_, ⟨numeral, number.toNat_lt⟩, UInt64.ofNat_toNat⟩
  constructor
  · intro read
    rcases splitSign_cases text with ⟨digits, rfl⟩ | ⟨digits, rfl⟩ | noSign
    · exact .plus (word.mp read)
    · cases read
    · rw [unsigned?, noSign] at read
      exact .unsigned (word.mp read)
  · intro natural
    cases natural with
    | unsigned numeral => exact unsigned?_of_numeral small numeral
    | plus numeral => exact word.mpr numeral

theorem toInt64?_toInt (number : Int64) : toInt64? number.toInt = some number := by
  rw [toInt64?, if_pos ⟨number.minValue_le_toInt, number.toInt_le⟩, Int64.ofInt_toInt]

theorem toInt64?_eq_some_iff {value : ℤ} {number : Int64} :
    toInt64? value = some number ↔ value = number.toInt := by
  constructor
  · intro fits
    unfold toInt64? at fits
    split at fits
    · rename_i within
      have below : value < 2 ^ 63 := Int.lt_of_le_of_lt within.2 (by decide)
      rw [← Option.some.inj fits, Int64.toInt_ofInt_of_le within.1 below]
    · cases fits
  · rintro rfl
    exact toInt64?_toInt number

theorem signed?_plus (digits : List Char) :
    signed? ('+' :: digits) = (natural? 10 digits).bind fun value => toInt64? value :=
  rfl

theorem signed?_minus (digits : List Char) :
    signed? ('-' :: digits) = (natural? 10 digits).bind fun value => toInt64? (-value) :=
  rfl

/-- A number written in decimal, with or without a sign. -/
inductive Integer : List Char → ℤ → Prop
  | unsigned {text : List Char} {value : ℕ} (numeral : Numeral 10 text value) : Integer text value
  | plus {text : List Char} {value : ℕ} (numeral : Numeral 10 text value) :
      Integer ('+' :: text) value
  | minus {text : List Char} {value : ℕ} (numeral : Numeral 10 text value) :
      Integer ('-' :: text) (-value)

theorem Integer.ne_nil {value : ℤ} (integer : Integer text value) : text ≠ [] := by
  cases integer with
  | unsigned numeral => exact numeral.ne_nil
  | plus numeral => exact List.cons_ne_nil _ _
  | minus numeral => exact List.cons_ne_nil _ _

theorem Integer.not_mem {value : ℤ} (integer : Integer text value)
    (noDigit : digitValue? 10 char = none) (noPlus : char ≠ '+') (noMinus : char ≠ '-') :
    char ∉ text := by
  cases integer with
  | unsigned numeral => exact numeral.not_mem (by decide) noDigit
  | plus numeral => simp [noPlus, numeral.not_mem (by decide) noDigit]
  | minus numeral => simp [noMinus, numeral.not_mem (by decide) noDigit]

theorem signed?_of_integer {number : Int64} (integer : Integer text number.toInt) :
    signed? text = some number := by
  have back := toInt64?_toInt number
  generalize number.toInt = value at integer back
  have small : 10 ≤ 16 := by decide
  cases integer with
  | unsigned numeral =>
      rw [signed?, splitSign_of_isAlphanum (numeral.isAlphanum small)]
      dsimp only
      rw [natural?_of_numeral small numeral, Option.bind_some]
      exact back
  | plus numeral =>
      rw [signed?_plus, natural?_of_numeral small numeral, Option.bind_some]
      exact back
  | minus numeral =>
      rw [signed?_minus, natural?_of_numeral small numeral, Option.bind_some]
      exact back

/-- A text is read as a signed word exactly if it denotes that word. -/
theorem signed?_eq_some_iff {number : Int64} :
    signed? text = some number ↔ Integer text number.toInt := by
  refine ⟨fun read => ?_, signed?_of_integer⟩
  have denotes {digits : List Char} {change : ℕ → ℤ}
      (read : ((natural? 10 digits).bind fun value => toInt64? (change value)) = some number) :
      ∃ value, Numeral 10 digits value ∧ change value = number.toInt := by
    simpa only [Option.bind_eq_some_iff, natural?_eq_some_iff (by decide : 10 ≤ 16),
      toInt64?_eq_some_iff] using read
  rcases splitSign_cases text with ⟨digits, rfl⟩ | ⟨digits, rfl⟩ | noSign
  · rcases denotes read with ⟨value, numeral, same⟩
    rw [← same]
    exact .plus numeral
  · rcases denotes read with ⟨value, numeral, same⟩
    rw [← same]
    exact .minus numeral
  · rw [signed?, noSign] at read
    rcases denotes read with ⟨value, numeral, same⟩
    rw [← same]
    exact .unsigned numeral

theorem toString_negSucc_toList (number : ℕ) :
    (toString (Int.negSucc number)).toList = '-' :: (toString (number + 1)).toList := by
  change ("-" ++ Nat.repr (number + 1)).toList = _
  rw [String.toList_append]
  rfl

theorem integer_toString (value : ℤ) : Integer (toString value).toList value := by
  cases value with
  | ofNat magnitude => exact .unsigned (numeral_toString magnitude)
  | negSucc magnitude =>
      rw [toString_negSucc_toList, Int.negSucc_eq]
      exact .minus (numeral_toString (magnitude + 1))

theorem signed?_toString (number : Int64) :
    signed? (toString number.toInt).toList = some number :=
  signed?_of_integer (integer_toString number.toInt)

end FrameTiming.Number
