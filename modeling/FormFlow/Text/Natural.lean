/-!
# Natural numbers in decimal

`Natural.digits` writes a number, `Natural.value` reads a run of digits, and `readIndex` reads the
numerals that address an array element: digits with at most one leading plus sign, leading zeros
allowed, within 64 bits.
-/

namespace FormFlow.Text

/-- The ASCII decimal digits; no other script counts. -/
def isDigit (c : Char) : Bool := '0' ≤ c && c ≤ '9'

def digitValue (c : Char) : Nat := c.toNat - '0'.toNat

namespace Natural

def digit (d : Nat) : Char := Char.ofNat ('0'.toNat + d)

/-- The decimal digits of a number, without leading zeros; zero is one digit. -/
def digits (n : Nat) : List Char :=
  if n < 10 then [digit n] else digits (n / 10) ++ [digit (n % 10)]
termination_by n

/-- The number that a run of digits denotes, continuing one read so far. -/
def valueFrom (n : Nat) (text : List Char) : Nat :=
  text.foldl (fun total c => 10 * total + digitValue c) n

def value (text : List Char) : Nat := valueFrom 0 text

def print (n : Nat) : String := String.ofList (digits n)

end Natural

/-- The greatest index that a numeral can denote. -/
def maxIndex : Nat := Nat.pow 2 64 - 1

/-- Reads an index from its digits alone. -/
def readDigits (text : List Char) : Option Nat :=
  if text ≠ [] ∧ text.all isDigit ∧ Natural.value text ≤ maxIndex then some (Natural.value text)
  else none

def readIndex : List Char → Option Nat
  | '+' :: text => readDigits text
  | text => readDigits text

namespace Natural

theorem digits_ne_nil (n : Nat) : digits n ≠ [] := by
  rw [digits]; split <;> simp

theorem digit_toNat {d : Nat} (h : d < 10) : (digit d).toNat = '0'.toNat + d := by
  have : ∀ d : Fin 10, (digit d.val).toNat = '0'.toNat + d.val := by decide
  exact this ⟨d, h⟩

theorem isDigit_digit {d : Nat} (h : d < 10) : isDigit (digit d) = true := by
  have : ∀ d : Fin 10, isDigit (digit d.val) = true := by decide
  exact this ⟨d, h⟩

theorem digitValue_digit {d : Nat} (h : d < 10) : digitValue (digit d) = d := by
  rw [digitValue, digit_toNat h]; omega

theorem all_isDigit_digits (n : Nat) : (digits n).all isDigit = true := by
  induction n using Nat.strongRecOn with
  | ind n ih =>
    rw [digits]
    split
    · next h => simp [isDigit_digit h]
    · next h =>
      simp [ih (n / 10) (by omega), isDigit_digit (Nat.mod_lt n (by decide : 0 < 10))]

theorem value_digits (n : Nat) : value (digits n) = n := by
  induction n using Nat.strongRecOn with
  | ind n ih =>
    rw [digits]
    split
    · next h => simp [value, valueFrom, digitValue_digit h]
    · next h =>
      have hq := ih (n / 10) (by omega)
      simp only [value, valueFrom] at hq ⊢
      rw [List.foldl_append, hq]
      simp only [List.foldl_cons, List.foldl_nil, digitValue_digit (Nat.mod_lt n (by decide : 0 < 10))]
      omega

theorem digit_eq_digitChar {d : Nat} (h : d < 10) : digit d = Nat.digitChar d := by
  have : ∀ d : Fin 10, digit d.val = Nat.digitChar d.val := by decide
  exact this ⟨d, h⟩

theorem digits_eq_toDigits (n : Nat) : digits n = Nat.toDigits 10 n := by
  induction n using Nat.strongRecOn with
  | ind n ih =>
    rw [digits, Nat.toDigits_eq_if (by decide)]
    split
    · next h => rw [digit_eq_digitChar h]
    · next h => rw [ih (n / 10) (by omega), digit_eq_digitChar (Nat.mod_lt n (by decide))]

/-- Numbers are written as core writes them. -/
theorem print_eq_toString (n : Nat) : print n = toString n := by
  rw [print, digits_eq_toDigits, Nat.toString_eq_ofList_toDigits]

theorem print_injective {m n : Nat} (h : print m = print n) : m = n := by
  have hdigits : digits m = digits n := String.ofList_injective h
  rw [← value_digits m, hdigits, value_digits]

theorem stop_not_mem_digits (n : Nat) : '.' ∉ digits n := by
  intro hmem
  have hdigit := List.all_eq_true.mp (all_isDigit_digits n) '.' hmem
  simp [isDigit] at hdigit

end Natural

theorem readDigits_le {text : List Char} {n : Nat} (h : readDigits text = some n) :
    n ≤ maxIndex := by
  unfold readDigits at h
  split at h
  · next hdigits =>
    obtain rfl := Option.some.inj h
    exact hdigits.2.2
  · cases h

theorem readIndex_le {text : List Char} {n : Nat} (h : readIndex text = some n) :
    n ≤ maxIndex := by
  unfold readIndex at h
  split at h
  · exact readDigits_le h
  · exact readDigits_le h

theorem readDigits_digits {n : Nat} (h : n ≤ maxIndex) : readDigits (Natural.digits n) = some n := by
  simp [readDigits, Natural.digits_ne_nil, Natural.all_isDigit_digits, Natural.value_digits, h]

theorem readIndex_digits {n : Nat} (h : n ≤ maxIndex) : readIndex (Natural.digits n) = some n := by
  have hplus : ∀ rest, Natural.digits n ≠ '+' :: rest := by
    intro rest heq
    have hdigits := Natural.all_isDigit_digits n
    simp [heq, isDigit] at hdigits
  rw [readIndex]
  · exact readDigits_digits h
  · exact hplus

end FormFlow.Text
