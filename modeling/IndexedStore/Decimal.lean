import IndexedStore.Bytes

set_option autoImplicit false

/-! # Decimal numerals

Natural numbers as ASCII digits, the highest first, without leading zeros. What is
written reads as the number again (`value?_digits`). A numeral may be far longer than any number
that is of use, so a reader that wants a number below a bound stops at the digit that passes it
(`below?_eq`). -/

namespace IndexedStore.Decimal

/-- Whether a byte is an ASCII digit. -/
def isDigit (b : UInt8) : Bool :=
  48 ≤ b && b ≤ 57

/-- The digits of a number. -/
def digits (n : Nat) : Bytes :=
  if n < 10 then [UInt8.ofNat (48 + n)]
  else digits (n / 10) ++ [UInt8.ofNat (48 + n % 10)]
decreasing_by omega

/-- The number that digits spell, with `n` before them. -/
def valueFrom (n : Nat) : Bytes → Option Nat
  | [] => some n
  | b :: rest => if isDigit b then valueFrom (n * 10 + (b.toNat - 48)) rest else none

/-- The number that one or more digits spell; a zero stands in front of no other digit. -/
def value? : Bytes → Option Nat
  | [] => none
  | b :: rest => if b = 48 ∧ rest ≠ [] then none else valueFrom 0 (b :: rest)

/-- The number below `bound` that digits spell, with `n` before them. -/
def belowFrom (bound n : Nat) : Bytes → Option Nat
  | [] => if n < bound then some n else none
  | b :: rest =>
    if n < bound ∧ isDigit b then belowFrom bound (n * 10 + (b.toNat - 48)) rest else none

/-- The number below `bound` that one or more digits spell; a zero stands in front of no other
digit. -/
def below? (bound : Nat) : Bytes → Option Nat
  | [] => none
  | b :: rest => if b = 48 ∧ rest ≠ [] then none else belowFrom bound 0 (b :: rest)

theorem valueFrom_append (n : Nat) (front back : Bytes) :
    valueFrom n (front ++ back) = (valueFrom n front).bind (valueFrom · back) := by
  induction front generalizing n with
  | nil => rfl
  | cons b rest ih =>
    simp only [List.cons_append, valueFrom]
    split
    · exact ih _
    · rfl

theorem toNat_digit {d : Nat} (h : d < 10) : (UInt8.ofNat (48 + d)).toNat = 48 + d := by
  simp only [UInt8.toNat_ofNat']
  omega

theorem isDigit_digit {d : Nat} (h : d < 10) : isDigit (UInt8.ofNat (48 + d)) = true := by
  simp only [isDigit, Bool.and_eq_true, decide_eq_true_eq, UInt8.le_iff_toNat_le, toNat_digit h]
  exact ⟨by simp, by simp; omega⟩

theorem valueFrom_digit {d : Nat} (h : d < 10) (n : Nat) :
    valueFrom n [UInt8.ofNat (48 + d)] = some (n * 10 + d) := by
  rw [valueFrom, if_pos (isDigit_digit h), toNat_digit h, valueFrom]
  congr 1
  omega

theorem valueFrom_digits (n : Nat) : valueFrom 0 (digits n) = some n := by
  induction n using Nat.strongRecOn with
  | ind n ih =>
    rw [digits]
    split
    next h => simpa using valueFrom_digit h 0
    next h =>
      rw [valueFrom_append, ih (n / 10) (by omega), Option.bind_some,
        valueFrom_digit (Nat.mod_lt n (by omega))]
      congr 1
      omega

/-- A number of two digits or more begins with a digit other than zero. -/
theorem head_digits {n : Nat} (h : 0 < n) : ∃ b rest, digits n = b :: rest ∧ b ≠ 48 := by
  induction n using Nat.strongRecOn with
  | ind n ih =>
    rw [digits]
    split
    next hlt =>
      refine ⟨_, [], rfl, fun e => ?_⟩
      have := congrArg UInt8.toNat e
      simp only [UInt8.toNat_ofNat', UInt8.reduceToNat] at this
      omega
    next hge =>
      obtain ⟨b, rest, hb, hne⟩ := ih (n / 10) (by omega) (by omega)
      exact ⟨b, rest ++ [UInt8.ofNat (48 + n % 10)], by rw [hb]; rfl, hne⟩

/-- **The digits of a number spell it.** -/
@[simp] theorem value?_digits (n : Nat) : value? (digits n) = some n := by
  rcases Nat.eq_zero_or_pos n with rfl | hpos
  · simp [digits, value?, valueFrom, isDigit]
  · obtain ⟨b, rest, hb, hne⟩ := head_digits hpos
    rw [hb, value?, if_neg (fun h => hne h.1), ← hb, valueFrom_digits]

/-! ## Bounded numbers -/

/-- More digits never make a number smaller. -/
theorem le_of_valueFrom {n m : Nat} {numeral : Bytes} (h : valueFrom n numeral = some m) :
    n ≤ m := by
  induction numeral generalizing n with
  | nil => exact Nat.le_of_eq (Option.some.inj h)
  | cons b rest ih =>
    rw [valueFrom] at h
    split at h
    · have := ih h
      omega
    · contradiction

theorem belowFrom_eq (bound n : Nat) (numeral : Bytes) :
    belowFrom bound n numeral = (valueFrom n numeral).filter (· < bound) := by
  induction numeral generalizing n with
  | nil => by_cases h : n < bound <;> simp [belowFrom, valueFrom, Option.filter, h]
  | cons b rest ih =>
    by_cases hd : isDigit b
    · by_cases hn : n < bound
      · simp [belowFrom, valueFrom, hd, hn, ih]
      · rw [belowFrom, if_neg (fun h => hn h.1), eq_comm, Option.filter_eq_none_iff]
        intro m hm
        have := le_of_valueFrom hm
        simp only [decide_eq_true_eq]
        omega
    · simp [belowFrom, valueFrom, hd]

/-- **A bounded reader** finds what the digits spell, if that is below the bound. -/
theorem below?_eq (bound : Nat) (numeral : Bytes) :
    below? bound numeral = (value? numeral).filter (· < bound) := by
  cases numeral with
  | nil => rfl
  | cons b rest =>
    rw [below?, value?, belowFrom_eq]
    split <;> rfl

end IndexedStore.Decimal
