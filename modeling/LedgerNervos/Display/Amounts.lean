import LedgerNervos.Display.Text
import LedgerNervos.Text.Decimal

/-!
# The texts of numbers and amounts

The digit loops make decimal numerals: a number is shown as its numeral, and an amount of `n`
hundred-millionths as the numeral of `n / 10 ^ 8`.
-/

namespace LedgerNervos

/-- The decimal places of an amount. -/
def ckbPlaces : ℕ := 8

/-! ### The digit loops -/

theorem digitChar_mod_ten (number : UInt64) :
    Char.ofNat ('0'.toNat + (number % 10).toNat) = Nat.digitChar (number.toNat % 10) := by
  have hall : ∀ m < 10, Char.ofNat ('0'.toNat + m) = Nat.digitChar m := by decide
  exact hall _ (Nat.mod_lt _ (by decide))

/-- With leading zeroes, the loop makes the last digits. -/
theorem convertNumber_true (k : ℕ) (number : UInt64) (acc : List Char) :
    convertNumber true k number acc = lastDigits k number.toNat ++ acc := by
  induction k generalizing number acc with
  | zero => rfl
  | succ k ih =>
    have hstep : convertNumber true (k + 1) number acc =
        convertNumber true k (number / 10) (Nat.digitChar (number.toNat % 10) :: acc) := by
      rw [convertNumber, digitChar_mod_ten]
      exact if_neg (by simp)
    rw [hstep, ih, lastDigits, List.append_assoc]
    rfl

/-- Without, it makes all digits, when there is room for them. -/
theorem convertNumber_false {k : ℕ} {number : UInt64} (hk : number.toNat < 10 ^ (k + 1))
    (acc : List Char) :
    convertNumber false (k + 1) number acc = Nat.toDigits 10 number.toNat ++ acc := by
  induction k generalizing number acc with
  | zero =>
    have hlt : number.toNat < 10 := by simpa using hk
    rw [convertNumber, digitChar_mod_ten, Nat.toDigits_of_lt_base hlt, Nat.mod_eq_of_lt hlt]
    simp [convertNumber]
  | succ k ih =>
    rw [convertNumber, digitChar_mod_ten]
    have hdiv : (number / 10).toNat = number.toNat / 10 := UInt64.toNat_div ..
    by_cases hlt : number.toNat < 10
    · have hzero : number / 10 = 0 := by
        rw [← UInt64.toNat_inj, hdiv, Nat.div_eq_of_lt hlt]
        rfl
      rw [if_pos (by simpa using hzero), Nat.toDigits_of_lt_base hlt, Nat.mod_eq_of_lt hlt]
      rfl
    · have hne : number / 10 ≠ 0 := by
        rw [Ne, ← UInt64.toNat_inj, hdiv]
        exact Nat.pos_iff_ne_zero.1 (Nat.div_pos (Nat.not_lt.1 hlt) (by decide))
      have hroom : (number / 10).toNat < 10 ^ (k + 1) := by
        rw [hdiv]
        omega
      rw [if_neg (by simpa using hne), ih hroom, hdiv,
        Nat.toDigits_of_base_le (by decide) (Nat.not_lt.1 hlt), List.append_assoc]
      rfl

/-! ### The texts -/

/-- **A number** is shown as its numeral. -/
theorem numberToString_eq (number : UInt64) :
    numberToString number = Nat.toDigits 10 number.toNat := by
  have hroom : number.toNat < 10 ^ (19 + 1) := number.toNat_lt.trans (by decide)
  rw [numberToString, maxIntDigits, convertNumber_false hroom, List.append_nil]

/-- The digits of the fraction, with the zeros behind them. -/
theorem fractionDigits_eq (number : UInt64) :
    (convertNumber true maxIntDigits number []).drop (maxIntDigits - 8) =
      lastDigits ckbPlaces number.toNat := by
  rw [convertNumber_true, List.append_nil]
  exact drop_lastDigits 12 8 _

/-- **An amount** is shown as the numeral of its value. -/
theorem fracCkbToString_eq (number : UInt64) :
    fracCkbToString number = (decimal ckbPlaces number.toNat).text := by
  have hwhole : numberToString (number / 100000000) =
      (decimal ckbPlaces number.toNat).whole := by
    rw [numberToString_eq, UInt64.toNat_div]
    rfl
  have hfraction : number % 100000000 = 0 ↔ (decimal ckbPlaces number.toNat).fraction = [] := by
    rw [fraction_eq_nil_iff, ← UInt64.toNat_inj, UInt64.toNat_mod]
    rfl
  rw [fracCkbToString, fractionDigits_eq, hwhole, Decimal.text]
  simp only [hfraction]
  split_ifs
  · exact (List.append_nil _).symm
  · rfl

/-- The characters of an amount. -/
def amountWidth (number : UInt64) : ℕ := decimalLength ckbPlaces number.toNat

theorem length_fracCkbToString (number : UInt64) :
    (fracCkbToString number).length = amountWidth number := by
  rw [fracCkbToString_eq, length_decimal]
  rfl

theorem length_numberToString (number : UInt64) :
    (numberToString number).length = Nat.log 10 number.toNat + 1 := by
  rw [numberToString_eq, length_toDigits_ten]

end LedgerNervos
