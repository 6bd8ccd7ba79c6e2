import Mathlib.Data.List.DropRight
import Mathlib.Data.Rat.Lemmas
import Mathlib.Data.Nat.Log
import Mathlib.Tactic.FieldSimp
import Mathlib.Tactic.Ring

/-!
# Decimal numerals

Numerals with a decimal point, as lists of characters.  `parseDecimal` splits a numeral at the
point, and `Decimal.value` is what it stands for.  `decimal k n` is the numeral of `n / 10 ^ k`
without superfluous zeros.

## Main results

* `parseDecimal_decimal`, `value_decimal` : the numeral of `n / 10 ^ k` stands for it.
* `canonical_decimal` : it has no superfluous zeros and no superfluous point.
* `length_decimal` : its length.
-/

namespace LedgerNervos

/-! ### Digits -/

/-- The last `k` digits of a number. -/
def lastDigits : ℕ → ℕ → List Char
  | 0, _ => []
  | k + 1, n => lastDigits k (n / 10) ++ [Nat.digitChar (n % 10)]

@[simp] theorem length_lastDigits (k n : ℕ) : (lastDigits k n).length = k := by
  induction k generalizing n with
  | zero => rfl
  | succ k ih => simp [lastDigits, ih]

theorem isDigit_digitChar_mod (n : ℕ) : (Nat.digitChar (n % 10)).isDigit = true := by
  rw [Nat.isDigit_digitChar]
  exact decide_eq_true (Nat.mod_lt _ (by decide))

theorem isDigit_lastDigits {k n : ℕ} : ∀ c ∈ lastDigits k n, c.isDigit = true := by
  induction k generalizing n with
  | zero => exact List.forall_mem_nil _
  | succ k ih =>
    rw [lastDigits, List.forall_mem_append, List.forall_mem_singleton]
    exact ⟨ih, isDigit_digitChar_mod n⟩

theorem ofDigitChars_snoc (cs : List Char) (n : ℕ) :
    Nat.ofDigitChars 10 (cs ++ [Nat.digitChar (n % 10)]) 0 =
      10 * Nat.ofDigitChars 10 cs 0 + n % 10 := by
  rw [Nat.ofDigitChars_append, Nat.ofDigitChars_cons, Nat.ofDigitChars_nil,
    Nat.toNat_digitChar_of_lt_ten (Nat.mod_lt _ (by decide))]
  exact congrArg (10 * Nat.ofDigitChars 10 cs 0 + ·) (Nat.add_sub_cancel_left 48 (n % 10))

theorem ofDigitChars_lastDigits (k n : ℕ) :
    Nat.ofDigitChars 10 (lastDigits k n) 0 = n % 10 ^ k := by
  induction k generalizing n with
  | zero => rw [pow_zero, Nat.mod_one]; rfl
  | succ k ih =>
    rw [lastDigits, ofDigitChars_snoc, ih, pow_succ', Nat.mod_mul]
    omega

/-- The last digits of the last digits. -/
theorem drop_lastDigits (j k n : ℕ) : (lastDigits (j + k) n).drop j = lastDigits k n := by
  induction k generalizing n with
  | zero =>
    rw [Nat.add_zero, List.drop_eq_nil_of_le (length_lastDigits j n).le]
    rfl
  | succ k ih =>
    rw [← Nat.add_assoc, lastDigits, List.drop_append_of_le_length (by simp), ih]
    rfl

/-! ### Numerals -/

/-- A numeral: the digits in front of the point and behind it. -/
structure Decimal where
  whole : List Char
  fraction : List Char
deriving DecidableEq, Repr

namespace Decimal

/-- A numeral without a fraction is written without a point. -/
def text (d : Decimal) : List Char :=
  d.whole ++ if d.fraction = [] then [] else '.' :: d.fraction

/-- What a numeral stands for. -/
def value (d : Decimal) : ℚ :=
  Nat.ofDigitChars 10 d.whole 0 + Nat.ofDigitChars 10 d.fraction 0 / 10 ^ d.fraction.length

/-- The units of `1 / 10 ^ k` in a numeral, if their number is an integer. -/
def units (k : ℕ) (d : Decimal) : Option ℕ :=
  if d.fraction.length ≤ k then
    some (Nat.ofDigitChars 10 d.whole 0 * 10 ^ k +
      Nat.ofDigitChars 10 d.fraction 0 * 10 ^ (k - d.fraction.length))
  else none

/-- Digits without superfluous zeros. -/
structure Canonical (d : Decimal) : Prop where
  whole : ∀ c ∈ d.whole, c.isDigit = true
  fraction : ∀ c ∈ d.fraction, c.isDigit = true
  /-- A whole part that begins with a zero is zero. -/
  leading : d.whole ≠ [] ∧ (d.whole.head? = some '0' → d.whole = ['0'])
  trailing : d.fraction.getLast? ≠ some '0'

end Decimal

/-- Split a numeral at the point.  There have to be digits on both sides of it. -/
def parseDecimal (text : List Char) : Option Decimal :=
  let whole := text.takeWhile Char.isDigit
  if whole = [] then none
  else match text.dropWhile Char.isDigit with
    | [] => some ⟨whole, []⟩
    | c :: fraction =>
      if c = '.' ∧ fraction ≠ [] ∧ fraction.all Char.isDigit then some ⟨whole, fraction⟩ else none

theorem takeWhile_digits {ds : List Char} (hds : ∀ c ∈ ds, c.isDigit = true) (cs : List Char) :
    (ds ++ cs).takeWhile Char.isDigit = ds ++ cs.takeWhile Char.isDigit ∧
      (ds ++ cs).dropWhile Char.isDigit = cs.dropWhile Char.isDigit :=
  ⟨List.takeWhile_append_of_pos hds, List.dropWhile_append_of_pos hds⟩

/-- The text of a canonical numeral is parsed to it. -/
theorem Decimal.Canonical.parse {d : Decimal} (h : d.Canonical) :
    parseDecimal d.text = some d := by
  obtain ⟨whole, fraction⟩ := d
  obtain ⟨hwhole, hfraction, ⟨hne, -⟩, -⟩ := h
  rw [parseDecimal, Decimal.text]
  obtain ⟨htake, hdrop⟩ := takeWhile_digits hwhole
    (if fraction = [] then [] else '.' :: fraction)
  rw [htake, hdrop]
  cases fraction with
  | nil =>
    simp only [if_true, List.takeWhile_nil, List.dropWhile_nil, List.append_nil]
    rw [if_neg hne]
  | cons c cs =>
    have hall : (c :: cs).all Char.isDigit = true := List.all_eq_true.2 hfraction
    simp only [reduceCtorEq, if_false, List.takeWhile_cons, List.dropWhile_cons,
      show ('.').isDigit = false from rfl, Bool.false_eq_true, List.append_nil]
    rw [if_neg hne, if_pos ⟨trivial, List.cons_ne_nil _ _, hall⟩]

/-! ### The numeral of a number -/

/-- The numeral of `n / 10 ^ k`. -/
def decimal (k n : ℕ) : Decimal where
  whole := Nat.toDigits 10 (n / 10 ^ k)
  fraction := (lastDigits k n).rdropWhile (· = '0')

/-- The digits that `n / 10 ^ k` needs behind the point. -/
def places : ℕ → ℕ → ℕ
  | 0, _ => 0
  | k + 1, n => if n % 10 = 0 then places k (n / 10) else k + 1

/-- The characters of the numeral of `n / 10 ^ k`. -/
def decimalLength (k n : ℕ) : ℕ :=
  Nat.log 10 (n / 10 ^ k) + 1 + if places k n = 0 then 0 else places k n + 1

theorem length_toDigits_ten (n : ℕ) : (Nat.toDigits 10 n).length = Nat.log 10 n + 1 := by
  have hle : (Nat.toDigits 10 n).length ≤ Nat.log 10 n + 1 :=
    (Nat.length_toDigits_le_iff (by decide) (Nat.succ_pos _)).2
      (Nat.lt_pow_succ_log_self (by decide) n)
  have hpos : 0 < (Nat.toDigits 10 n).length := Nat.length_toDigits_pos
  by_contra hne
  have hlog : (Nat.toDigits 10 n).length ≤ Nat.log 10 n := by omega
  have hlt : n < 10 ^ Nat.log 10 n :=
    (Nat.length_toDigits_le_iff (by decide) (hpos.trans_le hlog)).1 hlog
  have hzero : n ≠ 0 := by
    rintro rfl
    rw [Nat.log_zero_right] at hlog
    omega
  exact absurd (Nat.pow_log_le_self 10 hzero) (by omega)

theorem head_toDigits_ten {n : ℕ} (h : (Nat.toDigits 10 n).head? = some '0') :
    Nat.toDigits 10 n = ['0'] := by
  induction n using Nat.strong_induction_on with
  | _ n ih =>
    by_cases hlt : n < 10
    · rw [Nat.toDigits_of_lt_base hlt] at h ⊢
      rw [Option.some.inj h]
    · rw [Nat.toDigits_of_base_le (by decide) (Nat.not_lt.1 hlt)] at h
      rw [List.head?_append_of_ne_nil _ Nat.toDigits_ne_nil] at h
      have hdigits := ih (n / 10) (by omega) h
      have hvalue : n / 10 = 0 := by
        rw [← @Nat.ofDigitChars_ten_toDigits (n / 10), hdigits]
        rfl
      omega

/-- The zeros that are left out. -/
theorem lastDigits_eq (k n : ℕ) : lastDigits k n = (decimal k n).fraction ++
    List.replicate (k - (decimal k n).fraction.length) '0' := by
  have hsplit : (decimal k n).fraction ++ (lastDigits k n).rtakeWhile (· = '0') = lastDigits k n :=
    List.rdropWhile_append_rtakeWhile
  have hlength := congrArg List.length hsplit
  rw [List.length_append, length_lastDigits] at hlength
  have hzeros : (lastDigits k n).rtakeWhile (· = '0') =
      List.replicate (k - (decimal k n).fraction.length) '0' := by
    refine List.eq_replicate_iff.2 ⟨by omega, fun c hc => ?_⟩
    have hzero := List.mem_rtakeWhile_imp hc
    exact of_decide_eq_true hzero
  rw [← hzeros, hsplit]

theorem length_fraction_le (k n : ℕ) : (decimal k n).fraction.length ≤ k := by
  have hlength := congrArg List.length (lastDigits_eq k n)
  rw [List.length_append, length_lastDigits] at hlength
  omega

/-- What the fraction stands for. -/
theorem ofDigitChars_fraction (k n : ℕ) :
    n % 10 ^ k = Nat.ofDigitChars 10 (decimal k n).fraction 0 *
      10 ^ (k - (decimal k n).fraction.length) := by
  have hdigits := ofDigitChars_lastDigits k n
  rw [lastDigits_eq, Nat.ofDigitChars_append, Nat.ofDigitChars_replicate_zero] at hdigits
  rw [← hdigits, Nat.mul_comm]

theorem ofDigitChars_whole (k n : ℕ) :
    Nat.ofDigitChars 10 (decimal k n).whole 0 = n / 10 ^ k := Nat.ofDigitChars_ten_toDigits

/-- The numeral has as many units as the number. -/
theorem units_decimal (k n : ℕ) : (decimal k n).units k = some n := by
  rw [Decimal.units, if_pos (length_fraction_le k n), ofDigitChars_whole, ← ofDigitChars_fraction,
    Nat.div_add_mod']

/-- **The value** of the numeral. -/
theorem value_decimal (k n : ℕ) : (decimal k n).value = n / 10 ^ k := by
  have hpow : (10 : ℚ) ^ k =
      10 ^ (decimal k n).fraction.length * 10 ^ (k - (decimal k n).fraction.length) := by
    rw [← pow_add, Nat.add_sub_cancel' (length_fraction_le k n)]
  have hfraction : (Nat.ofDigitChars 10 (decimal k n).fraction 0 : ℚ) /
      10 ^ (decimal k n).fraction.length * 10 ^ k = (n % 10 ^ k : ℕ) := by
    rw [hpow, ofDigitChars_fraction, Nat.cast_mul, Nat.cast_pow, ← mul_assoc,
      div_mul_cancel₀ _ (pow_ne_zero _ (by decide))]
    rfl
  rw [Decimal.value, ofDigitChars_whole, eq_div_iff (pow_ne_zero _ (by decide)), add_mul, hfraction]
  exact_mod_cast Nat.div_add_mod' n (10 ^ k)

theorem length_fraction (k n : ℕ) : (decimal k n).fraction.length = places k n := by
  change ((lastDigits k n).rdropWhile (· = '0')).length = places k n
  induction k generalizing n with
  | zero => rfl
  | succ k ih =>
    rw [lastDigits, List.rdropWhile_concat, places]
    by_cases hzero : n % 10 = 0
    · rw [if_pos (by simpa using hzero), if_pos hzero, ih]
    · rw [if_neg (by simpa using hzero), if_neg hzero]
      simp

theorem places_eq_zero_iff (k n : ℕ) : places k n = 0 ↔ n % 10 ^ k = 0 := by
  induction k generalizing n with
  | zero => simp [places, Nat.mod_one]
  | succ k ih =>
    rw [places, pow_succ', Nat.mod_mul]
    by_cases hzero : n % 10 = 0
    · rw [if_pos hzero, ih]
      omega
    · rw [if_neg hzero]
      omega

/-- The fraction is empty just when it is zero. -/
theorem fraction_eq_nil_iff (k n : ℕ) : (decimal k n).fraction = [] ↔ n % 10 ^ k = 0 := by
  rw [← List.length_eq_zero_iff, length_fraction, places_eq_zero_iff]

theorem canonical_decimal (k n : ℕ) : (decimal k n).Canonical where
  whole _ hc := Nat.isDigit_of_mem_toDigits (by decide) (by decide) hc
  fraction c hc := by
    have hmem : c ∈ lastDigits k n := by
      rw [lastDigits_eq]
      exact List.mem_append_left _ hc
    exact isDigit_lastDigits c hmem
  leading := ⟨Nat.toDigits_ne_nil, head_toDigits_ten⟩
  trailing h := by
    have hne : (decimal k n).fraction ≠ [] := by
      intro hnil
      rw [hnil] at h
      cases h
    rw [List.getLast?_eq_some_getLast hne] at h
    exact List.rdropWhile_last_not _ _ hne (decide_eq_true (Option.some.inj h))

/-- **The length** of the numeral. -/
theorem length_decimal (k n : ℕ) : (decimal k n).text.length = decimalLength k n := by
  have hlength := length_fraction k n
  rw [Decimal.text, List.length_append, decimalLength, ← length_toDigits_ten, ← hlength]
  by_cases hnil : (decimal k n).fraction = []
  · rw [if_pos hnil, if_pos (by rw [hnil]; rfl)]
    rfl
  · rw [if_neg hnil, if_neg (fun h => hnil (List.length_eq_zero_iff.1 h)), List.length_cons]
    rfl

end LedgerNervos
