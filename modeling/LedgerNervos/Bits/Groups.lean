import Mathlib.Algebra.GroupWithZero.Nat
import Mathlib.Data.List.Basic
import Mathlib.Data.Nat.Notation

/-!
# Groups of bits

Numbers of a fixed width, written down as bits one behind the other, the highest bit of each
first.  Where the same bits are cut into groups of another width, the groups are determined by the
bits, as long as less than a group is left over (`groupBits_inj`).

## Main results

* `bitList_add` : the bits of a number are those of its high part and those of its low part.
* `bitList_shiftLeft_or` : the bits of a number that is put together from two parts.
* `groupBits_inj` : groups are determined by their bits.
-/

namespace LedgerNervos

/-- The low `n` bits of a number, the highest of them first. -/
def bitList : ℕ → ℕ → List Bool
  | 0, _ => []
  | n + 1, x => x.testBit n :: bitList n x

@[simp] theorem length_bitList (n x : ℕ) : (bitList n x).length = n := by
  induction n with
  | zero => rfl
  | succ n ih => rw [bitList, List.length_cons, ih]

theorem bitList_congr {n x y : ℕ} (h : ∀ i < n, x.testBit i = y.testBit i) :
    bitList n x = bitList n y := by
  induction n with
  | zero => rfl
  | succ n ih =>
    rw [bitList, bitList, h n (Nat.lt_succ_self n), ih fun i hi => h i (Nat.lt_succ_of_lt hi)]

theorem testBit_of_bitList_eq {n x y : ℕ} (h : bitList n x = bitList n y) {i : ℕ} (hi : i < n) :
    x.testBit i = y.testBit i := by
  induction n with
  | zero => exact absurd hi (Nat.not_lt_zero i)
  | succ n ih =>
    obtain ⟨hhead, htail⟩ := List.cons.inj h
    obtain rfl | hlt := Nat.eq_or_lt_of_le (Nat.le_of_lt_succ hi)
    · exact hhead
    · exact ih htail hlt

/-- A number is determined by its bits. -/
theorem bitList_inj {n x y : ℕ} (hx : x < 2 ^ n) (hy : y < 2 ^ n)
    (h : bitList n x = bitList n y) : x = y := by
  refine Nat.eq_of_testBit_eq fun i => ?_
  obtain hi | hi := Nat.lt_or_ge i n
  · exact testBit_of_bitList_eq h hi
  · have hpow : 2 ^ n ≤ 2 ^ i := Nat.pow_le_pow_right Nat.two_pos hi
    rw [Nat.testBit_lt_two_pow (Nat.lt_of_lt_of_le hx hpow),
      Nat.testBit_lt_two_pow (Nat.lt_of_lt_of_le hy hpow)]

theorem bitList_zero (n : ℕ) : bitList n 0 = List.replicate n false := by
  induction n with
  | zero => rfl
  | succ n ih => rw [bitList, ih, Nat.zero_testBit, List.replicate_succ]

/-- The bits of the high part, then those of the low part. -/
theorem bitList_add (m n x : ℕ) : bitList (m + n) x = bitList m (x >>> n) ++ bitList n x := by
  induction m with
  | zero => rw [Nat.zero_add, bitList, List.nil_append]
  | succ m ih =>
    rw [Nat.succ_add, bitList, ih, bitList, Nat.testBit_shiftRight, Nat.add_comm n m,
      List.cons_append]

/-- The low bits of a number that has been cut off above them. -/
theorem bitList_mod {k n : ℕ} (h : k ≤ n) (x : ℕ) : bitList k (x % 2 ^ n) = bitList k x :=
  bitList_congr fun i hi => by
    rw [Nat.testBit_mod_two_pow, decide_eq_true (Nat.lt_of_lt_of_le hi h), Bool.true_and]

theorem bitList_shiftLeft (m n x : ℕ) :
    bitList (m + n) (x <<< n) = bitList m x ++ List.replicate n false := by
  rw [bitList_add, Nat.shiftLeft_shiftRight, ← bitList_zero]
  refine congrArg _ (bitList_congr fun i hi => ?_)
  rw [Nat.testBit_shiftLeft, decide_eq_false (Nat.not_le.2 hi), Bool.false_and, Nat.zero_testBit]

/-- A number that is put together from a high part and a low part. -/
theorem bitList_shiftLeft_or (m : ℕ) {n y : ℕ} (x : ℕ) (hy : y < 2 ^ n) :
    bitList (m + n) (x <<< n ||| y) = bitList m x ++ bitList n y := by
  rw [bitList_add, Nat.shiftRight_or_distrib, Nat.shiftLeft_shiftRight,
    Nat.shiftRight_eq_zero y n hy, Nat.or_zero]
  refine congrArg _ (bitList_congr fun i hi => ?_)
  rw [Nat.testBit_or, Nat.testBit_shiftLeft, decide_eq_false (Nat.not_le.2 hi), Bool.false_and,
    Bool.false_or]

/-! ### Groups -/

/-- The bits of groups of `w` bits each. -/
def groupBits (w : ℕ) (gs : List ℕ) : List Bool := gs.flatMap (bitList w)

@[simp] theorem groupBits_nil (w : ℕ) : groupBits w [] = [] := rfl

@[simp] theorem groupBits_cons (w g : ℕ) (gs : List ℕ) :
    groupBits w (g :: gs) = bitList w g ++ groupBits w gs := rfl

@[simp] theorem groupBits_append (w : ℕ) (gs gs' : List ℕ) :
    groupBits w (gs ++ gs') = groupBits w gs ++ groupBits w gs' := List.flatMap_append

/-- Groups are determined by their bits, where less than a group is left over behind them. -/
theorem groupBits_inj {w : ℕ} {gs gs' : List ℕ} {rest rest' : List Bool}
    (hgs : ∀ g ∈ gs, g < 2 ^ w) (hgs' : ∀ g ∈ gs', g < 2 ^ w) (hrest : rest.length < w)
    (hrest' : rest'.length < w) (h : groupBits w gs ++ rest = groupBits w gs' ++ rest') :
    gs = gs' ∧ rest = rest' := by
  induction gs generalizing gs' with
  | nil =>
    cases gs' with
    | nil => exact ⟨rfl, h⟩
    | cons g' gs' =>
      have hlength := congrArg List.length h
      simp only [groupBits_nil, groupBits_cons, List.nil_append, List.length_append,
        length_bitList] at hlength
      omega
  | cons g gs ih =>
    cases gs' with
    | nil =>
      have hlength := congrArg List.length h
      simp only [groupBits_nil, groupBits_cons, List.nil_append, List.length_append,
        length_bitList] at hlength
      omega
    | cons g' gs' =>
      rw [groupBits_cons, groupBits_cons, List.append_assoc, List.append_assoc] at h
      obtain ⟨hhead, htail⟩ := List.append_inj h (by rw [length_bitList, length_bitList])
      obtain ⟨hg, hgs⟩ := List.forall_mem_cons.1 hgs
      obtain ⟨hg', hgs'⟩ := List.forall_mem_cons.1 hgs'
      obtain ⟨rfl, hleft⟩ := ih hgs hgs' htail
      exact ⟨by rw [bitList_inj hg hg' hhead], hleft⟩

end LedgerNervos
