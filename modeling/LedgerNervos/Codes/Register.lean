import Mathlib.Algebra.GroupWithZero.Nat
import Mathlib.Data.Nat.Notation
import Mathlib.Logic.Function.Iterate

/-!
# Checksum registers

A checksum over symbols of a fixed width, kept in a register: in each step the low part of the
register is shifted by a symbol, and for each bit of the high part that is set, a generator is
added, where addition is exclusive or.  A step is linear, so the symbols that bring a register to a
given value can be read off from what it becomes when only zeros are fed (`feed_symbols`).

## Main results

* `XorRegister.step_xor` : a step is linear.
* `XorRegister.feed_xor` : so is a run, in the register that it starts from.
* `XorRegister.feed_symbols` : the symbols that bring a register to a value.
-/

namespace LedgerNervos

/-- The sum of the generators at the bits that are set. -/
def xorSum : List ℕ → ℕ → ℕ
  | [], _ => 0
  | g :: gs, b => (if b.testBit 0 then g else 0) ^^^ xorSum gs (b >>> 1)

theorem xorSum_zero (gs : List ℕ) : xorSum gs 0 = 0 := by
  induction gs with
  | nil => rfl
  | cons g gs ih => simp [xorSum, ih]

theorem xorSum_xor (gs : List ℕ) (a b : ℕ) :
    xorSum gs (a ^^^ b) = xorSum gs a ^^^ xorSum gs b := by
  induction gs generalizing a b with
  | nil => exact (Nat.xor_self 0).symm
  | cons g gs ih =>
    have hbit : (if (a ^^^ b).testBit 0 then g else 0) =
        (if a.testBit 0 then g else 0) ^^^ (if b.testBit 0 then g else 0) := by
      rw [Nat.testBit_xor]
      cases a.testBit 0 <;> cases b.testBit 0 <;> simp
    simp only [xorSum]
    rw [hbit, Nat.shiftRight_xor_distrib, ih]
    ac_rfl

theorem xorSum_lt {gs : List ℕ} {n : ℕ} (h : ∀ g ∈ gs, g < 2 ^ n) (b : ℕ) :
    xorSum gs b < 2 ^ n := by
  induction gs generalizing b with
  | nil => exact Nat.two_pow_pos n
  | cons g gs ih =>
    have hhead : (if b.testBit 0 then g else 0) < 2 ^ n := by
      split
      · exact h g List.mem_cons_self
      · exact Nat.two_pow_pos n
    exact Nat.xor_lt_two_pow hhead (ih (fun g hg => h g (List.mem_cons_of_mem _ hg)) _)

/-- The symbols of a number, `n` of them, the highest first. -/
def symbols (width : ℕ) : ℕ → ℕ → List ℕ
  | 0, _ => []
  | n + 1, x => (x >>> (width * n)) % 2 ^ width :: symbols width n x

@[simp] theorem length_symbols (width n x : ℕ) : (symbols width n x).length = n := by
  induction n with
  | zero => rfl
  | succ n ih => rw [symbols, List.length_cons, ih]

theorem symbols_lt {width n x v : ℕ} (hv : v ∈ symbols width n x) : v < 2 ^ width := by
  induction n with
  | zero => cases hv
  | succ n ih =>
    obtain rfl | hv := List.mem_cons.1 hv
    · exact Nat.mod_lt _ (Nat.two_pow_pos _)
    · exact ih hv

/-- A register of `low + width` bits for symbols of `width` bits. -/
structure XorRegister where
  width : ℕ
  low : ℕ
  generators : List ℕ
  generators_lt : ∀ g ∈ generators, g < 2 ^ (low + width)

namespace XorRegister

variable (R : XorRegister)

/-- Shift by a symbol. -/
def step (c : ℕ) : ℕ := (c % 2 ^ R.low) <<< R.width ^^^ xorSum R.generators (c >>> R.low)

/-- Feed symbols. -/
def feed (c : ℕ) (vs : List ℕ) : ℕ := vs.foldl (fun c v => R.step c ^^^ v) c

@[simp] theorem feed_nil (c : ℕ) : R.feed c [] = c := rfl

@[simp] theorem feed_cons (c v : ℕ) (vs : List ℕ) :
    R.feed c (v :: vs) = R.feed (R.step c ^^^ v) vs := rfl

theorem feed_append (c : ℕ) (vs ws : List ℕ) : R.feed c (vs ++ ws) = R.feed (R.feed c vs) ws :=
  List.foldl_append

theorem step_lt (c : ℕ) : R.step c < 2 ^ (R.low + R.width) := by
  refine Nat.xor_lt_two_pow ?_ (xorSum_lt R.generators_lt _)
  rw [Nat.shiftLeft_eq, Nat.pow_add]
  exact Nat.mul_lt_mul_of_pos_right (Nat.mod_lt _ (Nat.two_pow_pos _)) (Nat.two_pow_pos _)

theorem iterate_step_lt {c : ℕ} (hc : c < 2 ^ (R.low + R.width)) (n : ℕ) :
    R.step^[n] c < 2 ^ (R.low + R.width) := by
  cases n with
  | zero => exact hc
  | succ n =>
    rw [Function.iterate_succ_apply']
    exact R.step_lt _

theorem feed_lt {c : ℕ} (hc : c < 2 ^ (R.low + R.width)) {vs : List ℕ}
    (hvs : ∀ v ∈ vs, v < 2 ^ (R.low + R.width)) : R.feed c vs < 2 ^ (R.low + R.width) := by
  induction vs generalizing c with
  | nil => exact hc
  | cons v vs ih =>
    exact ih (Nat.xor_lt_two_pow (R.step_lt c) (hvs v List.mem_cons_self)) fun v hv =>
      hvs v (List.mem_cons_of_mem _ hv)

/-- Only the high part of the register is multiplied. -/
theorem step_of_lt {c : ℕ} (h : c < 2 ^ R.low) : R.step c = c <<< R.width := by
  rw [step, Nat.mod_eq_of_lt h, Nat.shiftRight_eq_zero _ _ h, xorSum_zero, Nat.xor_zero]

theorem step_xor (a b : ℕ) : R.step (a ^^^ b) = R.step a ^^^ R.step b := by
  simp only [step]
  rw [Nat.xor_mod_two_pow, Nat.shiftLeft_xor_distrib, Nat.shiftRight_xor_distrib, xorSum_xor]
  ac_rfl

/-- What is added to the register in front is only shifted. -/
theorem feed_xor (a b : ℕ) (vs : List ℕ) :
    R.feed (a ^^^ b) vs = R.feed a vs ^^^ R.step^[vs.length] b := by
  induction vs generalizing a b with
  | nil => rfl
  | cons v vs ih =>
    have hshift : R.step (a ^^^ b) ^^^ v = (R.step a ^^^ v) ^^^ R.step b := by
      rw [R.step_xor]
      ac_rfl
    rw [feed_cons, feed_cons, hshift, ih, List.length_cons, Function.iterate_succ_apply]

/-- A register takes in the symbols of a number one by one, as long as there is room. -/
theorem feed_symbols_of_lt {x : ℕ} (hx : x < 2 ^ (R.low + R.width)) (n : ℕ) :
    R.feed (x >>> (R.width * n)) (symbols R.width n x) = x := by
  induction n with
  | zero => rfl
  | succ n ih =>
    have hroom : x >>> (R.width * (n + 1)) < 2 ^ R.low := by
      rw [Nat.shiftRight_eq_div_pow, Nat.div_lt_iff_lt_mul (Nat.two_pow_pos _), ← Nat.pow_add]
      refine Nat.lt_of_lt_of_le hx (Nat.pow_le_pow_right Nat.two_pos ?_)
      rw [Nat.mul_succ]
      omega
    have hjoin : (x >>> (R.width * (n + 1))) <<< R.width ^^^ x >>> (R.width * n) % 2 ^ R.width =
        x >>> (R.width * n) := by
      rw [Nat.mul_succ, Nat.shiftRight_add]
      generalize x >>> (R.width * n) = y
      refine Nat.eq_of_testBit_eq fun i => ?_
      rw [Nat.testBit_xor, Nat.testBit_shiftLeft, Nat.testBit_shiftRight, Nat.testBit_mod_two_pow]
      by_cases hi : i < R.width
      · simp [hi, Nat.not_le.2 hi]
      · simp [hi, Nat.not_lt.1 hi]
    rw [symbols, feed_cons, R.step_of_lt hroom, hjoin, ih]

/-- The symbols that bring a register to a value. -/
theorem feed_symbols {c t n : ℕ} (hc : c < 2 ^ (R.low + R.width)) (ht : t < 2 ^ (R.low + R.width))
    (hn : R.low + R.width ≤ R.width * n) :
    R.feed c (symbols R.width n (R.step^[n] c ^^^ t)) = t := by
  have hlt := Nat.xor_lt_two_pow (R.iterate_step_lt hc n) ht
  have hzero : (R.step^[n] c ^^^ t) >>> (R.width * n) = 0 :=
    Nat.shiftRight_eq_zero _ _ (Nat.lt_of_lt_of_le hlt (Nat.pow_le_pow_right Nat.two_pos hn))
  have hfeed := R.feed_symbols_of_lt hlt n
  have hstart := R.feed_xor 0 c (symbols R.width n (R.step^[n] c ^^^ t))
  rw [hzero] at hfeed
  rw [hfeed, length_symbols, Nat.zero_xor] at hstart
  rw [hstart, Nat.xor_comm, ← Nat.xor_assoc, Nat.xor_self, Nat.zero_xor]

end XorRegister

end LedgerNervos
