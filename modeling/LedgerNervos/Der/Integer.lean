import Mathlib.Algebra.GroupWithZero.Nat
import Mathlib.Data.List.Basic
import Mathlib.Data.Nat.Notation

/-!
# Integers in DER

Numbers as bytes, the highest first, and the encoding of integers in DER: two's complement with as
few bytes as possible.  So a number whose highest bit would be taken for a sign has a zero byte in
front, and no other number has.

## Main results

* `beValue_inj` : bytes are determined by their number and the number of bytes.
* `Der.isInteger_contents` : what the encoding of an integer looks like.
* `Der.IsInteger.length_le` : a number of `k` bytes needs at most one byte more.
-/

namespace LedgerNervos

/-! ### Numbers, the highest byte first -/

/-- The number of bytes, the highest first. -/
def beValue : List UInt8 → ℕ
  | [] => 0
  | b :: bs => b.toNat * 256 ^ bs.length + beValue bs

/-- The `k` low bytes of a number, the highest first. -/
def beBytes : ℕ → ℕ → List UInt8
  | 0, _ => []
  | k + 1, n => UInt8.ofNat (n / 256 ^ k) :: beBytes k n

@[simp] theorem length_beBytes (k n : ℕ) : (beBytes k n).length = k := by
  induction k with
  | zero => rfl
  | succ k ih => rw [beBytes, List.length_cons, ih]

theorem beValue_lt (bs : List UInt8) : beValue bs < 256 ^ bs.length := by
  induction bs with
  | nil => exact Nat.one_pos
  | cons b bs ih =>
    have hmul : (b.toNat + 1) * 256 ^ bs.length ≤ 256 * 256 ^ bs.length :=
      Nat.mul_le_mul_right _ b.toNat_lt
    rw [beValue, List.length_cons, Nat.pow_succ']
    rw [Nat.succ_mul] at hmul
    omega

theorem beValue_beBytes (k n : ℕ) : beValue (beBytes k n) = n % 256 ^ k := by
  induction k with
  | zero => rw [Nat.pow_zero, Nat.mod_one]; rfl
  | succ k ih =>
    have hbyte : (UInt8.ofNat (n / 256 ^ k)).toNat = n / 256 ^ k % 256 := UInt8.toNat_ofNat'
    rw [beBytes, beValue, length_beBytes, ih, hbyte, Nat.pow_succ, Nat.mod_mul, Nat.mul_comm,
      Nat.add_comm]

@[simp] theorem beValue_zero_cons (bs : List UInt8) : beValue (0 :: bs) = beValue bs := by
  simp [beValue]

/-- Zeros in front do not count. -/
theorem beValue_zeros_append (k : ℕ) (bs : List UInt8) :
    beValue (List.replicate k 0 ++ bs) = beValue bs := by
  induction k with
  | zero => rfl
  | succ k ih => rw [List.replicate_succ, List.cons_append, beValue_zero_cons, ih]

/-- Bytes are determined by their number and the number of bytes. -/
theorem beValue_inj {as bs : List UInt8} (hlength : as.length = bs.length)
    (h : beValue as = beValue bs) : as = bs := by
  induction as generalizing bs with
  | nil => exact (List.length_eq_zero_iff.1 hlength.symm).symm
  | cons a as ih =>
    cases bs with
    | nil => cases hlength
    | cons b bs =>
      have hrest : as.length = bs.length := Nat.succ.inj hlength
      have has := beValue_lt as
      have hbs := beValue_lt bs
      rw [beValue, beValue, hrest] at h
      rw [hrest] at has
      have hdiv := congrArg (· / 256 ^ bs.length) h
      simp only [Nat.mul_comm _ (256 ^ bs.length)] at hdiv
      rw [Nat.mul_add_div (Nat.pow_pos (by decide)), Nat.mul_add_div (Nat.pow_pos (by decide)),
        Nat.div_eq_of_lt has, Nat.div_eq_of_lt hbs] at hdiv
      obtain rfl : a = b := UInt8.toNat_inj.1 hdiv
      rw [ih hrest (Nat.add_left_cancel h)]

/-- Zeros in front make a number of few bytes one of `k` bytes. -/
theorem zeros_append_eq_beBytes {k n : ℕ} {bs : List UInt8} (hn : n < 256 ^ k)
    (hlength : bs.length ≤ k) (h : beValue bs = n) :
    List.replicate (k - bs.length) 0 ++ bs = beBytes k n := by
  refine beValue_inj ?_ ?_
  · rw [List.length_append, List.length_replicate, length_beBytes]
    omega
  · rw [beValue_zeros_append, beValue_beBytes, h, Nat.mod_eq_of_lt hn]

/-! ### DER -/

namespace Der

/-- The bytes of an integer that is not negative. -/
def contents (n : ℕ) : List UInt8 := beBytes ((n.log2 + 1) / 8 + 1) n

/-- A tag and a length, which is short, in front of the contents. -/
def tlv (tag : UInt8) (contents : List UInt8) : List UInt8 :=
  tag :: UInt8.ofNat contents.length :: contents

/-- `INTEGER` -/
def integer (n : ℕ) : List UInt8 := tlv 0x02 (contents n)

/-- `SEQUENCE`, of two integers. -/
def signature (r s : ℕ) : List UInt8 := tlv 0x30 (integer r ++ integer s)

/-- Bytes are the shortest two's complement of a number that is not negative. -/
structure IsInteger (n : ℕ) (bs : List UInt8) : Prop where
  value : beValue bs = n
  /-- The highest bit is the sign. -/
  nonneg : ∃ b rest, bs = b :: rest ∧ b < 0x80
  minimal : ∀ b rest, bs = 0 :: b :: rest → 0x80 ≤ b

theorem pow_256 (k : ℕ) : 256 ^ k = 2 ^ (8 * k) := by
  rw [Nat.pow_mul]

/-- The number of bytes leaves room for the sign. -/
theorem lt_mul_pow (n : ℕ) : n < 128 * 256 ^ ((n.log2 + 1) / 8) := by
  have hlog : n < 2 ^ (n.log2 + 1) := Nat.lt_log2_self
  have hpow : 2 ^ (n.log2 + 1) ≤ 2 ^ (7 + 8 * ((n.log2 + 1) / 8)) :=
    Nat.pow_le_pow_right Nat.two_pos (by omega)
  rw [Nat.pow_add 2 7] at hpow
  rw [pow_256]
  exact Nat.lt_of_lt_of_le hlog hpow

/-- With a byte less, there would be none. -/
theorem mul_pow_le {n k : ℕ} (h : (n.log2 + 1) / 8 = k + 1) : 128 * 256 ^ k ≤ n := by
  have hne : n ≠ 0 := by
    rintro rfl
    rw [Nat.log2_zero] at h
    omega
  have hpow : 2 ^ (7 + 8 * k) ≤ 2 ^ n.log2 := Nat.pow_le_pow_right Nat.two_pos (by omega)
  rw [Nat.pow_add] at hpow
  rw [pow_256]
  exact Nat.le_trans hpow (Nat.log2_self_le hne)

/-- A number is encoded with as few bytes as possible. -/
theorem isInteger_contents (n : ℕ) : IsInteger n (contents n) := by
  have hlt := lt_mul_pow n
  have hmin (k : ℕ) := mul_pow_le (n := n) (k := k)
  rw [contents]
  generalize (n.log2 + 1) / 8 = k at *
  have hpos : 0 < 256 ^ k := Nat.pow_pos (by decide)
  have hhead : n / 256 ^ k < 128 := (Nat.div_lt_iff_lt_mul hpos).2 hlt
  have hbyte : (UInt8.ofNat (n / 256 ^ k)).toNat = n / 256 ^ k :=
    UInt8.toNat_ofNat_of_lt' (by simp only [UInt8.size]; omega)
  refine ⟨?_, ⟨_, _, rfl, ?_⟩, fun b rest hbytes => ?_⟩
  · rw [beValue_beBytes, Nat.mod_eq_of_lt]
    rw [Nat.pow_succ]
    omega
  · rw [UInt8.lt_iff_toNat_lt, hbyte]
    exact hhead
  · obtain ⟨hzero, hrest⟩ := List.cons.inj hbytes
    cases k with
    | zero => cases hrest
    | succ k =>
      obtain ⟨rfl, -⟩ := List.cons.inj hrest
      have hle := hmin k rfl
      have hpos' : 0 < 256 ^ k := Nat.pow_pos (by decide)
      have hsmall : n < 256 * 256 ^ k := by
        have hzero' := congrArg UInt8.toNat hzero
        rw [hbyte] at hzero'
        rw [← Nat.pow_succ']
        exact (Nat.div_eq_zero_iff_lt hpos).1 hzero'
      have hdiv : n / 256 ^ k < 256 := (Nat.div_lt_iff_lt_mul hpos').2 hsmall
      have hbyte' : (UInt8.ofNat (n / 256 ^ k)).toNat = n / 256 ^ k :=
        UInt8.toNat_ofNat_of_lt' hdiv
      rw [UInt8.le_iff_toNat_le, hbyte']
      exact (Nat.le_div_iff_mul_le hpos').2 hle

/-- A number of `k` bytes needs at most one byte more, which is zero then. -/
theorem IsInteger.length_le {n k : ℕ} {bs : List UInt8} (h : IsInteger n bs) (hn : n < 256 ^ k) :
    bs.length ≤ k ∨ ∃ rest, bs = 0 :: rest ∧ rest.length = k := by
  have hshort {m : ℕ} {b : UInt8} {rest : List UInt8} (hb : b ≠ 0)
      (hm : beValue (b :: rest) < 256 ^ m) : rest.length < m := by
    have hone : 1 * 256 ^ rest.length ≤ b.toNat * 256 ^ rest.length :=
      Nat.mul_le_mul_right _ (Nat.pos_of_ne_zero fun hzero => hb (UInt8.toNat_inj.1 hzero))
    rw [beValue] at hm
    refine (Nat.pow_lt_pow_iff_right (by decide : 1 < 256)).1 ?_
    omega
  obtain ⟨b, rest, rfl, -⟩ := h.nonneg
  have hvalue : beValue (b :: rest) < 256 ^ k := h.value ▸ hn
  by_cases hb : b = 0
  · subst hb
    have hrest : rest.length ≤ k := by
      cases rest with
      | nil => exact Nat.zero_le k
      | cons c rest =>
        have hc : c ≠ 0 := by
          rintro rfl
          exact absurd (h.minimal 0 rest rfl) (by decide)
        rw [beValue_zero_cons] at hvalue
        exact hshort hc hvalue
    obtain hlt | heq := Nat.lt_or_eq_of_le hrest
    · exact .inl hlt
    · exact .inr ⟨rest, rfl, heq⟩
  · exact .inl (hshort hb hvalue)

end Der

end LedgerNervos
