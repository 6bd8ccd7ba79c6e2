import LedgerNervos.Codes.Register
import Mathlib.Data.Nat.Bitwise

/-!
# Bursts of errors

A register that can be run backwards keeps two different contents apart, whatever is fed behind
them.  As it also tells apart all symbols that it has room for, a change of so many symbols in a
row never goes unnoticed (`ChangedWithin.eq_of_feed`).

## Main results

* `XorRegister.Regular.step_inj` : a step can be undone.
* `ChangedWithin.eq_of_feed` : symbols that differ within a window and lead to one value are the
  same.
-/

namespace LedgerNervos

/-! ### Symbols of a number -/

/-- The low symbols do not depend on what is above them. -/
theorem symbols_add_mul (width n v x : ℕ) :
    symbols width n (v * 2 ^ (width * n) + x) = symbols width n x := by
  have hlow : ∀ m ≤ n, symbols width m (v * 2 ^ (width * n) + x) = symbols width m x := by
    intro m hm
    induction m with
    | zero => rfl
    | succ m ih =>
      obtain ⟨k, rfl⟩ := Nat.exists_eq_add_of_le hm
      have hsplit : v * 2 ^ (width * (m + 1 + k)) =
          v * 2 ^ (width * k) * 2 ^ width * 2 ^ (width * m) := by
        rw [Nat.mul_add, Nat.mul_succ, Nat.pow_add, Nat.pow_add]
        ac_rfl
      rw [symbols, symbols, ih (Nat.le_of_succ_le hm), Nat.shiftRight_eq_div_pow,
        Nat.shiftRight_eq_div_pow, hsplit, Nat.add_comm,
        Nat.add_mul_div_right _ _ (Nat.two_pow_pos _), Nat.add_mul_mod_self_right]
  exact hlow n (Nat.le_refl n)

/-- All symbols are those of a number. -/
theorem exists_symbols {width : ℕ} {vs : List ℕ} (hvs : ∀ v ∈ vs, v < 2 ^ width) :
    ∃ x < 2 ^ (width * vs.length), symbols width vs.length x = vs := by
  induction vs with
  | nil => exact ⟨0, Nat.two_pow_pos _, rfl⟩
  | cons v vs ih =>
    obtain ⟨hv, hvs⟩ := List.forall_mem_cons.1 hvs
    obtain ⟨x, hx, hsymbols⟩ := ih hvs
    refine ⟨v * 2 ^ (width * vs.length) + x, ?_, ?_⟩
    · rw [List.length_cons, Nat.mul_succ, Nat.pow_add, Nat.mul_comm (2 ^ (width * vs.length))]
      calc v * 2 ^ (width * vs.length) + x
          < v * 2 ^ (width * vs.length) + 2 ^ (width * vs.length) := Nat.add_lt_add_left hx _
        _ = (v + 1) * 2 ^ (width * vs.length) := (Nat.succ_mul _ _).symm
        _ ≤ 2 ^ width * 2 ^ (width * vs.length) := Nat.mul_le_mul_right _ hv
    · rw [List.length_cons, symbols, symbols_add_mul, hsymbols, Nat.shiftRight_eq_div_pow,
        Nat.add_comm, Nat.add_mul_div_right _ _ (Nat.two_pow_pos _), Nat.div_eq_of_lt hx,
        Nat.zero_add, Nat.mod_eq_of_lt hv]

/-! ### Changes within a window -/

/-- The lists have one length, and differ within a window of `n` places only. -/
structure ChangedWithin {α : Type} (n : ℕ) (xs ys : List α) : Prop where
  length_eq : xs.length = ys.length
  within : ∃ i, ∀ j, xs[j]? ≠ ys[j]? → i ≤ j ∧ j < i + n

/-- In front of the window and behind it, the lists are the same. -/
theorem ChangedWithin.split {α : Type} {n : ℕ} {xs ys : List α} (h : ChangedWithin n xs ys) :
    ∃ front vs ws back, xs = front ++ (vs ++ back) ∧ ys = front ++ (ws ++ back) ∧
      vs.length = ws.length ∧ vs.length ≤ n := by
  obtain ⟨i, hwithin⟩ := h.within
  have hfront : xs.take i = ys.take i := by
    refine List.ext_getElem? fun j => ?_
    rw [List.getElem?_take, List.getElem?_take]
    split_ifs with hj
    · by_contra hne
      exact absurd (hwithin j hne).1 (Nat.not_le.2 hj)
    · rfl
  have hback : (xs.drop i).drop n = (ys.drop i).drop n := by
    refine List.ext_getElem? fun j => ?_
    rw [List.getElem?_drop, List.getElem?_drop, List.getElem?_drop, List.getElem?_drop]
    by_contra hne
    have := (hwithin _ hne).2
    omega
  refine ⟨xs.take i, (xs.drop i).take n, (ys.drop i).take n, (xs.drop i).drop n, ?_, ?_, ?_, ?_⟩
  · rw [List.take_append_drop, List.take_append_drop]
  · rw [hfront, hback, List.take_append_drop, List.take_append_drop]
  · rw [List.length_take, List.length_take, List.length_drop, List.length_drop, h.length_eq]
  · exact List.length_take_le _ _

namespace XorRegister

variable (R : XorRegister)

/-- The sums of generators differ in their lowest symbol. -/
def Regular : Prop :=
  ∀ b < 2 ^ R.width, xorSum R.generators b % 2 ^ R.width = 0 → b = 0

variable {R}

/-- Only zero is led to zero. -/
theorem Regular.eq_zero (hR : R.Regular) {x : ℕ} (hx : x < 2 ^ (R.low + R.width))
    (h : R.step x = 0) : x = 0 := by
  have hsymbol : xorSum R.generators (x >>> R.low) % 2 ^ R.width = 0 := by
    have hmod := congrArg (· % 2 ^ R.width) h
    simp only [step] at hmod
    rwa [Nat.xor_mod_two_pow, Nat.shiftLeft_eq, Nat.mul_mod_left, Nat.zero_xor, Nat.zero_mod]
      at hmod
  have hhigh : x >>> R.low < 2 ^ R.width := by
    rw [Nat.shiftRight_eq_div_pow, Nat.div_lt_iff_lt_mul (Nat.two_pow_pos _), ← Nat.pow_add,
      Nat.add_comm]
    exact hx
  have hzero := hR _ hhigh hsymbol
  have hlow : x < 2 ^ R.low := by
    rw [Nat.shiftRight_eq_div_pow] at hzero
    exact Nat.lt_of_div_eq_zero (Nat.two_pow_pos _) hzero
  rw [R.step_of_lt hlow, Nat.shiftLeft_eq] at h
  exact (Nat.mul_eq_zero.1 h).resolve_right (Nat.ne_of_gt (Nat.two_pow_pos _))

/-- A step can be undone. -/
theorem Regular.step_inj (hR : R.Regular) {a b : ℕ} (ha : a < 2 ^ (R.low + R.width))
    (hb : b < 2 ^ (R.low + R.width)) (h : R.step a = R.step b) : a = b := by
  have hsum : R.step (a ^^^ b) = 0 := by rw [R.step_xor, h, Nat.xor_self]
  exact Nat.eq_of_xor_eq_zero (hR.eq_zero (Nat.xor_lt_two_pow ha hb) hsum)

theorem Regular.iterate_inj (hR : R.Regular) {a b : ℕ} (ha : a < 2 ^ (R.low + R.width))
    (hb : b < 2 ^ (R.low + R.width)) (n : ℕ) (h : R.step^[n] a = R.step^[n] b) : a = b := by
  induction n with
  | zero => exact h
  | succ n ih =>
    rw [Function.iterate_succ_apply', Function.iterate_succ_apply'] at h
    exact ih (hR.step_inj (R.iterate_step_lt ha n) (R.iterate_step_lt hb n) h)

/-- What a register holds is still told apart when symbols are fed behind it. -/
theorem Regular.feed_inj (hR : R.Regular) {a b : ℕ} (ha : a < 2 ^ (R.low + R.width))
    (hb : b < 2 ^ (R.low + R.width)) {us : List ℕ} (h : R.feed a us = R.feed b us) : a = b := by
  have hshift : ∀ c, R.feed c us = R.feed 0 us ^^^ R.step^[us.length] c := by
    intro c
    rw [← R.feed_xor, Nat.zero_xor]
  rw [hshift a, hshift b] at h
  exact hR.iterate_inj ha hb us.length (Nat.xor_right_inj.1 h)

/-- From zero, a register tells apart all the symbols that it has room for. -/
theorem feed_zero_inj (R : XorRegister) {vs ws : List ℕ} (hvs : ∀ v ∈ vs, v < 2 ^ R.width)
    (hws : ∀ w ∈ ws, w < 2 ^ R.width) (hlength : vs.length = ws.length)
    (hroom : R.width * vs.length ≤ R.low + R.width) (h : R.feed 0 vs = R.feed 0 ws) : vs = ws := by
  obtain ⟨x, hx, hsymbols⟩ := exists_symbols hvs
  obtain ⟨y, hy, hsymbols'⟩ := exists_symbols hws
  rw [← hlength] at hy hsymbols'
  have hfits := Nat.pow_le_pow_right Nat.two_pos hroom
  have hfeed := R.feed_symbols_of_lt (Nat.lt_of_lt_of_le hx hfits) vs.length
  have hfeed' := R.feed_symbols_of_lt (Nat.lt_of_lt_of_le hy hfits) vs.length
  rw [Nat.shiftRight_eq_zero _ _ hx, hsymbols] at hfeed
  rw [Nat.shiftRight_eq_zero _ _ hy, hsymbols'] at hfeed'
  have hxy : x = y := by rw [← hfeed, ← hfeed', h]
  rw [← hsymbols, hxy, hsymbols']

end XorRegister

/-- Symbols that differ within a window that the register has room for, and lead it to one value,
are the same. -/
theorem ChangedWithin.eq_of_feed {R : XorRegister} (hR : R.Regular) {c n : ℕ} {xs ys : List ℕ}
    (hc : c < 2 ^ (R.low + R.width)) (hn : R.width * n ≤ R.low + R.width)
    (hxs : ∀ x ∈ xs, x < 2 ^ R.width) (hys : ∀ y ∈ ys, y < 2 ^ R.width)
    (h : ChangedWithin n xs ys) (hfeed : R.feed c xs = R.feed c ys) : xs = ys := by
  obtain ⟨front, vs, ws, back, rfl, rfl, hlength, hle⟩ := h.split
  have hsymbol : 2 ^ R.width ≤ 2 ^ (R.low + R.width) :=
    Nat.pow_le_pow_right Nat.two_pos (Nat.le_add_left _ _)
  have hfits {c : ℕ} (hc : c < 2 ^ (R.low + R.width)) {zs : List ℕ}
      (hzs : ∀ z ∈ zs, z < 2 ^ R.width) : R.feed c zs < 2 ^ (R.low + R.width) :=
    R.feed_lt hc fun z hz => Nat.lt_of_lt_of_le (hzs z hz) hsymbol
  obtain ⟨hfront, hvs⟩ := List.forall_mem_append.1 hxs
  have hvs := (List.forall_mem_append.1 hvs).1
  have hws := (List.forall_mem_append.1 (List.forall_mem_append.1 hys).2).1
  rw [R.feed_append, R.feed_append, R.feed_append, R.feed_append] at hfeed
  have hstart := hfits hc hfront
  generalize R.feed c front = c₁ at hstart hfeed
  have hbefore := hR.feed_inj (hfits hstart hvs) (hfits hstart hws) hfeed
  -- what was in the register before the window is shifted alike on both sides
  have hshift (zs : List ℕ) : R.feed c₁ zs = R.feed 0 zs ^^^ R.step^[zs.length] c₁ := by
    rw [← R.feed_xor, Nat.zero_xor]
  rw [hshift vs, hshift ws, hlength] at hbefore
  have hroom : R.width * vs.length ≤ R.low + R.width :=
    Nat.le_trans (Nat.mul_le_mul_left _ hle) hn
  rw [R.feed_zero_inj hvs hws hlength hroom (Nat.xor_left_inj.1 hbefore)]

end LedgerNervos
