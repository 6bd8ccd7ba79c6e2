import LedgerNervos.Bits.Groups
import LedgerNervos.Display.Bech32

/-!
# Regrouping of bits

`convertBits` cuts the bits of its input into groups of another width.  The value that it carries
along loses bits at the top, but never those that have not been handed out yet.

## Main results

* `Regroups.of_lt` : the invariant of the loop, for any widths.
* `convertBits_pad` : with padding, the bits are those of the input and some zeros.
* `convertBits_round_trip` : without padding, the input is got back from them.
-/

namespace LedgerNervos

variable {outbits inbits : ℕ}

/-- The bits of bytes that hold groups of `w` bits. -/
def byteBits (w : ℕ) (bs : List UInt8) : List Bool := groupBits w (bs.map UInt8.toNat)

@[simp] theorem byteBits_nil (w : ℕ) : byteBits w [] = [] := rfl

@[simp] theorem byteBits_cons (w : ℕ) (b : UInt8) (bs : List UInt8) :
    byteBits w (b :: bs) = bitList w b.toNat ++ byteBits w bs := rfl

@[simp] theorem byteBits_append (w : ℕ) (bs bs' : List UInt8) :
    byteBits w (bs ++ bs') = byteBits w bs ++ byteBits w bs' := by
  rw [byteBits, List.map_append, groupBits_append]
  rfl

/-! ### One group -/

/-- A mask leaves the low bits. -/
theorem toNat_mask (x : UInt32) (h : outbits ≤ 8) :
    (x &&& UInt32.ofNat (2 ^ outbits - 1)).toUInt8.toNat = x.toNat % 2 ^ outbits := by
  have hpow : 2 ^ outbits ≤ 2 ^ 8 := Nat.pow_le_pow_right Nat.two_pos h
  have hmask : (UInt32.ofNat (2 ^ outbits - 1)).toNat = 2 ^ outbits - 1 :=
    UInt32.toNat_ofNat_of_lt' (by simp only [UInt32.size]; omega)
  rw [UInt32.toNat_toUInt8, UInt32.toNat_and, hmask, Nat.and_two_pow_sub_one_eq_mod]
  refine Nat.mod_eq_of_lt (Nat.lt_of_lt_of_le (Nat.mod_lt _ (Nat.two_pow_pos _)) hpow)

theorem toNat_mask_lt (x : UInt32) (h : outbits ≤ 8) :
    (x &&& UInt32.ofNat (2 ^ outbits - 1)).toUInt8.toNat < 2 ^ outbits := by
  rw [toNat_mask x h]
  exact Nat.mod_lt _ (Nat.two_pow_pos _)

theorem toNat_shiftRight_ofNat (x : UInt32) {n : ℕ} (h : n < 32) :
    (x >>> UInt32.ofNat n).toNat = x.toNat >>> n := by
  rw [UInt32.toNat_shiftRight, UInt32.toNat_ofNat_of_lt' (by simp only [UInt32.size]; omega),
    Nat.mod_eq_of_lt h]

theorem toNat_shiftLeft_ofNat (x : UInt32) {n : ℕ} (h : n < 32) :
    (x <<< UInt32.ofNat n).toNat = x.toNat <<< n % 2 ^ 32 := by
  rw [UInt32.toNat_shiftLeft, UInt32.toNat_ofNat_of_lt' (by simp only [UInt32.size]; omega),
    Nat.mod_eq_of_lt h]

/-- The bits of a group that is taken out of the value. -/
theorem bitList_group (val : UInt32) {n : ℕ} (hn : n < 32) (h : outbits ≤ 8) :
    bitList outbits ((val >>> UInt32.ofNat n) &&&
      UInt32.ofNat (2 ^ outbits - 1)).toUInt8.toNat = bitList outbits (val.toNat >>> n) := by
  rw [toNat_mask _ h, bitList_mod (Nat.le_refl _), toNat_shiftRight_ofNat _ hn]

/-- The bits of the last group, which is filled up with zeros. -/
theorem bitList_last_group (val : UInt32) {left : ℕ} (hleft : left ≤ outbits) (h : outbits ≤ 8) :
    bitList outbits ((val <<< UInt32.ofNat (outbits - left)) &&&
        UInt32.ofNat (2 ^ outbits - 1)).toUInt8.toNat =
      bitList left val.toNat ++ List.replicate (outbits - left) false := by
  rw [toNat_mask _ h, bitList_mod (Nat.le_refl _), toNat_shiftLeft_ofNat _ (by omega),
    bitList_mod (by omega)]
  have hsum := bitList_shiftLeft left (outbits - left) val.toNat
  rwa [Nat.add_sub_cancel' hleft] at hsum

/-- The bits of the value when a byte has been taken in. -/
theorem bitList_step (val : UInt32) {b : UInt8} {bits : ℕ} (hb : b.toNat < 2 ^ inbits)
    (hbits : bits + inbits ≤ 32) (hin : inbits < 32) :
    bitList (bits + inbits) ((val <<< UInt32.ofNat inbits) ||| b.toUInt32).toNat =
      bitList bits val.toNat ++ bitList inbits b.toNat := by
  rw [← bitList_shiftLeft_or bits val.toNat hb, UInt32.toNat_or, toNat_shiftLeft_ofNat _ hin,
    UInt8.toNat_toUInt32]
  refine bitList_congr fun i hi => ?_
  rw [Nat.testBit_or, Nat.testBit_or, Nat.testBit_mod_two_pow,
    decide_eq_true (Nat.lt_of_lt_of_le hi hbits), Bool.true_and]

/-! ### The loop -/

/-- The groups that are handed out have the bits at the top. -/
theorem convertBitsOut_bits (hpos : 0 < outbits) (hout : outbits ≤ 8) (val : UInt32)
    {fuel bits : ℕ} (hfuel : bits ≤ fuel) (hbits : bits ≤ 32) :
    byteBits outbits (convertBitsOut outbits val fuel bits).1 ++
        bitList (convertBitsOut outbits val fuel bits).2 val.toNat = bitList bits val.toNat ∧
      (convertBitsOut outbits val fuel bits).2 < outbits ∧
      ∀ d ∈ (convertBitsOut outbits val fuel bits).1, d.toNat < 2 ^ outbits := by
  induction fuel generalizing bits with
  | zero =>
    obtain rfl := Nat.le_zero.1 hfuel
    exact ⟨rfl, hpos, List.forall_mem_nil _⟩
  | succ fuel ih =>
    rw [convertBitsOut]
    split_ifs with henough
    · obtain ⟨hrest, hleft, hgroups⟩ := @ih (bits - outbits) (by omega) (by omega)
      refine ⟨?_, hleft, List.forall_mem_cons.2 ⟨toNat_mask_lt _ hout, hgroups⟩⟩
      have hsplit := bitList_add outbits (bits - outbits) val.toNat
      rw [Nat.add_sub_cancel' henough] at hsplit
      rw [byteBits_cons, List.append_assoc, hrest, bitList_group val (by omega) hout, hsplit]
    · exact ⟨rfl, Nat.lt_of_not_le henough, List.forall_mem_nil _⟩

theorem convertBitsFrom_cons (outbits inbits : ℕ) (pad : Bool) (val : UInt32) (bits : ℕ) (b : UInt8)
    (bs : List UInt8) :
    convertBitsFrom outbits inbits pad val bits (b :: bs) =
      (convertBitsFrom outbits inbits pad ((val <<< UInt32.ofNat inbits) ||| b.toUInt32)
        (convertBitsOut outbits ((val <<< UInt32.ofNat inbits) ||| b.toUInt32) (bits + inbits)
          (bits + inbits)).2 bs).map
        ((convertBitsOut outbits ((val <<< UInt32.ofNat inbits) ||| b.toUInt32) (bits + inbits)
          (bits + inbits)).1 ++ ·) := rfl

/-- What the loop makes of some bytes: the groups it hands out, and what is left over then. -/
structure Regroups (outbits inbits : ℕ) (val : UInt32) (bits : ℕ) (bs groups : List UInt8)
    (val' : UInt32) (left : ℕ) : Prop where
  left_lt : left < outbits
  groups_lt : ∀ g ∈ groups, g.toNat < 2 ^ outbits
  bits_eq : byteBits outbits groups ++ bitList left val'.toNat =
    bitList bits val.toNat ++ byteBits inbits bs
  eq : ∀ pad, convertBitsFrom outbits inbits pad val bits bs =
    (convertBitsFrom outbits inbits pad val' left []).map (groups ++ ·)

/-- No bit is lost, as long as the value has room for a group and a byte. -/
theorem Regroups.of_lt (hpos : 0 < outbits) (hout : outbits ≤ 8) (hin : inbits ≤ 8)
    (val : UInt32) {bits : ℕ} (hbits : bits < outbits) {bs : List UInt8}
    (hbs : ∀ b ∈ bs, b.toNat < 2 ^ inbits) :
    ∃ groups val' left, Regroups outbits inbits val bits bs groups val' left := by
  induction bs generalizing val bits with
  | nil =>
    refine ⟨[], val, bits, hbits, List.forall_mem_nil _, ?_, fun pad => ?_⟩
    · simp
    · simp
  | cons b bs ih =>
    obtain ⟨hb, hbs⟩ := List.forall_mem_cons.1 hbs
    obtain ⟨hhead, hleft, hhead_lt⟩ := convertBitsOut_bits hpos hout
      ((val <<< UInt32.ofNat inbits) ||| b.toUInt32) (Nat.le_refl (bits + inbits)) (by omega)
    obtain ⟨groups, val', left, hrest⟩ :=
      ih ((val <<< UInt32.ofNat inbits) ||| b.toUInt32) hleft hbs
    refine ⟨_ ++ groups, val', left, hrest.left_lt,
      List.forall_mem_append.2 ⟨hhead_lt, hrest.groups_lt⟩, ?_, fun pad => ?_⟩
    · rw [byteBits_append, List.append_assoc, hrest.bits_eq, ← List.append_assoc, hhead,
        bitList_step val hb (by omega) (by omega), byteBits_cons, List.append_assoc]
    · rw [convertBitsFrom_cons, hrest.eq, Option.map_map]
      congr 1
      funext data
      exact (List.append_assoc _ _ _).symm

/-! ### With and without padding -/

/-- With padding, the bits are those of the input, and less than a group of zeros. -/
theorem convertBits_pad (hpos : 0 < outbits) (hout : outbits ≤ 8) (hin : inbits ≤ 8)
    {bs : List UInt8} (hbs : ∀ b ∈ bs, b.toNat < 2 ^ inbits) :
    ∃ data k, convertBits outbits inbits true bs = some data ∧
      (∀ d ∈ data, d.toNat < 2 ^ outbits) ∧ k < outbits ∧
      byteBits outbits data = byteBits inbits bs ++ List.replicate k false := by
  obtain ⟨groups, val', left, h⟩ := Regroups.of_lt hpos hout hin 0 hpos hbs
  have hbits : byteBits outbits groups ++ bitList left val'.toNat = byteBits inbits bs :=
    h.bits_eq
  rw [convertBits, h.eq, convertBitsFrom]
  by_cases hzero : left = 0
  · subst hzero
    refine ⟨groups, 0, ?_, h.groups_lt, hpos, ?_⟩
    · simp
    · rw [← hbits, List.append_assoc]
      simp [bitList]
  · refine ⟨groups ++ [((val' <<< UInt32.ofNat (outbits - left)) &&&
      UInt32.ofNat (2 ^ outbits - 1)).toUInt8], outbits - left, ?_, ?_, by omega, ?_⟩
    · simp [hzero]
    · exact List.forall_mem_append.2
        ⟨h.groups_lt, List.forall_mem_singleton.2 (toNat_mask_lt _ hout)⟩
    · rw [byteBits_append, byteBits_cons, bitList_last_group val' (Nat.le_of_lt h.left_lt) hout,
        ← hbits, byteBits_nil, List.append_nil, List.append_assoc]

/-- Without padding, groups are read back when less than a group of zeros is behind them, on either
side. -/
theorem convertBits_unpad (hpos : 0 < outbits) (hout : outbits ≤ 8) (hin : inbits ≤ 8)
    {bs payload : List UInt8} (hbs : ∀ b ∈ bs, b.toNat < 2 ^ inbits)
    (hpayload : ∀ b ∈ payload, b.toNat < 2 ^ outbits) {k : ℕ} (hk : k < outbits) (hk' : k < inbits)
    (hbits : byteBits inbits bs = byteBits outbits payload ++ List.replicate k false) :
    convertBits outbits inbits false bs = some payload := by
  obtain ⟨groups, val', left, h⟩ := Regroups.of_lt hpos hout hin 0 hpos hbs
  have hsame : byteBits outbits groups ++ bitList left val'.toNat =
      byteBits outbits payload ++ List.replicate k false := by
    rw [h.bits_eq, ← hbits]
    rfl
  obtain ⟨hgroups, hzeros⟩ := groupBits_inj (List.forall_mem_map.2 h.groups_lt)
    (List.forall_mem_map.2 hpayload) (by rw [length_bitList]; exact h.left_lt)
    (by rw [List.length_replicate]; exact hk) hsame
  obtain rfl : groups = payload := List.map_injective_iff.2 (fun _ _ => UInt8.toNat_inj.1) hgroups
  obtain rfl : left = k := by simpa using congrArg List.length hzeros
  have hlast : ((val' <<< UInt32.ofNat (outbits - left)) &&&
      UInt32.ofNat (2 ^ outbits - 1)).toUInt8 = 0 := by
    refine UInt8.toNat_inj.1 (bitList_inj (toNat_mask_lt _ hout) (Nat.two_pow_pos _) ?_)
    rw [bitList_last_group val' (Nat.le_of_lt h.left_lt) hout, hzeros, ← List.replicate_add,
      Nat.add_sub_cancel' (Nat.le_of_lt h.left_lt)]
    exact (bitList_zero outbits).symm
  rw [convertBits, h.eq, convertBitsFrom]
  simp [hlast, hk']

/-- What has been padded is read back. -/
theorem convertBits_round_trip (hpos : 0 < outbits) (hle : outbits ≤ inbits) (hin : inbits ≤ 8)
    {bs data : List UInt8} (hbs : ∀ b ∈ bs, b.toNat < 2 ^ inbits)
    (h : convertBits outbits inbits true bs = some data) :
    convertBits inbits outbits false data = some bs := by
  have hout := Nat.le_trans hle hin
  obtain ⟨data', k, hdata, hlt, hk, hbits⟩ := convertBits_pad hpos hout hin hbs
  obtain rfl := Option.some.inj (hdata.symm.trans h)
  exact convertBits_unpad (Nat.lt_of_lt_of_le hpos hle) hin hout hlt hbs
    (Nat.lt_of_lt_of_le hk hle) hk hbits

end LedgerNervos
