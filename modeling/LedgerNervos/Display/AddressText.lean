import LedgerNervos.Codes.Register
import LedgerNervos.Display.Regroup
import LedgerNervos.Sign.OutputPrompt

/-!
# Addresses can be read back

A reader of addresses: the characters behind the last `1` are symbols of five bits, whose checksum
together with the human-readable part has to be 1; without the six of the checksum, they hold the
payload.  Every address that is written is read back like this (`address_lossless`).

## Main results

* `toNat_bech32PolymodStep` : a step of the checksum is a step of a linear register.
* `bech32Decode_encode` : what the encoder writes is decoded again.
-/

namespace LedgerNervos

/-! ### The reader -/

/-- The register of the checksum: six symbols of five bits. -/
def bech32Register : XorRegister where
  width := 5
  low := 25
  generators := [0x3b6a57b2, 0x26508e6d, 0x1ea119fa, 0x3d4233dd, 0x2a1462b3]
  generators_lt := by decide

/-- The checksum of symbols. -/
def bech32Polymod (vs : List ℕ) : ℕ := bech32Register.feed 1 vs

/-- The human-readable part as symbols: the high bits of all characters, then the low bits. -/
def bech32HrpExpand (hrp : List Char) : List ℕ :=
  hrp.map (fun c => c.toNat >>> 5) ++ [0] ++ hrp.map fun c => c.toNat % 2 ^ 5

/-- The symbol of a character. -/
def bech32Symbol (c : Char) : Option ℕ := bech32Charset.idxOf? c

/-- The human-readable part and the symbols of the data, if the checksum is right. -/
def bech32Decode (text : List Char) : Option (List Char × List ℕ) :=
  let hrp := (text.rdropWhile (· ≠ '1')).dropLast
  match (text.rtakeWhile (· ≠ '1')).mapM bech32Symbol with
  | none => none
  | some vs =>
    if hrp ≠ [] ∧ 6 ≤ vs.length ∧ bech32Polymod (bech32HrpExpand hrp ++ vs) = 1 then
      some (hrp, vs.take (vs.length - 6))
    else none

/-! ### The checksum -/

theorem toNat_generator (b g : UInt32) {i : UInt32} (hi : i.toNat < 32) :
    (if (b >>> i) &&& 1 ≠ 0 then g else 0).toNat =
      if b.toNat.testBit i.toNat then g.toNat else 0 := by
  have hbit : (b >>> i) &&& 1 ≠ 0 ↔ b.toNat.testBit i.toNat = true := by
    rw [Ne, ← UInt32.toNat_inj, UInt32.toNat_and, UInt32.toNat_shiftRight, Nat.mod_eq_of_lt hi,
      Nat.testBit, Nat.and_comm]
    exact bne_iff_ne.symm
  by_cases h : b.toNat.testBit i.toNat = true
  · rw [if_pos (hbit.2 h), if_pos h]
  · rw [if_neg (mt hbit.1 h), if_neg h]
    rfl

/-- A step of the checksum is a step of the register. -/
theorem toNat_bech32PolymodStep (c : UInt32) :
    (bech32PolymodStep c).toNat = bech32Register.step c.toNat := by
  have hhigh : (c >>> 25).toNat = c.toNat >>> 25 := toNat_shiftRight_ofNat c (by decide)
  have hlow : ((c &&& 0x1FFFFFF) <<< 5).toNat = (c.toNat % 2 ^ 25) <<< 5 := by
    have hmask : (c &&& 0x1FFFFFF).toNat = c.toNat % 2 ^ 25 := by
      rw [UInt32.toNat_and]
      exact Nat.and_two_pow_sub_one_eq_mod _ 25
    refine (toNat_shiftLeft_ofNat (c &&& 0x1FFFFFF) (n := 5) (by decide)).trans ?_
    rw [hmask, Nat.mod_eq_of_lt]
    rw [Nat.shiftLeft_eq]
    omega
  rw [bech32PolymodStep]
  simp only [UInt32.toNat_xor]
  rw [hlow, toNat_generator _ _ (by decide), toNat_generator _ _ (by decide),
    toNat_generator _ _ (by decide), toNat_generator _ _ (by decide),
    toNat_generator _ _ (by decide), hhigh]
  simp [XorRegister.step, bech32Register, xorSum, Nat.xor_assoc]

theorem toNat_bech32_foldl {α : Type} (f : α → UInt32) (xs : List α) (c : UInt32) :
    (xs.foldl (fun chk x => bech32PolymodStep chk ^^^ f x) c).toNat =
      bech32Register.feed c.toNat (xs.map fun x => (f x).toNat) := by
  induction xs generalizing c with
  | nil => rfl
  | cons x xs ih =>
    rw [List.foldl_cons, ih, UInt32.toNat_xor, toNat_bech32PolymodStep]
    rfl

/-- The checksum of the human-readable part. -/
theorem toNat_bech32HrpChecksum (hrp : List Char) :
    (bech32HrpChecksum hrp).toNat = bech32Polymod (bech32HrpExpand hrp) := by
  have hhigh (c : Char) : (c.val >>> 5).toNat = c.toNat >>> 5 :=
    toNat_shiftRight_ofNat c.val (by decide)
  have hlow (c : Char) : (c.val &&& 0x1f).toNat = c.toNat % 2 ^ 5 := by
    rw [UInt32.toNat_and]
    exact Nat.and_two_pow_sub_one_eq_mod _ 5
  rw [bech32HrpChecksum, toNat_bech32_foldl, toNat_bech32PolymodStep, toNat_bech32_foldl,
    bech32Polymod, bech32HrpExpand, XorRegister.feed_append, XorRegister.feed_append]
  simp only [hhigh, hlow]
  rw [XorRegister.feed_cons, XorRegister.feed_nil, Nat.xor_zero]
  rfl

theorem toNat_bech32DataChecksum (chk : UInt32) (data : List UInt8) :
    (bech32DataChecksum chk data).toNat =
      bech32Register.feed chk.toNat (data.map UInt8.toNat) := by
  rw [bech32DataChecksum, toNat_bech32_foldl]
  simp only [UInt8.toNat_toUInt32]

/-- The symbols of the checksum. -/
theorem bech32ChecksumGroups_eq (chk : UInt32) : bech32ChecksumGroups chk =
    symbols 5 6 (bech32Register.step^[6] chk.toNat ^^^ 1) := by
  have hsteps : (bech32PolymodStep^[6] chk).toNat = bech32Register.step^[6] chk.toNat :=
    (Function.Semiconj.iterate_right (f := UInt32.toNat) toNat_bech32PolymodStep 6).eq chk
  have hgroup (x : UInt32) {n : ℕ} (hn : n < 32) :
      ((x >>> UInt32.ofNat n) &&& 0x1f).toNat = x.toNat >>> n % 2 ^ 5 := by
    rw [UInt32.toNat_and, toNat_shiftRight_ofNat x hn]
    exact Nat.and_two_pow_sub_one_eq_mod _ 5
  rw [bech32ChecksumGroups, List.foldl_const, List.length_range, ← hsteps]
  have hxor (x : UInt32) : (x ^^^ 1).toNat = x.toNat ^^^ 1 := UInt32.toNat_xor x 1
  rw [← hxor]
  generalize bech32PolymodStep^[6] chk ^^^ 1 = x
  have hrange : List.range 6 = [0, 1, 2, 3, 4, 5] := rfl
  rw [hrange]
  simp only [List.map_cons, List.map_nil]
  rw [hgroup x (by decide), hgroup x (by decide), hgroup x (by decide), hgroup x (by decide),
    hgroup x (by decide), hgroup x (by decide)]
  rfl

/-- With the checksum behind it, the data is accepted. -/
theorem bech32Polymod_checksum (hrp : List Char) (data : List UInt8) :
    bech32Polymod (bech32HrpExpand hrp ++ (data.map UInt8.toNat ++
      bech32ChecksumGroups (bech32DataChecksum (bech32HrpChecksum hrp) data))) = 1 := by
  rw [bech32ChecksumGroups_eq, toNat_bech32DataChecksum, toNat_bech32HrpChecksum, bech32Polymod,
    bech32Polymod, XorRegister.feed_append, XorRegister.feed_append]
  refine bech32Register.feed_symbols (bech32Register.feed_lt ?_ fun v hv => ?_) (by decide)
    (by decide)
  · refine bech32Register.feed_lt (by decide) fun v hv => ?_
    rw [bech32HrpExpand, List.mem_append, List.mem_append, List.mem_singleton] at hv
    obtain (hv | rfl) | hv := hv
    · obtain ⟨c, -, rfl⟩ := List.mem_map.1 hv
      rw [Nat.shiftRight_eq_div_pow, Nat.div_lt_iff_lt_mul (by decide)]
      exact c.val.toNat_lt.trans (by decide)
    · decide
    · obtain ⟨c, -, rfl⟩ := List.mem_map.1 hv
      exact (Nat.mod_lt _ (by decide)).trans (by decide)
  · obtain ⟨d, -, rfl⟩ := List.mem_map.1 hv
    exact d.toNat_lt.trans (by decide)

/-! ### Characters -/

/-- A symbol is read back from its character, which is not the separator. -/
theorem bech32Symbol_char {v : ℕ} (hv : v < 32) :
    bech32Symbol (bech32Char v) = some v ∧ bech32Char v ≠ '1' ∧ bech32Char v ≠ nul := by
  have hall : ∀ v < 32, bech32Symbol (bech32Char v) = some v ∧ bech32Char v ≠ '1' ∧
      bech32Char v ≠ nul := by decide
  exact hall v hv

/-- A text is split at the last separator. -/
theorem split_last_separator (hrp : List Char) {cs : List Char} (hcs : ∀ c ∈ cs, c ≠ '1') :
    (hrp ++ ['1'] ++ cs).rtakeWhile (· ≠ '1') = cs ∧
      ((hrp ++ ['1'] ++ cs).rdropWhile (· ≠ '1')).dropLast = hrp := by
  have hrev : ∀ c ∈ cs.reverse, decide (c ≠ '1') = true := fun c hc =>
    decide_eq_true (hcs c (List.mem_reverse.1 hc))
  constructor
  · rw [List.rtakeWhile, List.reverse_append, List.takeWhile_append_of_pos hrev]
    simp
  · rw [List.rdropWhile, List.reverse_append, List.dropWhile_append_of_pos hrev]
    simp

theorem toNat_lt_of_shiftRight {d : UInt8} (h : d >>> 5 = 0) : d.toNat < 32 := by
  have hzero := congrArg UInt8.toNat h
  rw [UInt8.toNat_shiftRight, Nat.shiftRight_eq_div_pow] at hzero
  have hdiv : d.toNat / 32 = 0 := hzero
  omega

/-- What the encoder writes: the human-readable part, the separator, and the characters of the data
and of six symbols that make the checksum right. -/
theorem bech32Encode_eq {hrp text : List Char} {data : List UInt8}
    (h : bech32Encode hrp data = some text) :
    ∃ checksum, checksum.length = 6 ∧ (∀ v ∈ data.map UInt8.toNat ++ checksum, v < 32) ∧
      bech32Polymod (bech32HrpExpand hrp ++ (data.map UInt8.toNat ++ checksum)) = 1 ∧
      text = hrp ++ ['1'] ++ (data.map UInt8.toNat ++ checksum).map bech32Char := by
  rw [bech32Encode] at h
  split_ifs at h with hhrp hlength hdata
  refine ⟨bech32ChecksumGroups (bech32DataChecksum (bech32HrpChecksum hrp) data), ?_,
    List.forall_mem_append.2 ⟨List.forall_mem_map.2 fun d hd => ?_, ?_⟩,
    bech32Polymod_checksum hrp data, ?_⟩
  · rw [bech32ChecksumGroups_eq, length_symbols]
  · refine toNat_lt_of_shiftRight ?_
    by_contra hbad
    exact hdata (List.any_eq_true.2 ⟨d, hd, decide_eq_true hbad⟩)
  · rw [bech32ChecksumGroups_eq]
    exact fun v hv => symbols_lt hv
  · rw [← Option.some.inj h, List.map_append, List.map_map, ← List.append_assoc]
    rfl

/-- What the encoder writes is decoded again. -/
theorem bech32Decode_encode {hrp text : List Char} {data : List UInt8} (hne : hrp ≠ [])
    (h : bech32Encode hrp data = some text) :
    bech32Decode text = some (hrp, data.map UInt8.toNat) := by
  obtain ⟨checksum, hlength, hlt, hpolymod, rfl⟩ := bech32Encode_eq h
  have hchars : ∀ c ∈ (data.map UInt8.toNat ++ checksum).map bech32Char, c ≠ '1' :=
    List.forall_mem_map.2 fun v hv => (bech32Symbol_char (hlt v hv)).2.1
  obtain ⟨hsymbols, hhrp⟩ := split_last_separator hrp hchars
  rw [bech32Decode, hsymbols, hhrp,
    mapM_map_of_read_back fun v hv => (bech32Symbol_char (hlt v hv)).1]
  dsimp only
  rw [if_pos ⟨hne, by rw [List.length_append, hlength]; omega, hpolymod⟩]
  simp [hlength]

example : bech32Decode "a12uel5l".toList = some (['a'], []) := by decide

/-- An address holds no zero, apart from its human-readable part. -/
theorem nul_notMem_bech32Encode {hrp text : List Char} {data : List UInt8} (hhrp : nul ∉ hrp)
    (h : bech32Encode hrp data = some text) : nul ∉ text := by
  obtain ⟨checksum, -, hlt, -, rfl⟩ := bech32Encode_eq h
  intro hmem
  rw [List.mem_append, List.mem_append, List.mem_singleton] at hmem
  obtain (hmem | hmem) | hmem := hmem
  · exact hhrp hmem
  · exact absurd hmem (by decide)
  · obtain ⟨v, hv, hchar⟩ := List.mem_map.1 hmem
    exact (bech32Symbol_char (hlt v hv)).2.2 hchar

/-! ### Addresses -/

/-- The human-readable part for a network. -/
def AddressType.hrp : AddressType → List Char
  | mainnet => "ckb".toList
  | testnet => "ckt".toList

theorem AddressType.hrp_ne_nil (t : AddressType) : t.hrp ≠ [] ∧ nul ∉ t.hrp := by
  cases t <;> decide

/-- The text is the address of a payload: it starts with the network, its checksum is right, and
its data is the payload with less than a symbol of zeros behind it. -/
structure IsAddress (nd : NvramData) (payload : List UInt8) (text : List Char) : Prop where
  starts : nd.addressType.hrp <+: text
  nul : nul ∉ text
  data : ∃ data k, bech32Decode text = some (nd.addressType.hrp, data.map UInt8.toNat) ∧
    convertBits 8 5 false data = some payload ∧ k < 5 ∧
      byteBits 5 data = byteBits 8 payload ++ List.replicate k false

/-- A text is the address of one payload only. -/
theorem IsAddress.inj {nd nd' : NvramData} {payload payload' : List UInt8} {text : List Char}
    (h : IsAddress nd payload text) (h' : IsAddress nd' payload' text) : payload = payload' := by
  obtain ⟨data, -, hdecode, hpayload, -⟩ := h.data
  obtain ⟨data', -, hdecode', hpayload', -⟩ := h'.data
  rw [hdecode] at hdecode'
  obtain ⟨-, hdata⟩ := Prod.mk.inj (Option.some.inj hdecode')
  obtain rfl : data = data' := List.map_injective_iff.2 (fun _ _ => UInt8.toNat_inj.1) hdata
  exact Option.some.inj (hpayload.symm.trans hpayload')

theorem renderPkh_isAddress (nd : NvramData) {payload : List UInt8} (h : payload.length ≤ 61) :
    ∃ text, renderPkh nd payload = .ok text ∧ text.length ≤ 108 ∧ IsAddress nd payload text := by
  obtain ⟨text, htext, hlength⟩ := renderPkh_spec nd h
  have hbytes : ∀ b ∈ payload, b.toNat < 2 ^ 8 := fun b _ => b.toNat_lt
  obtain ⟨data, k, hdata, -, hk, hbits⟩ := convertBits_pad (by decide : 0 < 5) (by decide)
    (Nat.le_refl 8) hbytes
  have hpayload := convertBits_round_trip (by decide) (by decide) (Nat.le_refl 8) hbytes hdata
  have hencode : bech32Encode nd.addressType.hrp data = some text := by
    simp only [renderPkh, hdata] at htext
    split at htext
    · cases htext
    · rename_i text' htext'
      obtain rfl := Except.ok.inj htext
      rw [← htext']
      cases nd.addressType <;> rfl
  obtain ⟨hne, hnul⟩ := nd.addressType.hrp_ne_nil
  refine ⟨text, htext, by omega, ?_, nul_notMem_bech32Encode hnul hencode, data, k,
    bech32Decode_encode hne hencode, hpayload, hk, hbits⟩
  obtain ⟨checksum, -, -, -, rfl⟩ := bech32Encode_eq hencode
  rw [List.append_assoc]
  exact List.prefix_append _ _

/-- The two kinds of addresses. -/
inductive AddressKind where
  | sighash
  | multisig
deriving DecidableEq

namespace AddressKind

/-- The payload of an address.  With a lock period, it is in the full form. -/
def payload : AddressKind → LockArg → List UInt8
  | sighash, a => 0x01 :: 0x00 :: (LockArg.hash a).1
  | multisig, a =>
    if LockArg.lockPeriod a = .zero 8 then 0x01 :: 0x01 :: (LockArg.hash a).1
    else 0x04 :: multisigLockScript ++ (LockArg.hash a).1 ++ (LockArg.lockPeriod a).1

/-- The text of an address. -/
def render (nd : NvramData) : AddressKind → LockArg → Except Exn (List Char)
  | sighash, a => lockArgToSighashAddress nd (LockArg.hash a)
  | multisig, a => lockArgToMultisigAddress nd a

/-- The function that writes an address into a buffer. -/
def print (dest buffSize : ℕ) (nd : NvramData) : AddressKind → LockArg → Print Unit
  | sighash, a => Print.lockArgToSighashAddress dest buffSize nd (LockArg.hash a)
  | multisig, a => Print.lockArgToMultisigAddress dest buffSize nd a

theorem any_ne_zero_iff {n : ℕ} (a : Bytes n) : a.1.any (· ≠ 0) = true ↔ a ≠ .zero n := by
  have hzero : a = .zero n ↔ ∀ b ∈ a.1, b = 0 := by
    rw [Subtype.ext_iff, Bytes.zero, List.eq_replicate_iff, and_iff_right a.2]
  rw [Ne, hzero, List.any_eq_true]
  push Not
  exact exists_congr fun b => and_congr_right fun _ => decide_eq_true_iff

/-- The text of an address is that of its payload. -/
theorem render_eq (nd : NvramData) (kind : AddressKind) (a : LockArg) :
    kind.render nd a = renderPkh nd (kind.payload a) := by
  cases kind with
  | sighash => rfl
  | multisig =>
    have hlock : (LockArg.hash a).1 ++ (LockArg.lockPeriod a).1 = a.1 :=
      List.take_append_drop 20 a.1
    simp only [render, lockArgToMultisigAddress, payload]
    rw [List.cons_append, List.append_assoc, hlock]
    by_cases hperiod : LockArg.lockPeriod a = .zero 8
    · rw [if_neg (mt (any_ne_zero_iff _).1 (not_not_intro hperiod)), if_pos hperiod]
      rfl
    · rw [if_pos ((any_ne_zero_iff _).2 hperiod), if_neg hperiod]
      rfl

theorem length_payload_le (kind : AddressKind) (a : LockArg) : (kind.payload a).length ≤ 61 := by
  cases kind with
  | sighash => simp [payload]
  | multisig =>
    rw [payload]
    split_ifs
    · simp
    · simp [length_multisigLockScript]

theorem exec_print {dest buffSize : ℕ} {nd : NvramData} {kind : AddressKind} {a : LockArg}
    {text : List Char} (h : kind.render nd a = .ok text) (hfits : text.length ≤ buffSize)
    (s : Store Char) :
    (kind.print dest buffSize nd a).exec s = (.ok (), s.write dest (text ++ [nul])) := by
  cases kind with
  | sighash => exact Print.exec_address (o := { destination := a }) h hfits s
  | multisig => exact Print.exec_address (o := { destination := a, isMultisig := true }) h hfits s

end AddressKind

/-- **Addresses can be read back.**  The address of every lock argument is written without an
exception, of either kind and on either network.  It fits into the buffer with the zero at its end,
its checksum is right, and its data is the payload; so different payloads have different
addresses. -/
theorem address_lossless (kind : AddressKind) (nd : NvramData) (a : LockArg) :
    ∃ text, kind.render nd a = .ok text ∧ IsAddress nd (kind.payload a) text ∧
      text.length + 1 ≤ activeValueSize ∧
      (∀ dest s, (kind.print dest activeValueSize nd a).exec s =
          (.ok (), s.write dest (text ++ [nul])) ∧
        (s.write dest (text ++ [nul])).HoldsString dest text) ∧
      ∀ (kind' : AddressKind) nd' a', kind'.payload a' ≠ kind.payload a →
        kind'.render nd' a' ≠ .ok text := by
  obtain ⟨text, htext, hlength, haddress⟩ := renderPkh_isAddress nd (kind.length_payload_le a)
  rw [← kind.render_eq] at htext
  have hfits : text.length ≤ activeValueSize := hlength.trans (by decide)
  refine ⟨text, htext, haddress, (Nat.succ_le_succ hlength).trans (by decide),
    fun dest s => ⟨AddressKind.exec_print htext hfits s, s.holdsString_write dest haddress.nul⟩,
    fun kind' nd' a' hne htext' => hne ?_⟩
  obtain ⟨text', hrender, -, haddress'⟩ := renderPkh_isAddress nd' (kind'.length_payload_le a')
  rw [← kind'.render_eq, htext'] at hrender
  obtain rfl := Except.ok.inj hrender
  exact haddress'.inj haddress

end LedgerNervos
