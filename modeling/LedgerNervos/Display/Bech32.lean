import LedgerNervos.Device.Types

/-!
# Bech32

The encoder of addresses: `convertBits` regroups bytes into groups of five bits, and
`bech32Encode` writes these as characters, with a human-readable part in front and six characters
of checksum behind.
-/

namespace LedgerNervos

/-- `bech32_polymod_step` -/
def bech32PolymodStep (pre : UInt32) : UInt32 :=
  let b := pre >>> 25
  let bit (i g : UInt32) : UInt32 := if (b >>> i) &&& 1 ≠ 0 then g else 0
  ((pre &&& 0x1FFFFFF) <<< 5) ^^^ bit 0 0x3b6a57b2 ^^^ bit 1 0x26508e6d ^^^
    bit 2 0x1ea119fa ^^^ bit 3 0x3d4233dd ^^^ bit 4 0x2a1462b3

/-- `charset` -/
def bech32Charset : List Char := "qpzry9x8gf2tvdw0s3jn54khce6mua7l".toList

/-- The character of a group of five bits. -/
def bech32Char (d : ℕ) : Char := bech32Charset.getD d 'q'

/-- The checksum after the human-readable part. -/
def bech32HrpChecksum (hrp : List Char) : UInt32 :=
  let chk := hrp.foldl (fun (chk : UInt32) (c : Char) => bech32PolymodStep chk ^^^ (c.val >>> 5)) 1
  hrp.foldl (fun (chk : UInt32) (c : Char) => bech32PolymodStep chk ^^^ (c.val &&& 0x1f))
    (bech32PolymodStep chk)

/-- The checksum after groups of five bits. -/
def bech32DataChecksum (chk : UInt32) (data : List UInt8) : UInt32 :=
  data.foldl (fun chk d => bech32PolymodStep chk ^^^ d.toUInt32) chk

/-- The six groups of the final checksum. -/
def bech32ChecksumGroups (chk : UInt32) : List ℕ :=
  let chk := (List.range 6).foldl (fun chk _ => bech32PolymodStep chk) chk ^^^ 1
  (List.range 6).map fun i => ((chk >>> UInt32.ofNat ((5 - i) * 5)) &&& 0x1f).toNat

/-- `bech32_encode`, for an output buffer that is long enough; `none` is its failure. -/
def bech32Encode (hrp : List Char) (data : List UInt8) : Option (List Char) :=
  if hrp.any (fun c => ('A' ≤ c ∧ c ≤ 'Z') ∨ c.val >>> 5 = 0) then none
  else if 108 < hrp.length + 7 + data.length then none
  else if data.any (fun d => d >>> 5 ≠ 0) then none
  else some (hrp ++ ['1'] ++ data.map (fun d => bech32Char d.toNat) ++
    (bech32ChecksumGroups (bech32DataChecksum (bech32HrpChecksum hrp) data)).map bech32Char)

/-- Hand out groups of `outbits` bits while there are enough of them. -/
def convertBitsOut (outbits : ℕ) (val : UInt32) : ℕ → ℕ → List UInt8 × ℕ
  | 0, bits => ([], bits)
  | fuel + 1, bits =>
    if outbits ≤ bits then
      let group := (val >>> UInt32.ofNat (bits - outbits)) &&& UInt32.ofNat (2 ^ outbits - 1)
      let (groups, bits) := convertBitsOut outbits val fuel (bits - outbits)
      (group.toUInt8 :: groups, bits)
    else ([], bits)

/-- `convert_bits`, for an output buffer that is long enough, from a value and a number of bits
left over.  With `pad`, a last group is filled up with zeros; without, what is left over has to
be zero and shorter than an input group. -/
def convertBitsFrom (outbits inbits : ℕ) (pad : Bool) (val : UInt32) (bits : ℕ) :
    List UInt8 → Option (List UInt8)
  | [] =>
    let left := ((val <<< UInt32.ofNat (outbits - bits)) &&&
      UInt32.ofNat (2 ^ outbits - 1)).toUInt8
    if pad then some (if bits ≠ 0 then [left] else [])
    else if left ≠ 0 ∨ inbits ≤ bits then none
    else some []
  | b :: bs =>
    let val := (val <<< UInt32.ofNat inbits) ||| b.toUInt32
    let (groups, bits) := convertBitsOut outbits val (bits + inbits) (bits + inbits)
    (convertBitsFrom outbits inbits pad val bits bs).map (groups ++ ·)

/-- `convert_bits` -/
def convertBits (outbits inbits : ℕ) (pad : Bool) (bs : List UInt8) : Option (List UInt8) :=
  convertBitsFrom outbits inbits pad 0 0 bs

/-- `render_pkh`: the address of a payload, on the network of the settings. -/
def renderPkh (nd : NvramData) (payload : List UInt8) : Except Exn (List Char) :=
  let hrp := match nd.addressType with
    | .mainnet => "ckb".toList
    | .testnet => "ckt".toList
  match convertBits 5 8 true payload with
  | none => .error .memoryError
  | some data => match bech32Encode hrp data with
    | none => .error .memoryError
    | some text => .ok text

/-- `ADDRESS_FORMAT_TYPE_SHORT` -/
def addressFormatTypeShort : UInt8 := 0x01
/-- `ADDRESS_FORMAT_TYPE_FULL_TYPE` -/
def addressFormatTypeFullType : UInt8 := 0x04
/-- `ADDRESS_CODE_HASH_TYPE_SIGHASH` -/
def addressCodeHashTypeSighash : UInt8 := 0x00
/-- `ADDRESS_CODE_HASH_TYPE_MULTISIG` -/
def addressCodeHashTypeMultisig : UInt8 := 0x01

/-! ### The lengths of addresses -/

/-- A masked word is a group of five bits. -/
theorem toUInt8_and_mask (x : UInt32) : (x &&& UInt32.ofNat (2 ^ 5 - 1)).toUInt8 >>> 5 = 0 := by
  have hlt : (x &&& 31).toNat ≤ 31 := by
    rw [UInt32.toNat_and]
    exact Nat.and_le_right
  rw [← UInt8.toNat_inj, UInt8.toNat_shiftRight, UInt32.toNat_toUInt8]
  change ((x &&& 31).toNat % 256) >>> 5 = 0
  rw [Nat.shiftRight_eq_div_pow]
  omega

/-- The groups that are handed out for some bits, and the bits that are left over. -/
theorem convertBitsOut_spec (val : UInt32) {fuel bits : ℕ} (h : bits ≤ fuel) :
    (convertBitsOut 5 val fuel bits).1.length = bits / 5 ∧
      (convertBitsOut 5 val fuel bits).2 = bits % 5 ∧
      ∀ d ∈ (convertBitsOut 5 val fuel bits).1, d >>> 5 = 0 := by
  induction fuel generalizing bits with
  | zero =>
    obtain rfl := Nat.le_zero.1 h
    exact ⟨rfl, rfl, List.forall_mem_nil _⟩
  | succ fuel ih =>
    rw [convertBitsOut]
    split_ifs with hfive
    · obtain ⟨hlength, hleft, hgroups⟩ := @ih (bits - 5) (by omega)
      refine ⟨?_, ?_, List.forall_mem_cons.2 ⟨toUInt8_and_mask _, hgroups⟩⟩
      · rw [List.length_cons, hlength]
        omega
      · rw [hleft]
        omega
    · exact ⟨by simp; omega, by omega, List.forall_mem_nil _⟩

theorem convertBitsFrom_spec (val : UInt32) {bits : ℕ} (hbits : bits < 5) (bs : List UInt8) :
    ∃ data, convertBitsFrom 5 8 true val bits bs = some data ∧
      data.length = (bits + 8 * bs.length + 4) / 5 ∧ ∀ d ∈ data, d >>> 5 = 0 := by
  induction bs generalizing val bits with
  | nil =>
    rw [convertBitsFrom]
    by_cases hzero : bits = 0
    · exact ⟨[], by simp [hzero], by simp [hzero], List.forall_mem_nil _⟩
    · refine ⟨_, by rw [if_pos rfl, if_pos hzero], ?_,
        List.forall_mem_singleton.2 (toUInt8_and_mask _)⟩
      rw [List.length_singleton, List.length_nil]
      omega
  | cons b bs ih =>
    obtain ⟨hlength, hleft, hgroups⟩ := convertBitsOut_spec
      ((val <<< UInt32.ofNat 8) ||| b.toUInt32) (Nat.le_refl (bits + 8))
    obtain ⟨data, hdata, hrest, hall⟩ := ih ((val <<< UInt32.ofNat 8) ||| b.toUInt32)
      (Nat.mod_lt (bits + 8) (by decide))
    rw [convertBitsFrom]
    dsimp only
    rw [hleft, hdata]
    refine ⟨_, rfl, ?_, List.forall_mem_append.2 ⟨hgroups, hall⟩⟩
    rw [List.length_append, hlength, hrest, List.length_cons]
    omega

/-- Padding never fails, and there is a group for each five bits. -/
theorem convertBits_spec (bs : List UInt8) :
    ∃ data, convertBits 5 8 true bs = some data ∧ data.length = (8 * bs.length + 4) / 5 ∧
      ∀ d ∈ data, d >>> 5 = 0 := by
  obtain ⟨data, hdata, hlength, hgroups⟩ := convertBitsFrom_spec 0 (by decide : 0 < 5) bs
  rw [Nat.zero_add] at hlength
  exact ⟨data, hdata, hlength, hgroups⟩

theorem bech32Encode_spec {hrp : List Char} {data : List UInt8}
    (hhrp : hrp.any (fun c => ('A' ≤ c ∧ c ≤ 'Z') ∨ c.val >>> 5 = 0) = false)
    (hlength : hrp.length + 7 + data.length ≤ 108) (hdata : ∀ d ∈ data, d >>> 5 = 0) :
    ∃ text, bech32Encode hrp data = some text ∧ text.length = hrp.length + 7 + data.length := by
  have hnone : data.any (fun d => d >>> 5 ≠ 0) = false := by
    rw [List.any_eq_false]
    intro d hd
    simpa using hdata d hd
  refine ⟨_, by rw [bech32Encode, hhrp, if_neg Bool.false_ne_true, if_neg (Nat.not_lt.2 hlength),
    hnone, if_neg Bool.false_ne_true], ?_⟩
  simp [bech32ChecksumGroups]
  omega

/-- The address of a payload. -/
theorem renderPkh_spec (nd : NvramData) {payload : List UInt8} (h : payload.length ≤ 61) :
    ∃ text, renderPkh nd payload = .ok text ∧ text.length = 10 + (8 * payload.length + 4) / 5 := by
  obtain ⟨data, hdata, hlength, hgroups⟩ := convertBits_spec payload
  obtain ⟨hrp, hhrp, hthree, hstarts⟩ : ∃ hrp : List Char, (match nd.addressType with
      | .mainnet => "ckb".toList
      | .testnet => "ckt".toList) = hrp ∧ hrp.length = 3 ∧
        hrp.any (fun c => ('A' ≤ c ∧ c ≤ 'Z') ∨ c.val >>> 5 = 0) = false := by
    cases nd.addressType
    · exact ⟨_, rfl, rfl, by decide⟩
    · exact ⟨_, rfl, rfl, by decide⟩
  obtain ⟨text, htext, hlen⟩ := bech32Encode_spec hstarts (by omega) hgroups
  refine ⟨text, ?_, by omega⟩
  simp only [renderPkh, hdata, hhrp, htext]

end LedgerNervos
