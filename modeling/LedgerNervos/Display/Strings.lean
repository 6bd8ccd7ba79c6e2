import LedgerNervos.Display.Amounts
import LedgerNervos.Memory.Store

/-!
# Texts in memory

`LedgerNervos.Display.Text` says which text is shown for a value.  Here are the functions that
write these texts into a buffer, each with a theorem that says what is in the buffer then, and
how far it has been written: in most cases the text with a zero behind it.
-/

namespace LedgerNervos

/-- The character that ends a string. -/
def nul : Char := Char.ofNat 0

/-- A function that writes a text into memory. -/
abbrev Print (α : Type) : Type := Writer Exn Char α

namespace Print

open Writer (write)

/-! ### Numbers -/

/-- The loop of `convert_number` over an array, for the digits in front of position `k`: the array
and the position of the first digit. -/
def convertDigits (leadingZeroes : Bool) : ℕ → UInt64 → List Char → List Char × ℕ
  | 0, _, dest => (dest, 0)
  | k + 1, number, dest =>
    let dest := dest.set k (Char.ofNat ('0'.toNat + (number % 10).toNat))
    if !leadingZeroes && number / 10 = 0 then (dest, k)
    else convertDigits leadingZeroes k (number / 10) dest

/-- `convert_number`, into a fresh array. -/
def convertNumber (number : UInt64) (leadingZeroes : Bool) : List Char × ℕ :=
  convertDigits leadingZeroes maxIntDigits number (List.replicate maxIntDigits nul)

/-- `number_to_string` -/
def numberToString (dest : ℕ) (number : UInt64) : Print ℕ := do
  let (tmp, off) := convertNumber number false
  let length := maxIntDigits - off
  write dest ((tmp.drop off).take length)
  write (dest + length) [nul]
  return length

/-- Where the digits of the fraction end, behind the last one that is not zero.  Without such a
digit, the loop runs out of the array. -/
def fractionEnd (tmp : List Char) (start : ℕ) : ℕ → Option ℕ
  | 0 => none
  | k + 1 =>
    if tmp.getD (start + k) nul ≠ '0' then some (start + k + 1) else fractionEnd tmp start k

/-- `frac_ckb_to_string` -/
def fracCkbToString (dest : ℕ) (number : UInt64) : Print ℕ := do
  let whole := number / 100000000
  let fractional := number % 100000000
  let off ← numberToString dest whole
  if fractional = 0 then return off
  else
    write (dest + off) ['.']
    let off := off + 1
    let (tmp, _) := convertNumber number true
    let start := maxIntDigits - 8
    match fractionEnd tmp start 8 with
    | none => throw .fault
    | some fin =>
      let length := fin - start
      write (dest + off) ((tmp.drop start).take length)
      write (dest + off + length) [nul]
      return off + length

/-- `number_to_string_indirect64` -/
def numberToStringIndirect64 (dest buffSize : ℕ) (number : UInt64) : Print Unit :=
  if buffSize < maxIntDigits + 1 then throw .wrongLength
  else do let _ ← numberToString dest number

/-- `number_to_string_indirect32` -/
def numberToStringIndirect32 (dest buffSize : ℕ) (number : UInt32) : Print Unit :=
  if buffSize < maxIntDigits + 1 then throw .wrongLength
  else do let _ ← numberToString dest number.toUInt64

/-- `frac_ckb_to_string_indirect` -/
def fracCkbToStringIndirect (dest buffSize : ℕ) (number : UInt64) : Print Unit :=
  if buffSize < maxIntDigits + 1 then throw .wrongLength
  else do let _ ← fracCkbToString dest number

/-- `of_str` -/
def ofStr : List Char := " of ".toList

/-- `frac_ckb_tuple_to_string_indirect` -/
def fracCkbTupleToStringIndirect (dest buffSize : ℕ) (tuple : UInt64 × UInt64) : Print Unit :=
  if buffSize < 2 * maxIntDigits + ofStr.length + 1 then throw .wrongLength
  else do
    let outLen ← fracCkbToString dest tuple.1
    write (dest + outLen) (ofStr ++ [nul])
    let outLen := outLen + ofStr.length
    let _ ← fracCkbToString (dest + outLen) tuple.2

/-- `uint64_tuple_to_string`, which does not look at the size of the buffer. -/
def uint64TupleToString (dest _buffSize : ℕ) (tuple : UInt64 × UInt64) : Print Unit := do
  let outLen ← numberToString dest tuple.1
  write (dest + outLen) (ofStr ++ [nul])
  let outLen := outLen + ofStr.length
  let _ ← numberToString (dest + outLen) tuple.2

/-! ### Addresses -/

/-- Append characters at `off`, each if there is room for it; `none` stands for a failure in
front of it. -/
def appendChars (output outLen : ℕ) : List (Option Char) → ℕ → Print (Option ℕ)
  | [], off => return some off
  | none :: _, _ => return none
  | some c :: cs, off =>
    if outLen ≤ off then return none
    else do
      write (output + off) [c]
      appendChars output outLen cs (off + 1)

/-- `bech32_encode`.  The zero at the end is written without a look at the size of the buffer. -/
def bech32Encode (output outLen : ℕ) (hrp : List Char) (data : List UInt8) : Print Bool :=
  if hrp.any (fun c => ('A' ≤ c ∧ c ≤ 'Z') ∨ c.val >>> 5 = 0) then return false
  else if 108 < hrp.length + 7 + data.length then return false
  else do
    let groups := bech32ChecksumGroups (bech32DataChecksum (bech32HrpChecksum hrp) data)
    let chars := hrp.map some ++ [some '1'] ++
      data.map (fun (d : UInt8) => if d >>> 5 ≠ 0 then none else some (bech32Char d.toNat)) ++
        groups.map (fun d => some (bech32Char d))
    match ← appendChars output outLen chars 0 with
    | none => return false
    | some outOff =>
      write (output + outOff) [nul]
      return true

/-- `render_pkh` -/
def renderPkh (out outSize : ℕ) (nd : NvramData) (payload : List UInt8) : Print Unit :=
  let hrp := match nd.addressType with
    | .mainnet => "ckb".toList
    | .testnet => "ckt".toList
  match convertBits 5 8 true payload with
  | none => throw .memoryError
  | some data => do
    let done ← bech32Encode out outSize hrp data
    if done then return () else throw .memoryError

/-- `lock_arg_to_sighash_address` -/
def lockArgToSighashAddress (dest buffSize : ℕ) (nd : NvramData) (hash : StandardLockArg) :
    Print Unit :=
  renderPkh dest buffSize nd ([addressFormatTypeShort, addressCodeHashTypeSighash] ++ hash.1)

/-- `lock_arg_to_multisig_address` -/
def lockArgToMultisigAddress (dest buffSize : ℕ) (nd : NvramData) (lockArg : LockArg) :
    Print Unit :=
  let hasTimelock := (LockArg.lockPeriod lockArg).1.any (· ≠ 0)
  if hasTimelock then
    renderPkh dest buffSize nd (addressFormatTypeFullType :: multisigLockScript ++ lockArg.1)
  else
    renderPkh dest buffSize nd ([addressFormatTypeShort, addressCodeHashTypeMultisig] ++
      (LockArg.hash lockArg).1)

/-! ### What is in the memory then -/

/-- The text is written with a zero behind it. -/
def Writes {α : Type} (m : Print α) (dest : ℕ) (text : List Char) (a : α) : Prop :=
  ∀ s, m.exec s = (.ok a, s.write dest (text ++ [nul]))

theorem convertDigits_eq (leadingZeroes : Bool) {k : ℕ} (number : UInt64) (dest : List Char)
    (hk : k ≤ dest.length) :
    (convertDigits leadingZeroes k number dest).1.length = dest.length ∧
      (convertDigits leadingZeroes k number dest).2 ≤ k ∧
      (leadingZeroes = true → (convertDigits leadingZeroes k number dest).2 = 0) ∧
      (convertDigits leadingZeroes k number dest).1.drop
          (convertDigits leadingZeroes k number dest).2 =
        LedgerNervos.convertNumber leadingZeroes k number (dest.drop k) := by
  induction k generalizing number dest with
  | zero => exact ⟨rfl, Nat.le_refl _, fun _ => rfl, rfl⟩
  | succ k ih =>
    rw [convertDigits, LedgerNervos.convertNumber]
    set c := Char.ofNat ('0'.toNat + (number % 10).toNat)
    have hdrop : (dest.set k c).drop k = c :: dest.drop (k + 1) := by
      rw [List.drop_eq_getElem_cons (by rw [List.length_set]; omega), List.getElem_set_self,
        List.drop_set_of_lt (Nat.lt_succ_self k)]
    have hlength : (dest.set k c).length = dest.length := List.length_set
    split_ifs with hstop
    · refine ⟨hlength, Nat.le_succ k, fun hzeroes => ?_, hdrop⟩
      simp [hzeroes] at hstop
    · obtain ⟨ih₁, ih₂, ih₃, ih₄⟩ := ih (number / 10) (dest.set k c)
        (by rw [hlength]; omega)
      exact ⟨ih₁.trans hlength, Nat.le_succ_of_le ih₂, ih₃, by rw [ih₄, hdrop]⟩

/-- The digits that have been filled in. -/
theorem convertNumber_eq (number : UInt64) (leadingZeroes : Bool) :
    (convertNumber number leadingZeroes).1.length = maxIntDigits ∧
      (convertNumber number leadingZeroes).2 ≤ maxIntDigits ∧
      (leadingZeroes = true → (convertNumber number leadingZeroes).2 = 0) ∧
      (convertNumber number leadingZeroes).1.drop (convertNumber number leadingZeroes).2 =
        LedgerNervos.convertNumber leadingZeroes maxIntDigits number [] :=
  convertDigits_eq leadingZeroes number (List.replicate maxIntDigits nul) (Nat.le_refl _)

theorem numberToString_writes (dest : ℕ) (number : UInt64) :
    Writes (numberToString dest number) dest (LedgerNervos.numberToString number)
      (LedgerNervos.numberToString number).length := by
  intro s
  obtain ⟨hlength, hle, -, hdrop⟩ := convertNumber_eq number false
  have htext : (convertNumber number false).1.drop (convertNumber number false).2 =
      LedgerNervos.numberToString number := hdrop
  have hlen : maxIntDigits - (convertNumber number false).2 =
      (LedgerNervos.numberToString number).length := by
    rw [← htext, List.length_drop, hlength]
  simp only [numberToString]
  rw [hlen, htext, List.take_length]
  simp only [Writer.exec_bind, Writer.exec_write, Writer.exec_pure]
  rw [Store.write_write]

theorem fractionEnd_eq (tmp : List Char) (start : ℕ) {k : ℕ} (hk : start + k ≤ tmp.length)
    (hne : ((tmp.drop start).take k).rdropWhile (· = '0') ≠ []) :
    fractionEnd tmp start k =
      some (start + (((tmp.drop start).take k).rdropWhile (· = '0')).length) := by
  induction k with
  | zero => exact absurd rfl hne
  | succ k ih =>
    have hlt : k < (tmp.drop start).length := by
      rw [List.length_drop]
      omega
    have hget : tmp.getD (start + k) nul = (tmp.drop start)[k] := by
      rw [List.getElem_drop, List.getD_eq_getElem?_getD, List.getElem?_eq_getElem (by omega)]
      rfl
    rw [List.take_succ_eq_append_getElem hlt, List.rdropWhile_concat] at hne ⊢
    rw [fractionEnd, hget]
    by_cases hzero : (tmp.drop start)[k] = '0'
    · rw [if_pos (decide_eq_true hzero)] at hne ⊢
      rw [if_neg (not_not_intro hzero), ih (by omega) hne]
    · rw [if_neg (mt of_decide_eq_true hzero), if_pos hzero, List.length_append, List.length_take]
      simp only [List.length_singleton, Option.some.injEq]
      omega

/-- The digits behind the point, as they are found in the array. -/
theorem fractionEnd_convertNumber {number : UInt64} (h : number % 100000000 ≠ 0) :
    ∃ fin, fractionEnd (convertNumber number true).1 (maxIntDigits - 8) 8 = some fin ∧
      ((convertNumber number true).1.drop (maxIntDigits - 8)).take (fin - (maxIntDigits - 8)) =
        (decimal ckbPlaces number.toNat).fraction ∧
      fin - (maxIntDigits - 8) = (decimal ckbPlaces number.toNat).fraction.length := by
  obtain ⟨hlength, -, hzeroes, hdigits⟩ := convertNumber_eq number true
  rw [hzeroes rfl, List.drop_zero] at hdigits
  have hdrop : (convertNumber number true).1.drop (maxIntDigits - 8) =
      lastDigits ckbPlaces number.toNat := by
    rw [hdigits, fractionDigits_eq]
  have htake : ((convertNumber number true).1.drop (maxIntDigits - 8)).take 8 =
      lastDigits ckbPlaces number.toNat := by
    rw [hdrop]
    exact List.take_of_length_le (length_lastDigits _ _).le
  have hne : (decimal ckbPlaces number.toNat).fraction ≠ [] := by
    rw [Ne, fraction_eq_nil_iff]
    intro hzero
    exact h (UInt64.toNat_inj.1 ((UInt64.toNat_mod ..).trans hzero))
  have hfin := fractionEnd_eq (convertNumber number true).1 (maxIntDigits - 8) (k := 8)
    (by rw [hlength]; decide) (by rw [htake]; exact hne)
  rw [htake] at hfin
  refine ⟨_, hfin, ?_, Nat.add_sub_cancel_left ..⟩
  rw [Nat.add_sub_cancel_left, hdrop]
  exact (List.prefix_iff_eq_take.1 (List.rdropWhile_prefix _ _)).symm

theorem fracCkbToString_writes (dest : ℕ) (number : UInt64) :
    Writes (fracCkbToString dest number) dest (LedgerNervos.fracCkbToString number)
      (LedgerNervos.fracCkbToString number).length := by
  intro s
  have hwhole := numberToString_writes dest (number / 100000000) s
  rw [fracCkbToString, Writer.exec_bind_ok _ hwhole, LedgerNervos.fracCkbToString,
    fractionDigits_eq]
  generalize LedgerNervos.numberToString (number / 100000000) = whole
  by_cases hzero : number % 100000000 = 0
  · rw [if_pos hzero, if_pos hzero]
    rfl
  · obtain ⟨fin, hfin, htake, hlength⟩ := fractionEnd_convertNumber hzero
    rw [hlength] at htake
    rw [if_neg hzero, if_neg hzero]
    simp only [hfin, htake, hlength, Writer.exec_bind, Writer.exec_write, Writer.exec_pure]
    change _ = (Except.ok (whole ++ '.' :: (decimal ckbPlaces number.toNat).fraction).length,
      s.write dest ((whole ++ '.' :: (decimal ckbPlaces number.toNat).fraction) ++ [nul]))
    generalize (decimal ckbPlaces number.toNat).fraction = fraction
    have htext : whole ++ '.' :: fraction = whole ++ ['.'] ++ fraction := by simp
    have hpoint : whole.length + 1 = (whole ++ ['.']).length := by simp
    -- the point takes the place of the zero behind the whole part
    rw [Store.write_overlay _ _ _ [nul] ['.'] (Nat.le_refl _), hpoint, Store.write_write,
      Store.write_write, htext, ← List.length_append, List.append_assoc _ fraction]

/-! ### With a size -/

theorem exec_numberToStringIndirect64 (dest buffSize : ℕ) (number : UInt64) (s : Store Char) :
    (numberToStringIndirect64 dest buffSize number).exec s =
      if buffSize < maxIntDigits + 1 then (.error .wrongLength, s)
      else (.ok (), s.write dest (LedgerNervos.numberToString number ++ [nul])) := by
  rw [numberToStringIndirect64, Writer.exec_ite]
  split_ifs
  · rfl
  · rw [Writer.exec_bind_ok _ (numberToString_writes dest number s)]
    rfl

theorem exec_numberToStringIndirect32 (dest buffSize : ℕ) (number : UInt32) (s : Store Char) :
    (numberToStringIndirect32 dest buffSize number).exec s =
      if buffSize < maxIntDigits + 1 then (.error .wrongLength, s)
      else (.ok (), s.write dest (LedgerNervos.numberToString number.toUInt64 ++ [nul])) := by
  rw [numberToStringIndirect32, Writer.exec_ite]
  split_ifs
  · rfl
  · rw [Writer.exec_bind_ok _ (numberToString_writes dest number.toUInt64 s)]
    rfl

theorem exec_fracCkbToStringIndirect (dest buffSize : ℕ) (number : UInt64) (s : Store Char) :
    (fracCkbToStringIndirect dest buffSize number).exec s =
      if buffSize < maxIntDigits + 1 then (.error .wrongLength, s)
      else (.ok (), s.write dest (LedgerNervos.fracCkbToString number ++ [nul])) := by
  rw [fracCkbToStringIndirect, Writer.exec_ite]
  split_ifs
  · rfl
  · rw [Writer.exec_bind_ok _ (fracCkbToString_writes dest number s)]
    rfl

/-- Two texts with ` of ` between them: each takes the place of the zero behind the last one. -/
theorem write_ofStr (s : Store Char) (dest : ℕ) (fst snd : List Char) :
    (((s.write dest (fst ++ [nul])).write (dest + fst.length) (ofStr ++ [nul])).write
        (dest + (fst.length + ofStr.length)) (snd ++ [nul])) =
      s.write dest (fst ++ ofStr ++ snd ++ [nul]) := by
  rw [Store.write_overlay _ _ _ _ _ (by simp), ← List.append_assoc, ← List.length_append,
    Store.write_overlay _ _ _ _ _ (by simp), ← List.append_assoc]

theorem exec_fracCkbTupleToStringIndirect (dest buffSize : ℕ) (tuple : UInt64 × UInt64)
    (s : Store Char) :
    (fracCkbTupleToStringIndirect dest buffSize tuple).exec s =
      if buffSize < 2 * maxIntDigits + ofStr.length + 1 then (.error .wrongLength, s)
      else (.ok (), s.write dest (LedgerNervos.fracCkbToString tuple.1 ++ ofStr ++
        LedgerNervos.fracCkbToString tuple.2 ++ [nul])) := by
  rw [fracCkbTupleToStringIndirect, Writer.exec_ite]
  split_ifs
  · rfl
  · rw [Writer.exec_bind_ok _ (fracCkbToString_writes dest tuple.1 s),
      Writer.exec_bind_ok _ (Writer.exec_write _ _ _),
      Writer.exec_bind_ok _ (fracCkbToString_writes _ tuple.2 _), Writer.exec_pure, write_ofStr]

theorem exec_uint64TupleToString (dest buffSize : ℕ) (tuple : UInt64 × UInt64) (s : Store Char) :
    (uint64TupleToString dest buffSize tuple).exec s =
      (.ok (), s.write dest (LedgerNervos.numberToString tuple.1 ++ ofStr ++
        LedgerNervos.numberToString tuple.2 ++ [nul])) := by
  rw [uint64TupleToString, Writer.exec_bind_ok _ (numberToString_writes dest tuple.1 s),
    Writer.exec_bind_ok _ (Writer.exec_write _ _ _),
    Writer.exec_bind_ok _ (numberToString_writes _ tuple.2 _), Writer.exec_pure, write_ofStr]

/-! ### Addresses in memory -/

/-- Characters are appended as long as there is room. -/
theorem exec_appendChars (output outLen : ℕ) {cs : List Char} {off : ℕ}
    (h : off + cs.length ≤ outLen) (s : Store Char) :
    (appendChars output outLen (cs.map some) off).exec s =
      (.ok (some (off + cs.length)), s.write (output + off) cs) := by
  induction cs generalizing off s with
  | nil =>
    rw [Store.write_nil]
    rfl
  | cons c cs ih =>
    rw [List.length_cons] at h
    rw [List.map_cons, appendChars, Writer.exec_ite, if_neg (by omega),
      Writer.exec_bind_ok _ (Writer.exec_write _ _ _), ih (by omega), List.length_cons]
    have hpos : output + (off + 1) = output + off + [c].length := by
      rw [List.length_singleton, Nat.add_assoc]
    rw [hpos, Store.write_write, Nat.add_assoc off, Nat.add_comm 1]
    rfl

/-- An address that fits into the buffer is written, with a zero behind it. -/
theorem exec_bech32Encode {output outLen : ℕ} {hrp text : List Char} {data : List UInt8}
    (h : LedgerNervos.bech32Encode hrp data = some text) (hfits : text.length ≤ outLen)
    (s : Store Char) :
    (bech32Encode output outLen hrp data).exec s =
      (.ok true, s.write output (text ++ [nul])) := by
  rw [LedgerNervos.bech32Encode] at h
  split_ifs at h with hhrp hlength hdata
  obtain rfl := Option.some.inj h
  have hgroups : ∀ d ∈ data, ¬ d >>> 5 ≠ 0 := by
    intro d hd hbad
    exact hdata (List.any_eq_true.2 ⟨d, hd, decide_eq_true hbad⟩)
  have hmap : data.map (fun (d : UInt8) =>
      if d >>> 5 ≠ 0 then none else some (bech32Char d.toNat)) =
        (data.map fun d => bech32Char d.toNat).map some := by
    rw [List.map_map]
    exact List.map_congr_left fun d hd => if_neg (hgroups d hd)
  rw [bech32Encode, Writer.exec_ite, if_neg hhrp, Writer.exec_ite, if_neg hlength]
  dsimp only
  generalize bech32ChecksumGroups (bech32DataChecksum (bech32HrpChecksum hrp) data) = groups at *
  have hchars : hrp.map some ++ [some '1'] ++ (data.map fun d => bech32Char d.toNat).map some ++
      groups.map (fun d => some (bech32Char d)) =
        (hrp ++ ['1'] ++ data.map (fun d => bech32Char d.toNat) ++ groups.map bech32Char).map
          some := by
    simp [Function.comp_def]
  rw [hmap, hchars, Writer.exec_bind_ok _ (exec_appendChars output outLen (by omega) s)]
  dsimp only
  rw [Writer.exec_bind_ok _ (Writer.exec_write _ _ _), Nat.zero_add, Nat.add_zero,
    Store.write_write]
  rfl

theorem exec_renderPkh {out outSize : ℕ} {nd : NvramData} {payload : List UInt8}
    {text : List Char} (h : LedgerNervos.renderPkh nd payload = .ok text)
    (hfits : text.length ≤ outSize) (s : Store Char) :
    (renderPkh out outSize nd payload).exec s = (.ok (), s.write out (text ++ [nul])) := by
  simp only [LedgerNervos.renderPkh] at h
  simp only [renderPkh]
  cases hdata : convertBits 5 8 true payload with
  | none =>
    rw [hdata] at h
    cases h
  | some data =>
    rw [hdata] at h
    dsimp only at h ⊢
    split at h
    · cases h
    · rename_i htext
      obtain rfl := Except.ok.inj h
      exact Writer.exec_bind_ok _ (exec_bech32Encode htext hfits s)

end Print

end LedgerNervos
