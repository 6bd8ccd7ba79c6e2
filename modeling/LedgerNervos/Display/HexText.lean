import LedgerNervos.Display.Guards

/-!
# Bytes in hexadecimal

`bin_to_hex` writes two digits for each byte.  The text is written just when it fits with the zero
at its end, and the bytes are got back from it.
-/

namespace LedgerNervos

/-- The digits of `bin_to_hex`. -/
def hexCharset : List Char := "0123456789ABCDEF".toList

/-- A digit. -/
def hexDigit (n : ℕ) : Char := hexCharset.getD n '0'

/-! ### Writing -/

namespace Print

open Writer (write)

/-- The loop of `bin_to_hex`, from byte number `i` on.  On the device, `char` is unsigned. -/
def hexDigits (out : ℕ) : List UInt8 → ℕ → Print Unit
  | [], _ => return ()
  | b :: bs, i => do
    write (out + i * 2) [hexDigit (b >>> 4).toNat]
    write (out + (i * 2 + 1)) [hexDigit (b &&& 0x0F).toNat]
    hexDigits out bs (i + 1)

/-- `bin_to_hex` -/
def binToHex (out outSize : ℕ) (bs : List UInt8) : Print Unit :=
  let outLen := bs.length * 2
  if outSize < outLen + 1 then throw .memoryError
  else do
    hexDigits out bs 0
    write (out + outLen) [nul]

/-- `buffer_to_hex` -/
def bufferToHex (out outSize : ℕ) (bs : List UInt8) : Print Unit := binToHex out outSize bs

end Print

/-- The digits of a byte. -/
def byteDigits (b : UInt8) : List Char := [hexDigit (b.toNat / 16), hexDigit (b.toNat % 16)]

theorem binToHex_cons (b : UInt8) (bs : List UInt8) :
    binToHex (b :: bs) = byteDigits b ++ binToHex bs := rfl

theorem length_binToHex (bs : List UInt8) : (binToHex bs).length = bs.length * 2 := by
  induction bs with
  | nil => rfl
  | cons b bs ih =>
    rw [binToHex_cons, List.length_append, ih, List.length_cons, byteDigits]
    simp only [List.length_cons, List.length_nil]
    omega

theorem byteDigits_eq (b : UInt8) :
    byteDigits b = [hexDigit (b >>> 4).toNat, hexDigit (b &&& 0x0F).toNat] := by
  have hhigh : (b >>> 4).toNat = b.toNat / 16 := by
    rw [UInt8.toNat_shiftRight, Nat.shiftRight_eq_div_pow]
    rfl
  have hlow : (b &&& 0x0F).toNat = b.toNat % 16 := by
    rw [UInt8.toNat_and]
    exact Nat.and_two_pow_sub_one_eq_mod b.toNat 4
  rw [byteDigits, hhigh, hlow]

namespace Print

/-- The digits of the bytes from number `i` on, behind those of the bytes in front of them. -/
theorem exec_hexDigits (s : Store Char) (out : ℕ) (bs : List UInt8) {done : List Char} {i : ℕ}
    (hdone : done.length = i * 2) :
    (hexDigits out bs i).exec (s.write out done) =
      (.ok (), s.write out (done ++ LedgerNervos.binToHex bs)) := by
  induction bs generalizing done i with
  | nil =>
    rw [hexDigits, LedgerNervos.binToHex, List.flatMap_nil, List.append_nil]
    rfl
  | cons b bs ih =>
    have hnext : (done ++ byteDigits b).length = (i + 1) * 2 := by
      rw [List.length_append, hdone, byteDigits]
      simp only [List.length_cons, List.length_nil]
      omega
    have hpos : i * 2 + 1 = (done ++ [hexDigit (b >>> 4).toNat]).length := by
      rw [List.length_append, hdone]
      rfl
    rw [hexDigits, Writer.exec_bind_ok _ (Writer.exec_write _ _ _), ← hdone, Store.write_write,
      hdone, hpos, Writer.exec_bind_ok _ (Writer.exec_write _ _ _), Store.write_write,
      List.append_assoc, List.singleton_append, ← byteDigits_eq, ih hnext, binToHex_cons,
      List.append_assoc]

/-- The text is written if it fits, and nothing otherwise. -/
theorem exec_binToHex (out outSize : ℕ) (bs : List UInt8) (s : Store Char) :
    (binToHex out outSize bs).exec s =
      if outSize < (LedgerNervos.binToHex bs).length + 1 then (.error .memoryError, s)
      else (.ok (), s.write out (LedgerNervos.binToHex bs ++ [nul])) := by
  have hdigits := exec_hexDigits s out bs (show ([] : List Char).length = 0 * 2 from rfl)
  rw [Store.write_nil, List.nil_append] at hdigits
  rw [binToHex, Writer.exec_ite, length_binToHex]
  split_ifs
  · rfl
  · rw [Writer.exec_bind_ok _ hdigits, Writer.exec_write, ← length_binToHex, Store.write_write]

end Print

/-! ### Reading -/

/-- The value of a digit. -/
def hexValue (c : Char) : Option ℕ := hexCharset.idxOf? c

/-- The bytes that a text stands for, two digits each. -/
def parseHex : List Char → Option (List UInt8)
  | [] => some []
  | [_] => none
  | c :: c' :: cs => do
    let high ← hexValue c
    let low ← hexValue c'
    let bs ← parseHex cs
    return UInt8.ofNat (16 * high + low) :: bs

theorem hexValue_hexDigit {n : ℕ} (hn : n < 16) : hexValue (hexDigit n) = some n := by
  have hall : ∀ n < 16, hexValue (hexDigit n) = some n := by decide +kernel
  exact hall n hn

theorem parseHex_binToHex (bs : List UInt8) : parseHex (binToHex bs) = some bs := by
  induction bs with
  | nil => rfl
  | cons b bs ih =>
    have hb := b.toNat_lt
    have hvalue : UInt8.ofNat (16 * (b.toNat / 16) + b.toNat % 16) = b := by
      rw [Nat.div_add_mod, UInt8.ofNat_toNat]
    have hhigh : b.toNat / 16 < 16 := by omega
    have hlow : b.toNat % 16 < 16 := Nat.mod_lt _ (by decide)
    rw [binToHex_cons, byteDigits]
    simp only [List.cons_append, List.nil_append, parseHex, hexValue_hexDigit hhigh,
      hexValue_hexDigit hlow, ih, Option.bind_eq_bind, Option.bind_some, hvalue]
    rfl

theorem nul_notMem_binToHex (bs : List UInt8) : nul ∉ binToHex bs := by
  induction bs with
  | nil => exact List.not_mem_nil
  | cons b bs ih =>
    have hb := b.toNat_lt
    have hdigit : ∀ n < 16, nul ≠ hexDigit n := by decide +kernel
    rw [binToHex_cons, byteDigits, List.cons_append, List.cons_append, List.mem_cons, not_or,
      List.mem_cons, not_or]
    exact ⟨hdigit _ (by omega), hdigit _ (Nat.mod_lt _ (by decide)), ih⟩

example : binToHex [0x00, 0x9b, 0xd7] = "009BD7".toList := by decide +kernel

end LedgerNervos
