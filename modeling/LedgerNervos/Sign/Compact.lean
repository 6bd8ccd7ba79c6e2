import LedgerNervos.Der.Integer
import LedgerNervos.Device.Reference
import LedgerNervos.Memory.Store
import LedgerNervos.Sign.Handle

/-!
# Compact signatures

The signatures that are made are in DER, where each integer has as many bytes as it needs.  What is
sent is the compact form: both integers with 32 bytes, and a byte about the point behind them.

## Main results

* `Raw.exec_sign` : the function on the memory of its caller writes what `sign` gives.
* `sign_signature` : both integers are in it, whatever their lengths are.
-/

namespace LedgerNervos

open Writer (write)

/-- `OUT_SIZE` -/
def compactSize : ℕ := 65

/-- `SIG_SIZE` -/
def sigSize : ℕ := 100

/-- The last byte of a signature, from the flags of the point. -/
def eccInfo (parityOdd xGtN : Bool) : UInt8 :=
  (if parityOdd then 1 else 0) ||| (if xGtN then 2 else 0)

/-- `sign`, on the memory of its caller.  A length in the signature can lead past the end of
`sig`. -/
def Raw.sign (out outSize : ℕ) (env : Env) (privateKey : Bytes 32) (data : List UInt8) :
    Writer Exn UInt8 ℕ :=
  if outSize < compactSize then throw .wrongLength
  else do
    write out (List.replicate compactSize 0)
    let (der, parityOdd, xGtN) := env.ecdsaSign privateKey data
    let sig := (Bytes.ofList sigSize der).1
    let rSize := (sig.getD 3 0).toNat
    let rSizeSat := if 32 < rSize then 32 else rSize
    let r := 4 + if 32 < rSize then 1 else 0
    if sigSize ≤ 3 + rSize + 2 then throw .fault
    else
      let sSize := (sig.getD (3 + rSize + 2) 0).toNat
      let sSizeSat := if 32 < sSize then 32 else sSize
      let s := 4 + rSize + 2 + if 32 < sSize then 1 else 0
      if sigSize < s + sSizeSat then throw .fault
      else do
        write (out + 32 - rSizeSat) ((sig.drop r).take rSizeSat)
        write (out + 64 - sSizeSat) ((sig.drop s).take sSizeSat)
        write (out + 64) [eccInfo parityOdd xGtN]
        return compactSize

/-! ### Memory -/

theorem Bytes.write_val {n : ℕ} (a : Bytes n) {off : ℕ} {bs : List UInt8}
    (h : off + bs.length ≤ n) :
    (a.write off bs).1 = a.1.take off ++ bs ++ a.1.drop (off + bs.length) := by
  have hn := a.2
  rw [Bytes.write]
  exact List.take_of_length_le (by simp; omega)

/-- To write into an array in memory. -/
theorem Store.write_bytes (s : Store UInt8) (out : ℕ) {n : ℕ} (a : Bytes n) {off : ℕ}
    {bs : List UInt8} (h : off + bs.length ≤ n) :
    (s.write out a.1).write (out + off) bs = s.write out (a.write off bs).1 := by
  have hn : a.1.length = n := a.2
  have hsplit : a.1 =
      a.1.take off ++ (a.1.drop off).take bs.length ++ a.1.drop (off + bs.length) := by
    rw [List.append_assoc, ← List.drop_drop, List.take_append_drop, List.take_append_drop]
  have hoff : (a.1.take off).length = off := List.length_take_of_le (by omega)
  have hmid : ((a.1.drop off).take bs.length).length = bs.length :=
    List.length_take_of_le (by rw [List.length_drop]; omega)
  have hwithin := s.write_within out (a.1.take off) _ bs (a.1.drop (off + bs.length)) hmid
  rw [hoff, ← hsplit] at hwithin
  rw [hwithin, Bytes.write_val a h]

/-- What is made of a signature. -/
theorem sign_eq {env : Env} {privateKey : Bytes 32} {data der : List UInt8}
    {parityOdd xGtN : Bool} (hsig : env.ecdsaSign privateKey data = (der, parityOdd, xGtN))
    {rSize sSize : ℕ} (hr : ((Bytes.ofList sigSize der).1.getD 3 0).toNat = rSize)
    (hs : ((Bytes.ofList sigSize der).1.getD (3 + rSize + 2) 0).toNat = sSize) :
    sign env privateKey data =
      (((Bytes.zero 65).write (32 - min rSize 32)
        (((Bytes.ofList sigSize der).1.drop (4 + if 32 < rSize then 1 else 0)).take
          (min rSize 32))).write (64 - min sSize 32)
        (((Bytes.ofList sigSize der).1.drop (4 + rSize + 2 + if 32 < sSize then 1 else 0)).take
          (min sSize 32))).write 64 [eccInfo parityOdd xGtN] := by
  subst hr hs
  simp only [sign, hsig]
  rfl

/-- The function writes what `sign` gives, as long as it reads within the signature. -/
theorem Raw.exec_sign (s : Store UInt8) (out outSize : ℕ) {env : Env} {privateKey : Bytes 32}
    {data der : List UInt8} {parityOdd xGtN : Bool}
    (hsig : env.ecdsaSign privateKey data = (der, parityOdd, xGtN)) {rSize sSize : ℕ}
    (hr : ((Bytes.ofList sigSize der).1.getD 3 0).toNat = rSize)
    (hs : ((Bytes.ofList sigSize der).1.getD (3 + rSize + 2) 0).toNat = sSize)
    (hr_le : rSize ≤ 33) (hs_le : sSize ≤ 33) :
    (Raw.sign out outSize env privateKey data).exec s =
      if outSize < compactSize then (.error .wrongLength, s)
      else (.ok compactSize, s.write out (LedgerNervos.sign env privateKey data).1) := by
  have hsat (n : ℕ) : (if 32 < n then 32 else n) = min n 32 := by
    split_ifs <;> omega
  have hskip (n : ℕ) : (if 32 < n then 1 else 0) ≤ 1 := by
    split_ifs <;> omega
  have hskip_s := hskip sSize
  have hsize : sigSize = 100 := rfl
  rw [Raw.sign, Writer.exec_ite]
  split_ifs with hout
  · rfl
  · rw [Writer.exec_bind_ok _ (Writer.exec_write _ _ _)]
    simp only [hsig, hr, hs, hsat]
    rw [Writer.exec_ite, if_neg (by omega), Writer.exec_ite, if_neg (by omega),
      Nat.add_sub_assoc (by omega), Nat.add_sub_assoc (by omega),
      Writer.exec_bind_ok _ (Writer.exec_write _ _ _),
      Writer.exec_bind_ok _ (Writer.exec_write _ _ _),
      Writer.exec_bind_ok _ (Writer.exec_write _ _ _), Writer.exec_pure]
    have hzero : List.replicate compactSize 0 = (Bytes.zero 65).1 := rfl
    have hfits (n k : ℕ) {off : ℕ} (hoff : 32 ≤ off) (hoff' : off ≤ 65) : off - min n 32 +
        (((Bytes.ofList sigSize der).1.drop k).take (min n 32)).length ≤ 65 := by
      have htake := List.length_take_le (min n 32) ((Bytes.ofList sigSize der).1.drop k)
      omega
    rw [hzero, Store.write_bytes _ _ _ (hfits _ _ (by decide) (by decide)),
      Store.write_bytes _ _ _ (hfits _ _ (by decide) (by decide)),
      Store.write_bytes _ _ _ (Nat.le_refl 65), ← sign_eq hsig hr hs]

/-! ### The integers of a signature -/

/-- The bytes of an integer that are taken: not the zero in front of 32 others. -/
def takenBytes (c : List UInt8) : List UInt8 := c.drop (if 32 < c.length then 1 else 0)

theorem length_takenBytes {c : List UInt8} (h : c.length ≤ 33) :
    (takenBytes c).length = min c.length 32 := by
  rw [takenBytes, List.length_drop]
  split_ifs
  · omega
  · omega

/-- With zeros in front, the bytes that are taken are the 32 bytes of the number. -/
theorem zeros_append_takenBytes {n : ℕ} (hn : n < 256 ^ 32) :
    (Der.contents n).length ≤ 33 ∧
      List.replicate (32 - min (Der.contents n).length 32) 0 ++ takenBytes (Der.contents n) =
        beBytes 32 n := by
  have hcontents := Der.isInteger_contents n
  rw [takenBytes]
  obtain hshort | ⟨rest, heq, hrest⟩ := hcontents.length_le hn
  · refine ⟨by omega, ?_⟩
    rw [if_neg (by omega), List.drop_zero, Nat.min_eq_left hshort]
    exact zeros_append_eq_beBytes hn hshort hcontents.value
  · have hvalue := hcontents.value
    rw [heq, beValue_zero_cons] at hvalue
    have hfull := zeros_append_eq_beBytes hn (Nat.le_of_eq hrest) hvalue
    rw [hrest] at hfull
    rw [heq, List.length_cons, hrest]
    exact ⟨Nat.le_refl _, hfull⟩

/-- How an integer behind `start` is read. -/
theorem read_integer (start rest : List UInt8) (tag : UInt8) {c : List UInt8}
    (hc : c.length ≤ 33) {pos off : ℕ} (hpos : pos = start.length + 1)
    (hoff : off = start.length + 2) :
    ((start ++ Der.tlv tag c ++ rest).getD pos 0).toNat = c.length ∧
      ((start ++ Der.tlv tag c ++ rest).drop (off + if 32 < c.length then 1 else 0)).take
        (min c.length 32) = takenBytes c := by
  have hbytes : start ++ Der.tlv tag c ++ rest =
      start ++ [tag, UInt8.ofNat c.length] ++ (c ++ rest) := by
    simp [Der.tlv]
  have hskip : (if 32 < c.length then 1 else 0) ≤ c.length := by
    split_ifs
    · omega
    · exact Nat.zero_le _
  subst hpos hoff
  constructor
  · rw [hbytes, List.append_assoc, List.getD_eq_getElem?_getD,
      List.getElem?_append_right (by omega), Nat.add_sub_cancel_left]
    exact UInt8.toNat_ofNat_of_lt' (by simp only [UInt8.size]; omega)
  · rw [hbytes, ← List.drop_drop, List.drop_left' (by simp),
      List.drop_append_of_le_length hskip]
    exact List.take_left' (length_takenBytes hc)

/-- The fields of the array that is filled with a signature. -/
theorem ofList_signature {r s : ℕ} (hr : (Der.contents r).length ≤ 33)
    (hs : (Der.contents s).length ≤ 33) :
    ∃ size zeros, (Bytes.ofList sigSize (Der.signature r s)).1 =
      [0x30, size] ++ Der.tlv 0x02 (Der.contents r) ++ Der.tlv 0x02 (Der.contents s) ++ zeros := by
  have hlength : (Der.signature r s).length ≤ sigSize := by
    simp only [Der.signature, Der.integer, Der.tlv, List.length_cons, List.length_append, sigSize]
    omega
  refine ⟨UInt8.ofNat (Der.integer r ++ Der.integer s).length,
    List.replicate (sigSize - (Der.signature r s).length) 0, ?_⟩
  have htake : (Bytes.ofList sigSize (Der.signature r s)).1 = Der.signature r s ++
      List.replicate (sigSize - (Der.signature r s).length) 0 :=
    congrArg (· ++ _) (List.take_of_length_le hlength)
  rw [htake]
  simp [Der.signature, Der.integer, Der.tlv]

/-- To replace a part of an array. -/
theorem Bytes.write_of_eq {n : ℕ} {a : Bytes n} {start mid rest bs : List UInt8}
    (ha : a.1 = start ++ mid ++ rest) (hmid : mid.length = bs.length) {off : ℕ}
    (hoff : start.length = off) : (a.write off bs).1 = start ++ bs ++ rest := by
  have hn : (start ++ mid ++ rest).length = n := ha ▸ a.2
  simp only [List.length_append] at hn
  rw [Bytes.write_val a (by omega), ha, ← hoff, ← hmid]
  simp

/-- Two blocks that end behind 32 bytes and behind 64, and a byte. -/
theorem write_blocks {x y : List UInt8} {m n : ℕ} (hx : x.length = m) (hy : y.length = n)
    (hm : m ≤ 32) (hn : n ≤ 32) (info : UInt8) :
    ((((Bytes.zero 65).write (32 - m) x).write (64 - n) y).write 64 [info]).1 =
      (List.replicate (32 - m) 0 ++ x) ++ (List.replicate (32 - n) 0 ++ y) ++ [info] := by
  have hzero : (Bytes.zero 65).1 =
      List.replicate (32 - m) 0 ++ List.replicate m 0 ++ List.replicate 33 0 := by
    rw [List.replicate_append_replicate, List.replicate_append_replicate, Nat.sub_add_cancel hm]
    rfl
  have hfirst : ((Bytes.zero 65).write (32 - m) x).1 =
      (List.replicate (32 - m) 0 ++ x) ++ List.replicate 33 0 :=
    Bytes.write_of_eq hzero (by simp [hx]) List.length_replicate
  have hlength : (List.replicate (32 - m) 0 ++ x).length = 32 := by
    simp [hx, hm]
  generalize List.replicate (32 - m) 0 ++ x = first at *
  have hrest : List.replicate 33 (0 : UInt8) =
      List.replicate (32 - n) 0 ++ List.replicate n 0 ++ [0] := by
    rw [List.replicate_append_replicate, Nat.sub_add_cancel hn]
    rfl
  rw [hrest, ← List.append_assoc, ← List.append_assoc] at hfirst
  have hsecond : (((Bytes.zero 65).write (32 - m) x).write (64 - n) y).1 =
      first ++ (List.replicate (32 - n) 0 ++ y) ++ [0] ++ [] := by
    rw [Bytes.write_of_eq hfirst (by simp [hy]) (by simp [hlength]; omega)]
    simp
  have hlast : (first ++ (List.replicate (32 - n) 0 ++ y)).length = 64 := by
    simp only [List.length_append, List.length_replicate, hlength, hy]
    omega
  have hone : [0].length = [info].length := rfl
  rw [Bytes.write_of_eq hsecond hone hlast, List.append_nil]

/-- What is read from a signature: the lengths of its integers, and the bytes that are taken. -/
theorem read_signature {r s : ℕ} (hr : (Der.contents r).length ≤ 33)
    (hs : (Der.contents s).length ≤ 33) {sig : List UInt8}
    (hsig : (Bytes.ofList sigSize (Der.signature r s)).1 = sig) :
    (sig.getD 3 0).toNat = (Der.contents r).length ∧
      (sig.getD (3 + (Der.contents r).length + 2) 0).toNat = (Der.contents s).length ∧
      (sig.drop (4 + if 32 < (Der.contents r).length then 1 else 0)).take
        (min (Der.contents r).length 32) = takenBytes (Der.contents r) ∧
      (sig.drop (4 + (Der.contents r).length + 2 +
        if 32 < (Der.contents s).length then 1 else 0)).take (min (Der.contents s).length 32) =
          takenBytes (Der.contents s) := by
  obtain ⟨size, zeros, hfields⟩ := ofList_signature hr hs
  have hlength : ([0x30, size] ++ Der.tlv 0x02 (Der.contents r)).length =
      4 + (Der.contents r).length := by
    simp only [Der.tlv, List.length_append, List.length_cons, List.length_nil]
    omega
  obtain ⟨hrSize, hrRead⟩ := read_integer [0x30, size]
    (Der.tlv 0x02 (Der.contents s) ++ zeros) 0x02 hr (rfl : 3 = _) (rfl : 4 = _)
  obtain ⟨hsSize, hsRead⟩ := read_integer ([0x30, size] ++ Der.tlv 0x02 (Der.contents r)) zeros
    0x02 hs (by omega : 3 + (Der.contents r).length + 2 = _)
    (by omega : 4 + (Der.contents r).length + 2 = _)
  rw [← List.append_assoc, ← hfields, hsig] at hrSize hrRead
  rw [← hfields, hsig] at hsSize hsRead
  exact ⟨hrSize, hsSize, hrRead, hsRead⟩

/-- Both integers of a signature are in what is sent, with 32 bytes each. -/
theorem sign_signature {env : Env} {privateKey : Bytes 32} {data : List UInt8} {r s : ℕ}
    (hr : r < 256 ^ 32) (hs : s < 256 ^ 32) {parityOdd xGtN : Bool}
    (hsig : env.ecdsaSign privateKey data = (Der.signature r s, parityOdd, xGtN)) :
    (sign env privateKey data).1 = beBytes 32 r ++ beBytes 32 s ++ [eccInfo parityOdd xGtN] := by
  obtain ⟨hr_le, hr_bytes⟩ := zeros_append_takenBytes hr
  obtain ⟨hs_le, hs_bytes⟩ := zeros_append_takenBytes hs
  obtain ⟨hrSize, hsSize, hrRead, hsRead⟩ := read_signature hr_le hs_le rfl
  rw [sign_eq hsig hrSize hsSize, hrRead, hsRead,
    write_blocks (length_takenBytes hr_le) (length_takenBytes hs_le) (Nat.min_le_right ..)
      (Nat.min_le_right ..), hr_bytes, hs_bytes]

/-- **Compact signatures.**  When the signature is the encoding of two integers of at most 256 bits
in DER, these stand in the first 64 bytes that are written, as numbers of 32 bytes each, and apart
from the 65 bytes of the compact form nothing is written. -/
theorem sign_compact (env : Env) (privateKey : Bytes 32) (data : List UInt8) (r s : ℕ)
    (hr : 1 ≤ r ∧ r < 2 ^ 256) (hs : 1 ≤ s ∧ s < 2 ^ 256)
    (hder : (env.ecdsaSign privateKey data).1 = Der.signature r s) (out outSize : ℕ)
    (m : Store UInt8) :
    ∃ m' : Store UInt8,
      (Raw.sign out outSize env privateKey data).exec m =
        (if outSize < compactSize then (.error .wrongLength, m) else (.ok compactSize, m')) ∧
      m'.read out 32 = beBytes 32 r ∧ beValue (m'.read out 32) = r ∧
      m'.read (out + 32) 32 = beBytes 32 s ∧ beValue (m'.read (out + 32) 32) = s ∧
      m'.read out compactSize = (sign env privateKey data).1 ∧
      (∀ i, i < out ∨ out + compactSize ≤ i → m'.cells i = m.cells i) ∧
      m'.reach = max m.reach (out + compactSize) := by
  have hr256 : r < 256 ^ 32 := hr.2
  have hs256 : s < 256 ^ 32 := hs.2
  obtain ⟨parityOdd, xGtN, hsig⟩ : ∃ parityOdd xGtN, env.ecdsaSign privateKey data =
      (Der.signature r s, parityOdd, xGtN) := ⟨_, _, Prod.ext hder rfl⟩
  obtain ⟨hr_le, -⟩ := zeros_append_takenBytes hr256
  obtain ⟨hs_le, -⟩ := zeros_append_takenBytes hs256
  obtain ⟨hrSize, hsSize, -, -⟩ := read_signature hr_le hs_le rfl
  have hbytes := sign_signature hr256 hs256 hsig
  have hlength : (sign env privateKey data).1.length = compactSize := Bytes.length _
  have hread {n : ℕ} (hn : n ≤ compactSize) :
      (m.write out (sign env privateKey data).1).read out n =
        (sign env privateKey data).1.take n :=
    m.read_write out _ (by omega)
  have hfirst : (m.write out (sign env privateKey data).1).read out 32 = beBytes 32 r := by
    rw [hread (by decide), hbytes, List.append_assoc]
    exact List.take_left' (length_beBytes 32 r)
  have hsecond : (m.write out (sign env privateKey data).1).read (out + 32) 32 =
      beBytes 32 s := by
    have hboth := (m.write out (sign env privateKey data).1).read_add out 32 32
    have htake : (sign env privateKey data).1.take (32 + 32) = beBytes 32 r ++ beBytes 32 s := by
      rw [hbytes]
      exact List.take_left' (by simp)
    rw [hfirst, hread (by decide), htake] at hboth
    exact (List.append_cancel_left hboth).symm
  refine ⟨m.write out (sign env privateKey data).1,
    Raw.exec_sign m out outSize hsig hrSize hsSize hr_le hs_le, hfirst, ?_, hsecond, ?_, ?_,
    fun i hi => ?_, ?_⟩
  · rw [hfirst, beValue_beBytes, Nat.mod_eq_of_lt hr256]
  · rw [hsecond, beValue_beBytes, Nat.mod_eq_of_lt hs256]
  · rw [hread (Nat.le_refl _), ← hlength, List.take_length]
  · obtain hi | hi := hi
    · exact m.cells_write_of_lt out _ hi
    · exact m.cells_write_of_le out _ (by rw [hlength]; exact hi)
  · have hne : (sign env privateKey data).1.isEmpty = false := by
      rw [List.isEmpty_eq_false_iff]
      exact List.ne_nil_of_length_eq_add_one hlength
    rw [Store.write]
    dsimp only
    rw [hne, if_neg Bool.false_ne_true, hlength]

/-- A signature with an integer of 33 bytes and one of a single byte. -/
def unevenEnv : Env :=
  { Env.reference with ecdsaSign := fun _ _ => (Der.signature (2 ^ 255) 5, true, false) }

theorem sign_compact_unevenEnv :
    (Der.contents (2 ^ 255)).length = 33 ∧ (Der.contents 5).length = 1 ∧
      ∃ m' : Store UInt8,
        (Raw.sign 0 compactSize unevenEnv (.zero 32) []).exec ⟨fun _ => 0xff, 0⟩ =
          (.ok compactSize, m') ∧
        beValue (m'.read 0 32) = 2 ^ 255 ∧ beValue (m'.read 32 32) = 5 := by
  obtain ⟨m', hexec, -, hr, -, hs, -⟩ := sign_compact unevenEnv (.zero 32) [] (2 ^ 255) 5
    (by decide) (by decide) rfl 0 compactSize ⟨fun _ => 0xff, 0⟩
  exact ⟨by decide, by decide, m', hexec, hr, hs⟩

end LedgerNervos
