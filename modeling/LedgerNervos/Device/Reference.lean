import LedgerNervos.Device.Types

/-!
# A device to run the model on

The services of the operating system are a parameter of the model (`Env`).  Here is one for
running it: Blake2b is the real function; all keys are the one of the private key 1, and the
signature is a constant.
-/

namespace LedgerNervos

namespace Blake2b

/-- The initialisation vector. -/
def iv : List UInt64 :=
  [0x6A09E667F3BCC908, 0xBB67AE8584CAA73B, 0x3C6EF372FE94F82B, 0xA54FF53A5F1D36F1,
   0x510E527FADE682D1, 0x9B05688C2B3E6C1F, 0x1F83D9ABFB41BD6B, 0x5BE0CD19137E2179]

/-- The order in which a round takes the words of the block. -/
def sigma : List (List ℕ) :=
  [[0, 1, 2, 3, 4, 5, 6, 7, 8, 9, 10, 11, 12, 13, 14, 15],
   [14, 10, 4, 8, 9, 15, 13, 6, 1, 12, 0, 2, 11, 7, 5, 3],
   [11, 8, 12, 0, 5, 2, 15, 13, 10, 14, 3, 6, 7, 1, 9, 4],
   [7, 9, 3, 1, 13, 12, 11, 14, 2, 6, 5, 10, 4, 0, 15, 8],
   [9, 0, 5, 7, 2, 4, 10, 15, 14, 1, 11, 12, 6, 8, 3, 13],
   [2, 12, 6, 10, 0, 11, 8, 3, 4, 13, 7, 5, 15, 14, 1, 9],
   [12, 5, 1, 15, 14, 13, 4, 10, 0, 7, 6, 3, 9, 2, 8, 11],
   [13, 11, 7, 14, 12, 1, 3, 9, 5, 0, 15, 4, 8, 6, 2, 10],
   [6, 15, 14, 9, 11, 3, 0, 8, 12, 2, 13, 7, 1, 4, 10, 5],
   [10, 2, 8, 4, 7, 6, 1, 5, 15, 11, 9, 14, 3, 12, 13, 0]]

def rotr (x n : UInt64) : UInt64 := (x >>> n) ||| (x <<< (64 - n))

/-- The mixing function, on four of the sixteen words. -/
def mix (v : List UInt64) (a b c d : ℕ) (x y : UInt64) : List UInt64 :=
  let va := v.getD a 0 + v.getD b 0 + x
  let vd := rotr (v.getD d 0 ^^^ va) 32
  let vc := v.getD c 0 + vd
  let vb := rotr (v.getD b 0 ^^^ vc) 24
  let va := va + vb + y
  let vd := rotr (vd ^^^ va) 16
  let vc := vc + vd
  let vb := rotr (vb ^^^ vc) 63
  (((v.set a va).set b vb).set c vc).set d vd

/-- One round. -/
def round (m v : List UInt64) (i : ℕ) : List UInt64 :=
  let s := sigma.getD (i % 10) []
  let x (k : ℕ) : UInt64 := m.getD (s.getD k 0) 0
  let v := mix v 0 4 8 12 (x 0) (x 1)
  let v := mix v 1 5 9 13 (x 2) (x 3)
  let v := mix v 2 6 10 14 (x 4) (x 5)
  let v := mix v 3 7 11 15 (x 6) (x 7)
  let v := mix v 0 5 10 15 (x 8) (x 9)
  let v := mix v 1 6 11 12 (x 10) (x 11)
  let v := mix v 2 7 8 13 (x 12) (x 13)
  mix v 3 4 9 14 (x 14) (x 15)

/-- A little-endian word. -/
def word (bs : List UInt8) : UInt64 := bs.foldr (fun b x => x * 256 + b.toUInt64) 0

/-- The bytes of a word. -/
def wordBytes (x : UInt64) : List UInt8 :=
  (List.range 8).map fun i => (x >>> UInt64.ofNat (8 * i)).toUInt8

/-- The words of a block. -/
def blockWords (block : List UInt8) : List UInt64 :=
  (List.range 16).map fun i => word ((block.drop (8 * i)).take 8)

/-- The compression function: `t` bytes have been taken so far. -/
def compress (h : List UInt64) (block : List UInt8) (t : ℕ) (last : Bool) : List UInt64 :=
  let v := h ++ iv
  let v := v.set 12 (v.getD 12 0 ^^^ UInt64.ofNat t)
  let v := if last then v.set 14 (v.getD 14 0 ^^^ 0xFFFFFFFFFFFFFFFF) else v
  let v := (List.range 12).foldl (round (blockWords block)) v
  List.zipWith (· ^^^ ·) h (List.zipWith (· ^^^ ·) (v.take 8) (v.drop 8))

/-- Compress the blocks of a message one after the other; the last one is filled up with zeros. -/
def blocks : ℕ → List UInt64 → ℕ → List UInt8 → List UInt64
  | 0, h, _, _ => h
  | fuel + 1, h, t, bs =>
    if bs.length ≤ 128 then
      compress h (bs ++ List.replicate (128 - bs.length) 0) (t + bs.length) true
    else blocks fuel (compress h (bs.take 128) (t + 128) false) (t + 128) (bs.drop 128)

/-- Blake2b with a digest of `n` bytes and a personalisation of 16 bytes. -/
def hash (n : ℕ) (personal : List UInt8) (bs : List UInt8) : Bytes n :=
  let h := iv.set 0 (iv.getD 0 0 ^^^ 0x01010000 ^^^ UInt64.ofNat n)
  let h := h.set 6 (h.getD 6 0 ^^^ word (personal.take 8))
  let h := h.set 7 (h.getD 7 0 ^^^ word (personal.drop 8))
  Bytes.ofList n ((blocks (bs.length / 128 + 1) h 0 bs).flatMap wordBytes)

end Blake2b

/-- `blake2b_personalization` -/
def blake2bPersonalization : List UInt8 :=
  [0x63, 0x6b, 0x62, 0x2d, 0x64, 0x65, 0x66, 0x61, 0x75, 0x6c, 0x74, 0x2d, 0x68, 0x61, 0x73, 0x68]

/-- The public key of the private key 1: the base point of the curve. -/
def basePoint : PublicKey :=
  ⟨[0x04,
    0x79, 0xBE, 0x66, 0x7E, 0xF9, 0xDC, 0xBB, 0xAC, 0x55, 0xA0, 0x62, 0x95, 0xCE, 0x87, 0x0B, 0x07,
    0x02, 0x9B, 0xFC, 0xDB, 0x2D, 0xCE, 0x28, 0xD9, 0x59, 0xF2, 0x81, 0x5B, 0x16, 0xF8, 0x17, 0x98,
    0x48, 0x3A, 0xDA, 0x77, 0x26, 0xA3, 0xC4, 0x65, 0x5D, 0xA4, 0xFB, 0xFC, 0x0E, 0x11, 0x08, 0xA8,
    0xFD, 0x17, 0xB4, 0x48, 0xA6, 0x85, 0x54, 0x19, 0x9C, 0x47, 0xD0, 0x8F, 0xFB, 0x10, 0xD4, 0xB8],
    by decide⟩

/-- A device whose keys are all the same. -/
def Env.reference : Env where
  blake2b := Blake2b.hash 32 blake2bPersonalization
  blake2bReused := Blake2b.hash 32 blake2bPersonalization
  blake2b512 := Blake2b.hash 64 (List.replicate 16 0)
  derive _ := .ok (⟨List.replicate 31 0 ++ [1], by decide⟩, ⟨basePoint, .zero 32⟩)
  ecdsaSign _ _ := ([0x30, 0x06, 0x02, 0x01, 0x01, 0x02, 0x01, 0x01], false, false)
  commit := []
  shlInt _ := 0
  shlU64 _ := 0

example : (Env.reference.blake2b []).1 =
    [0x44, 0xf4, 0xc6, 0x97, 0x44, 0xd5, 0xf8, 0xc5, 0x5d, 0x64, 0x20, 0x62, 0x94, 0x9d, 0xca, 0xe4,
     0x9b, 0xc4, 0xe7, 0xef, 0x43, 0xd3, 0x88, 0xc5, 0xa1, 0x2f, 0x42, 0xb5, 0x63, 0x3d, 0x16,
      0x3e] := by
  decide +kernel

end LedgerNervos
