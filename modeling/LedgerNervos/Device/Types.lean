import Mathlib.Algebra.GroupWithZero.Nat
import Mathlib.Data.List.Basic
import Mathlib.Data.Nat.Notation

/-!
# The data types of the application

Byte arrays of fixed size carry their length (`Bytes`), so that no operation on them can change
it.  Exceptions are the status words of the application, and a fault for behaviour that the
source leaves undefined.
-/

namespace LedgerNervos

/-- An array of `n` bytes. -/
abbrev Bytes (n : ℕ) := {bs : List UInt8 // bs.length = n}

namespace Bytes

variable {n : ℕ}

/-- All bytes zero. -/
def zero (n : ℕ) : Bytes n := ⟨List.replicate n 0, by simp⟩

/-- The first `n` bytes, or all of them and zeros. -/
def ofList (n : ℕ) (bs : List UInt8) : Bytes n :=
  ⟨bs.take n ++ List.replicate (n - bs.length) 0, by simp; omega⟩

/-- Overwrite the bytes from `off` on; what does not fit is dropped. -/
def write (a : Bytes n) (off : ℕ) (bs : List UInt8) : Bytes n :=
  ⟨(a.1.take off ++ bs ++ a.1.drop (off + bs.length)).take n, by
    have := a.2
    simp only [List.length_take, List.length_append, List.length_drop]; omega⟩

instance : Inhabited (Bytes n) := ⟨zero n⟩

@[simp] theorem length (a : Bytes n) : a.1.length = n := a.2

theorem ofList_of_length {bs : List UInt8} (h : bs.length = n) : ofList n bs = ⟨bs, h⟩ := by
  apply Subtype.ext
  simp [ofList, ← h]

end Bytes

/-- What a function can throw. -/
inductive Exn where
  /-- A status word. -/
  | code (sw : UInt16)
  /-- Behaviour the source leaves undefined. -/
  | fault
deriving DecidableEq, Repr

namespace Exn

def wrongParam : Exn := .code 0x6B00
def wrongLength : Exn := .code 0x6C00
def invalidIns : Exn := .code 0x6D00
def wrongLengthForIns : Exn := .code 0x917E
def rejected : Exn := .code 0x6985
def parseError : Exn := .code 0x9405
def wrongValues : Exn := .code 0x6A80
def security : Exn := .code 0x6982
def cla : Exn := .code 0x6E00
def memoryError : Exn := .code 0x9200

end Exn

/-- A sequence that succeeds. -/
theorem bind_eq_ok_iff {ε α β : Type} {x : Except ε α} {f : α → Except ε β} {b : β} :
    (x >>= f) = .ok b ↔ ∃ a, x = .ok a ∧ f a = .ok b := by
  cases x <;> simp [bind, Except.bind]

theorem map_eq_ok_iff {ε α β : Type} {x : Except ε α} {f : α → β} {b : β} :
    x.map f = .ok b ↔ ∃ a, x = .ok a ∧ f a = b := by
  cases x <;> simp [Except.map]

theorem mapError_eq_ok_iff {ε ε' α : Type} {x : Except ε α} {f : ε → ε'} {a : α} :
    x.mapError f = .ok a ↔ x = .ok a := by
  cases x <;> simp [Except.mapError]

/-! ### Keys and lock arguments -/

/-- `MAX_BIP32_PATH` -/
def maxBip32Path : ℕ := 5

/-- A derivation path: an array of components, of which the first `length` are in use. -/
structure Bip32Path where
  length : UInt8
  components : List UInt32
deriving DecidableEq, Repr

/-- The zeroed path. -/
def Bip32Path.zero : Bip32Path := ⟨0, List.replicate maxBip32Path 0⟩

/-- The components in use. -/
def Bip32Path.used (p : Bip32Path) : List UInt32 := p.components.take p.length.toNat

/-- A public key: an uncompressed point. -/
abbrev PublicKey := Bytes 65

/-- A public key with its chain code. -/
structure ExtendedPublicKey where
  publicKey : PublicKey
  chainCode : Bytes 32
deriving DecidableEq

/-- The lock argument of an ordinary cell. -/
abbrev StandardLockArg := Bytes 20

/-- A lock argument with a lock period: the hash, then the period, which is zero when there is no
time lock. -/
abbrev LockArg := Bytes 28

/-- The first 20 bytes of a lock argument. -/
def LockArg.hash (a : LockArg) : StandardLockArg := ⟨a.1.take 20, by simp⟩

/-- The last 8 bytes of a lock argument. -/
def LockArg.lockPeriod (a : LockArg) : Bytes 8 := ⟨a.1.drop 20, by simp⟩

/-! ### Settings -/

inductive AddressType where
  | mainnet
  | testnet
deriving DecidableEq, Repr

inductive SignHashType where
  | off
  | on
deriving DecidableEq, Repr

inductive ContractDataType where
  | disallow
  | allow
deriving DecidableEq, Repr

/-- The settings, which survive a restart.  The texts of the menu entries are left out. -/
structure NvramData where
  addressType : AddressType := .mainnet
  signHashType : SignHashType := .off
  contractDataType : ContractDataType := .disallow
deriving DecidableEq, Repr

/-! ### What the operating system provides -/

/-- The cryptographic services of the operating system, a string that the build provides, and the
values of the shifts by at least the width of the shifted type, which the C language leaves open. -/
structure Env where
  /-- Blake2b-256 with the personalisation `ckb-default-hash`. -/
  blake2b : List UInt8 → Bytes 32
  /-- What finishing a hash context gives that has been finished before. -/
  blake2bReused : List UInt8 → Bytes 32
  /-- Blake2b-512 without personalisation, for the wallet id. -/
  blake2b512 : List UInt8 → Bytes 64
  /-- Key derivation: the private key, the public key and the chain code of a path. -/
  derive : List UInt32 → Except Exn (Bytes 32 × ExtendedPublicKey)
  /-- Signing with a private key: the signature in DER, and the flags of the curve point. -/
  ecdsaSign : Bytes 32 → List UInt8 → List UInt8 × Bool × Bool
  /-- The commit that the application was built from. -/
  commit : List UInt8
  /-- `1 << i` in `int`, for `32 ≤ i`. -/
  shlInt : UInt32 → UInt64
  /-- `1 << i` in `uint64_t`, for `64 ≤ i`. -/
  shlU64 : UInt32 → UInt64

end LedgerNervos
