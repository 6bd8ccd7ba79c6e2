import LedgerNervos.Display.Bech32
import LedgerNervos.Sign.Dispatch
import Mathlib.Data.List.DropRight

/-!
# What the screens show

A prompt is a sequence of screens, each with a title and a value.  The value of a screen is kept
here as what it is made from (`ScreenValue`); `ScreenValue.render` makes the text from it.
-/

namespace LedgerNervos

/-- `MAX_INT_DIGITS` -/
def maxIntDigits : ℕ := 20

/-- The last `k` decimal digits of a number, in front of `acc`; without `leadingZeroes` it stops
when the rest of the number is zero. -/
def convertNumber (leadingZeroes : Bool) : ℕ → UInt64 → List Char → List Char
  | 0, _, acc => acc
  | k + 1, number, acc =>
    let acc := Char.ofNat ('0'.toNat + (number % 10).toNat) :: acc
    if !leadingZeroes && number / 10 = 0 then acc
    else convertNumber leadingZeroes k (number / 10) acc

/-- `number_to_string` -/
def numberToString (number : UInt64) : List Char := convertNumber false maxIntDigits number []

/-- `frac_ckb_to_string`: an amount in hundred-millionths. -/
def fracCkbToString (number : UInt64) : List Char :=
  let whole := number / 100000000
  if number % 100000000 = 0 then numberToString whole
  else numberToString whole ++ '.' ::
    (((convertNumber true maxIntDigits number []).drop (maxIntDigits - 8)).rdropWhile (· = '0'))

/-- `lock_arg_to_sighash_address` -/
def lockArgToSighashAddress (nd : NvramData) (hash : StandardLockArg) : Except Exn (List Char) :=
  renderPkh nd ([addressFormatTypeShort, addressCodeHashTypeSighash] ++ hash.1)

/-- `lock_arg_to_multisig_address` -/
def lockArgToMultisigAddress (nd : NvramData) (lockArg : LockArg) : Except Exn (List Char) :=
  let hasTimelock := (LockArg.lockPeriod lockArg).1.any (· ≠ 0)
  if hasTimelock then
    renderPkh nd (addressFormatTypeFullType :: multisigLockScript ++ lockArg.1)
  else
    renderPkh nd ([addressFormatTypeShort, addressCodeHashTypeMultisig] ++
      (LockArg.hash lockArg).1)

/-- `bin_to_hex` -/
def binToHex (bs : List UInt8) : List Char :=
  bs.flatMap fun b =>
    [("0123456789ABCDEF".toList).getD (b.toNat / 16) '0',
      ("0123456789ABCDEF".toList).getD (b.toNat % 16) '0']

/-- `bip32_path_to_string` -/
def bip32PathToString (path : Bip32Path) : List Char :=
  let component (c : UInt32) : List Char :=
    numberToString (c &&& 0x7FFFFFFF).toUInt64 ++ if c &&& 0x80000000 ≠ 0 then ['\''] else []
  (path.used.map component).intersperse ['/'] |>.flatten

/-- What the value of a screen is made from. -/
inductive ScreenValue where
  | text (s : String)
  | amount (n : UInt64)
  | amountOf (n : UInt64 × UInt64)
  | countOf (n : UInt64 × UInt64)
  | contractType (c : ContractType)
  | sighashAddress (hash : StandardLockArg)
  | multisigAddress (lockArg : LockArg)
  | output (o : Output)
  | path (p : Bip32Path)
  | hex (bs : List UInt8)
  | buffer (bs : List UInt8)
deriving DecidableEq

/-- The title of a screen: a text, or the number of an output. -/
inductive ScreenTitle where
  | text (s : String)
  | output (i n : ℕ)
deriving DecidableEq

/-- A screen of a prompt. -/
structure Screen where
  title : ScreenTitle
  value : ScreenValue
deriving DecidableEq

/-- The address that an entry of `outputs` is shown as. -/
def Output.address (o : Output) : ScreenValue :=
  if o.isMultisig then .multisigAddress o.destination
  else .sighashAddress (LockArg.hash o.destination)

/-- The text of an address. -/
def Output.renderAddress (nd : NvramData) (o : Output) : Except Exn (List Char) :=
  if o.isMultisig then lockArgToMultisigAddress nd o.destination
  else lockArgToSighashAddress nd (LockArg.hash o.destination)

/-- The text of a value. -/
def ScreenValue.render (nd : NvramData) : ScreenValue → Except Exn (List Char)
  | text s => .ok s.toList
  | amount n => .ok (fracCkbToString n)
  | amountOf n => .ok (fracCkbToString n.1 ++ " of ".toList ++ fracCkbToString n.2)
  | countOf n => .ok (numberToString n.1 ++ " of ".toList ++ numberToString n.2)
  | contractType c => .ok (match c with
    | .notPresent => "Not Present".toList
    | .unknown => "Present".toList)
  | sighashAddress hash => lockArgToSighashAddress nd hash
  | multisigAddress lockArg => lockArgToMultisigAddress nd lockArg
  | output o => do
    let address ← o.renderAddress nd
    return fracCkbToString o.capacity ++ " CKB -> ".toList ++ address
  | path p => .ok (bip32PathToString p)
  | hex bs => .ok (binToHex bs)
  | buffer bs => .ok (bs.map fun b => Char.ofNat b.toNat)

/-- The text of a title. -/
def ScreenTitle.render : ScreenTitle → List Char
  | text s => s.toList
  | output i n => "Output ".toList ++ numberToString (UInt64.ofNat i) ++
      (if n < 100 then '/' :: numberToString (UInt64.ofNat n) else [])

/-- `MAX_SCREEN_COUNT` -/
def maxScreenCount : ℕ := 8

/-- `ui_prompt` and `ui_prompt_with_cb`: every screen is rendered once before the prompt is put
up, so a value that cannot be rendered is noticed. -/
def uiPrompt (nd : NvramData) (screens : List Screen) : Except Exn (List Screen) :=
  if maxScreenCount < screens.length then .error .memoryError
  else do
    for screen in screens do
      let _ ← screen.value.render nd
    return screens

theorem uiPrompt_ok {nd : NvramData} {screens shown : List Screen}
    (h : uiPrompt nd screens = .ok shown) : shown = screens := by
  unfold uiPrompt at h
  split_ifs at h
  rw [bind_eq_ok_iff] at h
  obtain ⟨_, -, h⟩ := h
  cases h
  rfl

end LedgerNervos
