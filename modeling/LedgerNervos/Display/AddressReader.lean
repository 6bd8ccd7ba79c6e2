import LedgerNervos.Display.AddressText
import LedgerNervos.Sign.Books

/-!
# The lock script of an address

An address names a lock script.  The short forms hold an argument of 20 bytes for one of two known
scripts; the full form holds the code hash, and all that follows is the argument.  What an entry of
`outputs` is shown as names a lock script with an argument of 20 or 28 bytes (`Output.names_iff`).
-/

namespace LedgerNervos

/-- A lock script. -/
structure LockScript where
  codeHash : List UInt8
  hashType : UInt8
  args : List UInt8
deriving DecidableEq, Repr

/-- The lock script of a cell. -/
def CellOutputVal.lockScript (o : CellOutputVal) : LockScript :=
  ⟨o.lock.codeHash, o.lock.hashType, o.lock.args⟩

/-! ### The reader -/

/-- The lock script that a payload stands for. -/
def readPayload (payload : List UInt8) : Option LockScript :=
  if payload.take 2 = [addressFormatTypeShort, addressCodeHashTypeSighash] ∧
      payload.length = 22 then some ⟨defaultLockScript, 1, payload.drop 2⟩
  else if payload.take 2 = [addressFormatTypeShort, addressCodeHashTypeMultisig] ∧
      payload.length = 22 then some ⟨multisigLockScript, 1, payload.drop 2⟩
  else if payload.take 1 = [addressFormatTypeFullType] ∧ 33 ≤ payload.length then
    some ⟨(payload.drop 1).take 32, 1, payload.drop 33⟩
  else none

/-- The lock script that an address stands for, on one of the two networks. -/
def readAddress (text : List Char) : Option LockScript :=
  match bech32Decode text with
  | none => none
  | some (hrp, vs) =>
    if hrp = AddressType.mainnet.hrp ∨ hrp = AddressType.testnet.hrp then
      (convertBits 8 5 false (vs.map UInt8.ofNat)).bind readPayload
    else none

/-- The address of a payload stands for the lock script of the payload. -/
theorem IsAddress.readAddress_eq {nd : NvramData} {payload : List UInt8} {text : List Char}
    (h : IsAddress nd payload text) : readAddress text = readPayload payload := by
  obtain ⟨data, k, hdecode, hpayload, -⟩ := h.data
  have hbytes : (data.map UInt8.toNat).map UInt8.ofNat = data := by
    rw [List.map_map]
    exact List.map_id'' (fun b => UInt8.ofNat_toNat) data
  have hnetwork : nd.addressType.hrp = AddressType.mainnet.hrp ∨
      nd.addressType.hrp = AddressType.testnet.hrp := by
    cases nd.addressType
    · exact .inl rfl
    · exact .inr rfl
  rw [readAddress, hdecode]
  dsimp only
  rw [if_pos hnetwork, hbytes, hpayload, Option.bind_some]

/-! ### What is named -/

/-- The lock script that an address of a kind names. -/
def AddressKind.lockScript : AddressKind → LockArg → LockScript
  | sighash, a => ⟨defaultLockScript, 1, (LockArg.hash a).1⟩
  | multisig, a =>
    ⟨multisigLockScript, 1, if LockArg.lockPeriod a = .zero 8 then (LockArg.hash a).1 else a.1⟩

theorem AddressKind.readPayload_payload (kind : AddressKind) (a : LockArg) :
    readPayload (kind.payload a) = some (kind.lockScript a) := by
  have hhash : (LockArg.hash a).1.length = 20 := (LockArg.hash a).2
  have hlock : (LockArg.hash a).1 ++ (LockArg.lockPeriod a).1 = a.1 :=
    List.take_append_drop 20 a.1
  cases kind with
  | sighash =>
    rw [payload, lockScript, readPayload, if_pos ⟨rfl, by simp [hhash]⟩]
    rfl
  | multisig =>
    rw [payload, lockScript]
    split_ifs with hperiod
    · have hother : ([0x01, 0x01] : List UInt8) ≠
          [addressFormatTypeShort, addressCodeHashTypeSighash] := by decide
      rw [readPayload, if_neg fun hbad => hother hbad.1, if_pos ⟨rfl, by simp [hhash]⟩]
      rfl
    · have hfull : (0x04 :: multisigLockScript ++ (LockArg.hash a).1 ++
          (LockArg.lockPeriod a).1 : List UInt8) = 0x04 :: (multisigLockScript ++ a.1) := by
        rw [List.cons_append, List.cons_append, List.append_assoc, hlock]
      rw [hfull, readPayload, if_neg, if_neg, if_pos]
      · rfl
      · exact ⟨rfl, by simp [length_multisigLockScript]⟩
      · rintro ⟨-, hbad⟩
        simp [length_multisigLockScript] at hbad
      · rintro ⟨-, hbad⟩
        simp [length_multisigLockScript] at hbad

/-- The text of an address names its lock script. -/
theorem AddressKind.readAddress_render (kind : AddressKind) (nd : NvramData) (a : LockArg) :
    ∃ text, kind.render nd a = .ok text ∧ readAddress text = some (kind.lockScript a) := by
  obtain ⟨text, htext, -, haddress⟩ := renderPkh_isAddress nd (kind.length_payload_le a)
  rw [← kind.render_eq] at htext
  exact ⟨text, htext, haddress.readAddress_eq.trans (kind.readPayload_payload a)⟩

/-- The lock argument with a hash, and without a lock period. -/
def StandardLockArg.lockArg (hash : StandardLockArg) : LockArg :=
  ⟨hash.1 ++ List.replicate 8 0, by simp⟩

theorem StandardLockArg.hash_lockArg (hash : StandardLockArg) :
    LockArg.hash (StandardLockArg.lockArg hash) = hash :=
  Subtype.ext (List.take_left' hash.2)

/-- The address of a hash. -/
theorem render_sighashAddress (nd : NvramData) (hash : StandardLockArg) :
    (ScreenValue.sighashAddress hash).render nd =
      AddressKind.sighash.render nd (StandardLockArg.lockArg hash) := by
  rw [AddressKind.render, StandardLockArg.hash_lockArg]
  rfl

/-- Under all settings, the text of the value is an address that names the lock script `s`. -/
def ScreenValue.Names (value : ScreenValue) (s : LockScript) : Prop :=
  ∀ nd, ∃ text, value.render nd = .ok text ∧ readAddress text = some s

/-- An address names one lock script only. -/
theorem ScreenValue.Names.inj {value : ScreenValue} {s s' : LockScript} (h : value.Names s)
    (h' : value.Names s') : s = s' := by
  obtain ⟨text, htext, hread⟩ := h {}
  obtain ⟨text', htext', hread'⟩ := h' {}
  obtain rfl := Except.ok.inj (htext.symm.trans htext')
  exact Option.some.inj (hread.symm.trans hread')

namespace Output

/-- The kind of address for an entry of `outputs`. -/
def addressKind (e : Output) : AddressKind := if e.isMultisig then .multisig else .sighash

/-- The lock script that is shown for an entry of `outputs`. -/
def lockScript (e : Output) : LockScript := e.addressKind.lockScript e.destination

theorem render_address (nd : NvramData) (e : Output) :
    e.address.render nd = e.addressKind.render nd e.destination := by
  unfold address addressKind
  split_ifs
  · rfl
  · rfl

theorem names_lockScript (e : Output) : e.address.Names e.lockScript := by
  intro nd
  rw [e.render_address]
  exact e.addressKind.readAddress_render nd e.destination

/-- What an entry of `outputs` is shown as names one lock script. -/
theorem names_iff (e : Output) (s : LockScript) : e.address.Names s ↔ e.lockScript = s := by
  constructor
  · intro h
    exact e.names_lockScript.inj h
  · rintro rfl
    exact e.names_lockScript

/-- The kind and the first 20 bytes of the args are those of the entry. -/
theorem lockScript_kind (e : Output) :
    (e.lockScript.codeHash = multisigLockScript ↔ e.isMultisig = true) ∧
      e.lockScript.args.take 20 = (LockArg.hash e.destination).1 := by
  have hhash : (LockArg.hash e.destination).1.take 20 = (LockArg.hash e.destination).1 :=
    List.take_of_length_le (LockArg.hash e.destination).2.le
  have hother : defaultLockScript ≠ multisigLockScript := by decide
  unfold lockScript addressKind
  split_ifs with hmultisig
  · refine ⟨iff_of_true rfl hmultisig, ?_⟩
    simp only [AddressKind.lockScript]
    split_ifs
    · exact hhash
    · rfl
  · exact ⟨iff_of_false hother hmultisig, hhash⟩

end Output

end LedgerNervos
