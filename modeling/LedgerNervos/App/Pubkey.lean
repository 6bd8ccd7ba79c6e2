import LedgerNervos.App.Message

/-!
# Public keys

The handlers of the requests for a public key and for an account, as functions on their member
of the state union.
-/

namespace LedgerNervos

/-- `apdu_pubkey_state_t`, without the hash context that nothing uses. -/
structure PubkeyState where
  key : Bip32Path := .zero
  extPublicKey : ExtendedPublicKey := ⟨.zero 65, .zero 32⟩
  renderAddressLockArg : StandardLockArg := .zero 20
deriving DecidableEq

/-- `INS_PROMPT_EXT_PUBLIC_KEY` -/
def insPromptExtPublicKey : UInt8 := 0x04

/-- `provide_pubkey` -/
def providePubkey (key : PublicKey) : Reply :=
  finalizeSuccessfulSend .publicKey (UInt8.ofNat key.1.length :: key.1)

/-- `provide_ext_pubkey` -/
def provideExtPubkey (key : ExtendedPublicKey) : Reply :=
  finalizeSuccessfulSend .publicKey
    (UInt8.ofNat key.publicKey.1.length :: key.publicKey.1 ++
      UInt8.ofNat key.chainCode.1.length :: key.chainCode.1)

namespace PubkeyState

/-- `prompt_path` and `prompt_ext_path`: the prompt that the instruction asks for. -/
def prompt (s : PubkeyState) (nd : NvramData) (instruction : UInt8) : Except Exn Prompt :=
  if instruction = insPromptExtPublicKey then do
    let screens ← uiPrompt nd [⟨.text "Provide", .text "Extended Public Key"⟩,
      ⟨.text "Derivation Path", .path s.key⟩,
      ⟨.text "Address", .sighashAddress s.renderAddressLockArg⟩]
    return ⟨screens, .extPubkeyOk, .delayReject⟩
  else do
    let screens ← uiPrompt nd [⟨.text "Provide", .text "Public Key"⟩,
      ⟨.text "Address", .sighashAddress s.renderAddressLockArg⟩]
    return ⟨screens, .pubkeyOk, .delayReject⟩

/-- `handle_apdu_get_public_key` -/
def handleApduGetPublicKey (s : PubkeyState) (env : Env) (nd : NvramData)
    (instruction p1 : UInt8) (cdata : List UInt8) : Except Exn (Answer × PubkeyState) :=
  if p1 ≠ 0 then .error .wrongParam
  else do
    let key ← readBip32Path s.key cdata
    let (_, extPublicKey) ← env.derive key.used
    let s := { s with
      key := key
      extPublicKey := extPublicKey
      renderAddressLockArg := generateLockArgForPubkey env extPublicKey.publicKey }
    let p ← s.prompt nd instruction
    return (.prompt p, s)

/-- `handle_apdu_account_import` -/
def handleApduAccountImport (s : PubkeyState) (env : Env) (nd : NvramData) (p1 : UInt8)
    (cdata : List UInt8) : Except Exn (Answer × PubkeyState) :=
  let accountIndexRaw := UInt32.ofNat (beNat cdata)
  if p1 ≠ 0 then .error .wrongParam
  else if cdata.length ≠ 4 then .error .wrongParam
  else if 0x80000000 ≤ accountIndexRaw then .error .wrongParam
  else do
    let key : Bip32Path := ⟨3, [0x8000002C, 0x80000135, 0x80000000 + accountIndexRaw, 0, 0]⟩
    let (_, extPublicKey) ← env.derive key.used
    let screens ← uiPrompt nd [⟨.text "Import", .text "Account"⟩]
    return (.prompt ⟨screens, .accountImportOk, .delayReject⟩,
      { s with key := key, extPublicKey := extPublicKey })

end PubkeyState

end LedgerNervos
