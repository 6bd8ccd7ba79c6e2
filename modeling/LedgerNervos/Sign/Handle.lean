import LedgerNervos.Display.Text

/-!
# Signing a transaction

`handleApdu` processes one packet of an annotated transaction; with the last one it puts up the
prompt (`signComplete`).  `performSignature` is what follows when the user accepts.
-/

namespace LedgerNervos

/-- What the bytes of a reply are. -/
inductive ReplyKind where
  | status
  | data
  | publicKey
  | signature
deriving DecidableEq, Repr

/-- A reply to the host. -/
structure Reply where
  kind : ReplyKind
  bytes : List UInt8
deriving DecidableEq

/-- `finalize_successful_send` -/
def finalizeSuccessfulSend (kind : ReplyKind) (bytes : List UInt8) : Reply :=
  ⟨kind, bytes ++ [0x90, 0x00]⟩

/-- What `ok_callback` can point to. -/
inductive OkCallback where
  | null
  | signWithoutHashOk
  | signWithHashOk
  | signMessageOk
  | signMessageHashOk
  | pubkeyOk
  | extPubkeyOk
  | accountImportOk
deriving DecidableEq, Repr

/-- What `cxl_callback` can point to. -/
inductive CxlCallback where
  | null
  | signReject
  | delayReject
deriving DecidableEq, Repr

/-- A prompt that waits for the user. -/
structure Prompt where
  screens : List Screen
  ok : OkCallback
  cxl : CxlCallback
deriving DecidableEq

/-- How a handler ends. -/
inductive Answer where
  /-- The handler returns, and the reply is sent. -/
  | reply (r : Reply)
  /-- The handler puts up a prompt, and the reply waits for the user. -/
  | prompt (p : Prompt)
  /-- What has been called for a handler has sent a reply itself and returns `true`. -/
  | sent (r : Reply)
deriving DecidableEq

/-- `MAX_APDU_SIZE` -/
def maxApduSize : ℕ := 230

/-- Position of the payload in the receive buffer. -/
def offsetCdata : ℕ := 5

/-- `INS_SIGN_WITH_HASH` -/
def insSignWithHash : UInt8 := 0x0F

def p1First : UInt8 := 0x00
def p1Next : UInt8 := 0x01
def p1NoFallback : UInt8 := 0x40
def p1LastMarker : UInt8 := 0x80
/-- `P1_MASK`: all but the two flags. -/
def p1Mask : UInt8 := 0x3F

namespace SignState

/-- The screens for a transaction. -/
def screens (nd : NvramData) (g : SignState) : Option (List Screen) :=
  let v := g.maybe.v
  let out (i : ℕ) : Output := g.tx.outputs.getD i {}
  let text (title value : String) : Screen := ⟨.text title, .text value⟩
  let screen (title : String) (value : ScreenValue) : Screen := ⟨.text title, value⟩
  match v.tag with
  | .plainTransfer => some ([
      text "Confirm" "Transaction",
      screen "Amount" (.amount v.amount.2),
      screen "Fee" (.amount v.totalFee),
      screen "Destination" (out 0).address] ++
      if nd.contractDataType = .allow then [screen "Contract" (.contractType v.contractType)]
      else [])
  | .multiOutputTransfer => some ([
      text "Confirm" "Transaction",
      screen "Amount" (.amount v.amount.2),
      screen "Fee" (.amount v.totalFee)] ++
      (List.range g.tx.outputCount).map fun i =>
        ⟨.output (i + 1) g.tx.outputCount, .output (out i)⟩)
  | .selfTransfer => some [
      text "Confirm" "Self-Transfer",
      screen "Amount" (.amount v.amount.2),
      screen "Fee" (.amount v.totalFee),
      screen "Destination" (out 0).address]
  | .multiInputTransfer => some [
      text "Confirm" "Multi-Input Transaction",
      screen "Input" (.countOf v.inputCount),
      screen "Source" (.sighashAddress g.currentLockArg),
      screen "Amount" (.amountOf v.amount),
      screen "Fee" (.amount v.totalFee),
      screen "Destination" (out 0).address]
  | .daoDeposit => some [
      text "Confirm DAO" "Deposit",
      screen "Deposit Amount" (.amount v.daoAmount),
      screen "Fee" (.amount v.totalFee),
      screen "Cell Owner" (.sighashAddress g.daoCellOwner)]
  | .daoPrepare => some [
      text "Confirm DAO" "Prepare",
      screen "Deposit Amount" (.amount v.daoAmount),
      screen "Fee" (.amount v.totalFee),
      screen "Cell Owner" (.sighashAddress g.daoCellOwner)]
  | .daoWithdraw => some [
      text "Confirm DAO" "Withdrawal",
      screen "Deposit Amount" (.amount v.daoAmount),
      screen "Compensation" (.amount v.totalFee),
      screen "Cell Owner" (.sighashAddress g.daoCellOwner)]
  | .none | .notSet => none

/-- `sign_complete` -/
def signComplete (nd : NvramData) (instruction : UInt8) (g : SignState) : Except Exn Prompt :=
  match g.screens nd with
  | none => .error .rejected
  | some screens => do
    let screens ← uiPrompt nd screens
    let ok := if instruction = insSignWithHash then .signWithHashOk else .signWithoutHashOk
    return ⟨screens, ok, .signReject⟩

/-- What `handle_apdu` makes of the outcome of the parser. -/
def afterParse (g : SignState) (last secureOnly : Bool) (rv : Rv) : Except Exn SignState :=
  if last then
    if rv ≠ .complete ∨ g.maybe.hardReject then .error .parseError
    else if g.maybe.isUnsafe ∧ secureOnly then .error .security
    else
      let g := if g.maybe.isUnsafe then g.setTag .none else g
      .ok { g with maybe.isValid := true }
  else if rv ≠ .incomplete then .error .parseError
  else .ok g

/-- The path that `perform_signature` puts together. -/
def signPath (g : SignState) : Bip32Path :=
  ⟨g.keyLength, [0x8000002C, 0x80000135] ++ g.keyPathComponents⟩

end SignState

namespace ApduSignState

/-- The parser on one packet, and the callbacks it calls. -/
def parsePacket (s : ApduSignState) (env : Env) (nd : NvramData) (last secureOnly : Bool)
    (cdata : List UInt8) (io : Io) : Except (Exn × Io) (ApduSignState × Io) :=
  if s.g.maybe.hardReject then .error (.parseError, io)
  else
    let o := transactionReader.parse molNumMax s.transactionStack ⟨offsetCdata, cdata⟩
    match runCallbacks env nd o.evs (s.g, io) with
    | .error x => .error x
    | .ok (g, io) => match g.afterParse last secureOnly o.rv with
      | .error x => .error (x, io)
      | .ok g => .ok (⟨g, o.st⟩, io)

/-- What `handle_apdu` answers: with the last packet it puts up the prompt. -/
def answer (s : ApduSignState) (nd : NvramData) (instruction : UInt8) (last : Bool) (io : Io) :
    Except (Exn × Io) (Answer × ApduSignState × Io) :=
  if last ∧ s.g.maybe.isValid then
    match s.g.signComplete nd instruction with
    | .error x => .error (x, io)
    | .ok p => .ok (.prompt p, s, io)
  else .ok (.reply (finalizeSuccessfulSend .status []), s, io)

/-- `handle_apdu` -/
def handleApdu (s : ApduSignState) (env : Env) (nd : NvramData) (instruction p1 : UInt8)
    (cdata : List UInt8) (io : Io) : Except (Exn × Io) (Answer × ApduSignState × Io) :=
  let last : Bool := p1 &&& p1LastMarker ≠ 0
  let secureOnly : Bool := p1 &&& p1NoFallback ≠ 0
  if maxApduSize < cdata.length then .error (.wrongLengthForIns, io)
  else do
    let (s, io) ←
      if p1 &&& p1Mask = p1First then parsePacket {} env nd last secureOnly cdata io
      else if p1 &&& p1Mask = p1Next then s.parsePacket env nd last secureOnly cdata io
      else .ok (s, io)
    s.answer nd instruction last io

end ApduSignState

/-- `sign`: a signature in the compact form of 65 bytes, from one in DER. -/
def sign (env : Env) (privateKey : Bytes 32) (data : List UInt8) : Bytes 65 :=
  let (der, parityOdd, xGtN) := env.ecdsaSign privateKey data
  let sig := (Bytes.ofList 100 der).1
  let rSize := (sig.getD 3 0).toNat
  let rSizeSat := min rSize 32
  let r := (sig.drop (4 + if 32 < rSize then 1 else 0)).take rSizeSat
  let sSize := (sig.getD (3 + rSize + 2) 0).toNat
  let sSizeSat := min sSize 32
  let s := (sig.drop (4 + rSize + 2 + if 32 < sSize then 1 else 0)).take sSizeSat
  let info : UInt8 := (if parityOdd then 1 else 0) ||| (if xGtN then 2 else 0)
  (((Bytes.zero 65).write (32 - rSizeSat) r).write (64 - sSizeSat) s).write 64 [info]

/-- Sign with the key of a path. -/
def signWithPath (env : Env) (path : Bip32Path) (data : List UInt8) : Except Exn (Bytes 65) := do
  let (privateKey, _) ← env.derive path.used
  return sign env privateKey data

/-- `perform_signature`, on the hash. -/
def performSignature (env : Env) (sendHash : Bool) (g : SignState) : Except Exn Reply :=
  if g.tx.hashOnly then return finalizeSuccessfulSend .data g.tx.finalHash.1
  else do
    let signature ← signWithPath env g.signPath g.tx.finalHash.1
    return finalizeSuccessfulSend .signature
      ((if sendHash then g.tx.finalHash.1 else []) ++ signature.1)

end LedgerNervos
