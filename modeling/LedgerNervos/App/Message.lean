import LedgerNervos.Sign.Handle

/-!
# Signing messages and message hashes

The handlers of `INS_SIGN_MESSAGE` and `INS_SIGN_MESSAGE_HASH`, each as a function on its own
member of the state union.
-/

namespace LedgerNervos

/-- A big-endian number. -/
def beNat (bs : List UInt8) : ℕ := leNat bs.reverse

/-- `read_bip32_path`: the components that the path does not have are left as they were. -/
def readBip32Path (out : Bip32Path) (bs : List UInt8) : Except Exn Bip32Path :=
  match bs with
  | [] => .error .wrongLengthForIns
  | length :: rest =>
    if rest.length < length.toNat * 4 then .error .wrongLengthForIns
    else if length = 0 ∨ maxBip32Path < length.toNat then .error .wrongValues
    else
      let component (i : ℕ) : UInt32 := UInt32.ofNat (beNat ((rest.drop (4 * i)).take 4))
      .ok ⟨length, (List.range length.toNat).map component ++ out.components.drop length.toNat⟩

/-! ### Messages -/

/-- `apdu_sign_message_state_t` -/
structure MessageState where
  key : Bip32Path := .zero
  hashState : HashState := {}
  packetIndex : UInt8 := 0
  displayAsHex : Bool := false
  display : Bytes 64 := .zero 64
  /-- The size of `display_as_buffer`, which points to `display`. -/
  displaySize : ℕ := 0
  finalHash : Bytes 32 := .zero 32
deriving DecidableEq

/-- `nervos_magic` -/
def nervosMagic : List UInt8 :=
  [0x4e, 0x65, 0x72, 0x76, 0x6f, 0x73, 0x20, 0x4d, 0x65, 0x73, 0x73, 0x61, 0x67, 0x65, 0x3a]

/-- `check_magic_bytes` -/
def checkMagicBytes (message : List UInt8) : Bool := message.take nervosMagic.length = nervosMagic

/-- Number of bytes that follow a byte in its UTF-8 sequence, by its first bits. -/
def sequenceRest (b : UInt8) : ℕ :=
  if b &&& 240 = 240 then 3
  else if b &&& 224 = 224 then 2
  else if b &&& 192 = 192 then 1
  else 0

/-- The loop of `replace_undisplayable`, with a bound on the number of rounds: the bytes written,
and the size that is left of `size`. -/
def replaceLoop : ℕ → List UInt8 → UInt8 → List UInt8 × UInt8
  | 0, _, size => ([], size)
  | _, [], size => ([], size)
  | fuel + 1, b :: bs, size =>
    if 126 < b ∨ b < 32 then
      let (out, size) := replaceLoop fuel (bs.drop (sequenceRest b))
        (size - UInt8.ofNat (sequenceRest b))
      (42 :: out, size)
    else
      let (out, size) := replaceLoop fuel bs size
      (b :: out, size)

/-- `replace_undisplayable`, on a buffer of which the first `size` bytes are in use. -/
def replaceUndisplayable (buff : List UInt8) (size : UInt8) : List UInt8 × UInt8 :=
  let (out, size') := replaceLoop size.toNat (buff.take size.toNat) size
  (out ++ List.replicate (size.toNat - out.length) 0 ++ buff.drop size.toNat, size')

/-- `slice_magic_bytes`: the message moves to the front, the last bytes stay where they are. -/
def sliceMagicBytes (buff : List UInt8) (size : UInt8) : List UInt8 × UInt8 :=
  let n := size.toNat - nervosMagic.length
  ((buff.drop nervosMagic.length).take n ++ buff.drop n, UInt8.ofNat n)

/-- `handle_long_message`.  Behind the end of the buffer the marks of a long message would be
written over other memory. -/
def handleLongMessage (buff : List UInt8) (size : UInt8) : Except Exn (List UInt8 × UInt8) :=
  if 64 < size then
    if buff.length < 64 then .error .fault
    else .ok (buff.take 61 ++ [46, 46, 46] ++ buff.drop 64, 64)
  else .ok (buff, size)

/-- What is shown of a message: the beginning of its first packet, without the magic. -/
def messageDisplay (displayAsHex : Bool) (buff : List UInt8) : Except Exn (List UInt8) := do
  let (tmp, size) := sliceMagicBytes buff (UInt8.ofNat buff.length)
  let (tmp, size) := if !displayAsHex then replaceUndisplayable tmp size else (tmp, size)
  let (tmp, size) ← handleLongMessage tmp size
  return tmp.take size.toNat

namespace MessageState

/-- The first packet with text has to start with the magic; its beginning is what is shown. -/
def showFirst (s : MessageState) (buff : List UInt8) : Except Exn MessageState :=
  if s.packetIndex = 1 then
    if !checkMagicBytes buff then .error .parseError
    else do
      let shown ← messageDisplay s.displayAsHex buff
      return { s with display := s.display.write 0 shown, displaySize := shown.length }
  else .ok s

/-- After the last packet the prompt is put up. -/
def complete (s : MessageState) (env : Env) (nd : NvramData) :
    Except Exn (Answer × MessageState) := do
  let s := { s with
    finalHash := (s.hashState.finishHash env).1
    hashState := (s.hashState.finishHash env).2 }
  let shown := s.display.1.take s.displaySize
  let screens ← uiPrompt nd [⟨.text "Sign", .text "Message"⟩,
    ⟨.text "Message: ", if s.displayAsHex then .hex shown else .buffer shown⟩]
  return (.prompt ⟨screens, .signMessageOk, .signReject⟩, s)

/-- A packet of a message. -/
def nextPacket (s : MessageState) (env : Env) (nd : NvramData) (last : Bool)
    (buff : List UInt8) : Except Exn (Answer × MessageState) :=
  if 0xFF ≤ s.packetIndex then .error .parseError
  else do
    let s ← { s with packetIndex := s.packetIndex + 1 }.showFirst buff
    let s := { s with hashState := s.hashState.incrementalHash buff }
    if last then s.complete env nd
    else return (.reply (finalizeSuccessfulSend .status []), s)

/-- `handle_apdu_sign_message_impl` -/
def handleApdu (s : MessageState) (env : Env) (nd : NvramData) (p1 : UInt8)
    (buff : List UInt8) : Except Exn (Answer × MessageState) :=
  if maxApduSize < buff.length then .error .wrongLengthForIns
  else if p1 &&& 0x7F = p1First then
    if buff.length ≤ 1 then .error .rejected
    else do
      let key ← readBip32Path .zero (buff.drop 1)
      return (.reply (finalizeSuccessfulSend .status []),
        { key := key, displayAsHex := buff.headD 0 ≠ 0 })
  else if p1 &&& 0x7F = p1Next then s.nextPacket env nd (p1 &&& p1LastMarker ≠ 0) buff
  else .error .wrongParam

/-- `perform_message_signature` -/
def performSignature (env : Env) (s : MessageState) : Except Exn Reply := do
  let signature ← signWithPath env s.key s.finalHash.1
  return finalizeSuccessfulSend .signature signature.1

end MessageState

/-! ### Message hashes -/

/-- `apdu_sign_message_hash_state_t`; `display_as_buffer` points to `hash_to_sign`. -/
structure MessageHashState where
  key : Bip32Path := .zero
  hashToSign : Bytes 64 := .zero 64
  hashToSignSize : UInt8 := 0
deriving DecidableEq

namespace MessageHashState

/-- The bytes in use. -/
def hash (s : MessageHashState) : List UInt8 := s.hashToSign.1.take s.hashToSignSize.toNat

/-- `handle_apdu_sign_message_hash_impl` -/
def handleApdu (s : MessageHashState) (nd : NvramData) (p1 : UInt8) (buff : List UInt8) :
    Except Exn (Answer × MessageHashState) :=
  if maxApduSize < buff.length then .error .wrongLengthForIns
  else if p1 = p1First then do
    let key ← readBip32Path .zero buff
    return (.reply (finalizeSuccessfulSend .status []), { key := key })
  else if p1 = p1LastMarker then
    if 32 < buff.length then .error .parseError
    else do
      let s := { s with
        hashToSign := s.hashToSign.write 0 buff
        hashToSignSize := UInt8.ofNat buff.length }
      let screens ← uiPrompt nd [⟨.text "Sign", .text "Message Hash"⟩,
        ⟨.text "Message Hash: ", .hex s.hash⟩]
      return (.prompt ⟨screens, .signMessageHashOk, .signReject⟩, s)
  else .error .wrongParam

/-- `perform_message_hash_signature` -/
def performSignature (env : Env) (s : MessageHashState) : Except Exn Reply := do
  let signature ← signWithPath env s.key s.hash
  return finalizeSuccessfulSend .signature signature.1

end MessageHashState

end LedgerNervos
