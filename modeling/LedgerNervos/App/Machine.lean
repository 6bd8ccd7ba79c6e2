import LedgerNervos.App.Pubkey

/-!
# The main loop

A `Machine` is the state of the running application: the union that holds the state of all
instructions, the callbacks of the user interface and the prompt on the screen, the settings and
the receive buffer.  `Machine.step` lets it take one event: a request from the host, the answer of
the user to a prompt, or the change of a setting in the menu.

The members of the union lie in the same memory.  What is read from one member after another has
been written depends on the layout of the structures; an `Overlay` only knows that a member reads
back what was written to it, and that cleared memory reads as zeros.
-/

namespace LedgerNervos

/-- The members of the state union, as views of the same memory. -/
structure Overlay (U : Type) where
  zero : U
  getPubkey : U → PubkeyState
  setPubkey : PubkeyState → U → U
  getSign : U → ApduSignState
  setSign : ApduSignState → U → U
  getMessage : U → MessageState
  setMessage : MessageState → U → U
  getMessageHash : U → MessageHashState
  setMessageHash : MessageHashState → U → U
  getPubkey_zero : getPubkey zero = {}
  getPubkey_set : ∀ s u, getPubkey (setPubkey s u) = s
  getSign_zero : getSign zero = {}
  getSign_set : ∀ s u, getSign (setSign s u) = s
  getMessage_zero : getMessage zero = {}
  getMessage_set : ∀ s u, getMessage (setMessage s u) = s
  getMessageHash_zero : getMessageHash zero = {}
  getMessageHash_set : ∀ s u, getMessageHash (setMessageHash s u) = s

/-- The application between two events. -/
structure Machine (U : Type) where
  /-- `global.apdu.u` -/
  union : U
  okCallback : OkCallback := .null
  cxlCallback : CxlCallback := .null
  /-- The prompt on the screen; without one, the screen shows the menu. -/
  prompt : Option (List Screen) := none
  nvram : NvramData := {}
  io : Io
  /-- The application has ended. -/
  exited : Bool := false

/-- What can happen. -/
inductive Event where
  | apdu (bytes : List UInt8)
  | accept
  | reject
  | switchNetwork
  | switchSignHash
  | switchContractData
deriving DecidableEq, Repr

/-- The entries of the table of handlers, and what follows it in memory. -/
inductive Handler where
  | error
  | version
  | getWalletId
  | getPublicKey
  | accountImport
  | sign
  | signMessage
  | signMessageHash
  | git
  /-- `ui.ok_callback`, which lies behind the table. -/
  | okCallback
  /-- `ui.cxl_callback` -/
  | cxlCallback
  /-- Other memory. -/
  | other
deriving DecidableEq, Repr

def claNervos : UInt8 := 0x80

def insVersion : UInt8 := 0x00
def insGetWalletId : UInt8 := 0x01
def insPromptPublicKey : UInt8 := 0x02
def insSign : UInt8 := 0x03
def insAccountImport : UInt8 := 0x05
def insSignMessage : UInt8 := 0x06
def insSignMessageHash : UInt8 := 0x07
def insGit : UInt8 := 0x09

/-- `INS_MAX` -/
def insMax : ℕ := 0x09

/-- `sizeof(apdu_handler)` -/
def sizeofHandler : ℕ := 4

/-- The bound that `app_main` gives to `main_loop`: `sizeof(global.handlers)`. -/
def handlersSize : ℕ := (insMax + 1) * sizeofHandler

/-- `global.handlers`, as filled in by `app_main`, and the memory behind it. -/
def handlers (instruction : UInt8) : Handler :=
  if instruction.toNat ≤ insMax then
    if instruction = insVersion then .version
    else if instruction = insGetWalletId then .getWalletId
    else if instruction = insPromptPublicKey then .getPublicKey
    else if instruction = insPromptExtPublicKey then .getPublicKey
    else if instruction = insAccountImport then .accountImport
    else if instruction = insSignMessage then .signMessage
    else if instruction = insSignMessageHash then .signMessageHash
    else if instruction = insSign then .sign
    else if instruction = insGit then .git
    else .error
  else if instruction.toNat = insMax + 1 then .okCallback
  else if instruction.toNat = insMax + 2 then .cxlCallback
  else .other

/-- The handler that `main_loop` calls. -/
def selectHandler (instruction : UInt8) : Handler :=
  if handlersSize ≤ instruction.toNat then .error else handlers instruction

/-- The version in the `Makefile`. -/
def version : List UInt8 := [0, 5, 5]

/-- `handle_apdu_get_wallet_id` -/
def handleApduGetWalletId (env : Env) : Except Exn Reply := do
  let (_, extPublicKey) ← env.derive [0x8000002C, 0x80000135]
  return finalizeSuccessfulSend .data (env.blake2b512 extPublicKey.publicKey.1).1

/-- The reply to an error: its status word. -/
def statusReply (sw : UInt16) : Reply :=
  let sw := if (0x6000 ≤ sw ∧ sw ≤ 0x6FFF) ∨ (0x9000 ≤ sw ∧ sw ≤ 0xAFFF) then sw
    else 0x6800 ||| (sw &&& 0x7FF)
  ⟨.status, [(sw >>> 8).toUInt8, sw.toUInt8]⟩

namespace Machine

variable {U : Type} (L : Overlay U) (env : Env)

/-- Send a reply: it is put into the buffer. -/
def send (m : Machine U) (r : Reply) : Machine U × List Reply :=
  ({ m with io := m.io.write 0 r.bytes }, [r])

/-- An error caught by `main_loop`: the state of all instructions is cleared. -/
def fail (m : Machine U) : Exn → Machine U × List Reply
  | .code sw => { m with union := L.zero }.send (statusReply sw)
  | .fault => ({ m with exited := true }, [])

/-- A handler has come to its end.  When `true` is taken for a length, one more byte is sent. -/
def finish (m : Machine U) : Answer → Machine U × List Reply
  | .reply r => m.send r
  | .prompt p =>
    ({ m with okCallback := p.ok, cxlCallback := p.cxl, prompt := some p.screens }, [])
  | .sent r =>
    let (m, rs) := m.send r
    (m, rs ++ [⟨.status, m.io.take 1⟩])

/-- Call `ok_callback`: the reply, and the union after it. -/
def callOk (m : Machine U) : Except Exn (Reply × U) :=
  match m.okCallback with
  | .null => .error .fault
  | .signWithoutHashOk => do
    let r ← performSignature env false (L.getSign m.union).g
    return (r, L.zero)
  | .signWithHashOk => do
    let r ← performSignature env true (L.getSign m.union).g
    return (r, L.zero)
  | .signMessageOk => do
    let r ← (L.getMessage m.union).performSignature env
    return (r, L.setMessage {} m.union)
  | .signMessageHashOk => do
    let r ← (L.getMessageHash m.union).performSignature env
    return (r, L.setMessageHash {} m.union)
  | .pubkeyOk => .ok (providePubkey (L.getPubkey m.union).extPublicKey.publicKey, m.union)
  | .extPubkeyOk => .ok (provideExtPubkey (L.getPubkey m.union).extPublicKey, m.union)
  | .accountImportOk => .ok (provideExtPubkey (L.getPubkey m.union).extPublicKey, m.union)

/-- Call `cxl_callback`.  Clearing the state of a transaction clears the whole union, of which it
is the largest member. -/
def callCxl (m : Machine U) : Except Exn (Reply × U) :=
  match m.cxlCallback with
  | .null => .error .fault
  | .signReject => .ok (statusReply 0x6985, L.zero)
  | .delayReject => .ok (statusReply 0x6985, m.union)

/-- Call a handler on a request: how it ends, and the union and the buffer after it. -/
def runHandler (m : Machine U) (instruction p1 : UInt8) (cdata : List UInt8) :
    Except (Exn × Io) (Answer × U × Io) :=
  let here {α : Type} (x : Except Exn α) : Except (Exn × Io) α := x.mapError fun x => (x, m.io)
  match selectHandler instruction with
  | .error => .error (.invalidIns, m.io)
  | .version => .ok (.reply (finalizeSuccessfulSend .data version), m.union, m.io)
  | .git => .ok (.reply (finalizeSuccessfulSend .data (env.commit ++ [0])), m.union, m.io)
  | .getWalletId => do
    let r ← here (handleApduGetWalletId env)
    return (.reply r, m.union, m.io)
  | .getPublicKey => do
    let (a, s) ← here
      ((L.getPubkey m.union).handleApduGetPublicKey env m.nvram instruction p1 cdata)
    return (a, L.setPubkey s m.union, m.io)
  | .accountImport => do
    let (a, s) ← here ((L.getPubkey m.union).handleApduAccountImport env m.nvram p1 cdata)
    return (a, L.setPubkey s m.union, m.io)
  | .sign => do
    let (a, s, io) ← (L.getSign m.union).handleApdu env m.nvram instruction p1 cdata m.io
    return (a, L.setSign s m.union, io)
  | .signMessage => do
    let (a, s) ← here ((L.getMessage m.union).handleApdu env m.nvram p1 cdata)
    return (a, L.setMessage s m.union, m.io)
  | .signMessageHash =>
    if m.nvram.signHashType = .on then do
      let (a, s) ← here ((L.getMessageHash m.union).handleApdu m.nvram p1 cdata)
      return (a, L.setMessageHash s m.union, m.io)
    else .error (.rejected, m.io)
  | .okCallback => do
    let (r, u) ← here (m.callOk L env)
    return (.sent r, u, m.io)
  | .cxlCallback => do
    let (r, u) ← here (m.callCxl L)
    return (.sent r, u, m.io)
  | .other => .error (.fault, m.io)

/-- Call a handler on a request. -/
def callHandler (m : Machine U) (instruction p1 : UInt8) (cdata : List UInt8) :
    Machine U × List Reply :=
  match m.runHandler L env instruction p1 cdata with
  | .error (x, io) => { m with io := io }.fail L x
  | .ok (a, u, io) => { m with union := u, io := io }.finish a

/-- A request from the host. -/
def onApdu (m : Machine U) (bytes : List UInt8) : Machine U × List Reply :=
  let m := { m with io := m.io.write 0 bytes }
  match bytes with
  | [] => m.fail L .security
  | cla :: rest =>
    if cla ≠ claNervos then m.fail L .cla
    else match rest with
      | instruction :: p1 :: _ :: lc :: cdata =>
        if cdata.length ≠ lc.toNat then m.fail L .wrongLength
        else m.callHandler L env instruction p1 cdata
      | _ => m.fail L .wrongLength

/-- `prompt_response`.  The callback runs outside of the part of `main_loop` that catches errors,
so an error ends the application. -/
def promptResponse (m : Machine U) (accepted : Bool) : Machine U × List Reply :=
  let m := { m with prompt := none }
  match if accepted then m.callOk L env else m.callCxl L with
  | .error _ => ({ m with exited := true }, [])
  | .ok (r, u) => { m with union := u }.send r

/-- One event.  The answers to a prompt are there while one is on the screen, the menu with the
settings while none is. -/
def step (m : Machine U) (e : Event) : Machine U × List Reply :=
  if m.exited then (m, [])
  else match e with
    | .apdu bytes => m.onApdu L env bytes
    | .accept => if m.prompt.isSome then m.promptResponse L env true else (m, [])
    | .reject => if m.prompt.isSome then m.promptResponse L env false else (m, [])
    | .switchNetwork => if m.prompt.isSome then (m, []) else
      ({ m with nvram.addressType := match m.nvram.addressType with
        | .mainnet => .testnet
        | .testnet => .mainnet }, [])
    | .switchSignHash => if m.prompt.isSome then (m, []) else
      ({ m with nvram.signHashType := match m.nvram.signHashType with
        | .off => .on
        | .on => .off }, [])
    | .switchContractData => if m.prompt.isSome then (m, []) else
      ({ m with nvram.contractDataType := match m.nvram.contractDataType with
        | .disallow => .allow
        | .allow => .disallow }, [])

/-- The machine after some events. -/
def run (m : Machine U) (es : List Event) : Machine U :=
  es.foldl (fun m e => (m.step L env e).1) m

/-- The size of the receive buffer. -/
def ioSize : ℕ := 260

/-- The application as it starts. -/
def start (nd : NvramData) : Machine U :=
  { union := L.zero, nvram := nd, io := List.replicate ioSize 0 }

end Machine

end LedgerNervos
