import LedgerNervos.App.Consent
import LedgerNervos.Sign.Buffer

/-!
# Isolation of signing sessions

Three instructions sign, each over several packets, and they share the memory of the union with
each other and with the requests for public keys.  `Owner` records what a run has done to that
memory: which instruction has written it last, and the packets it has processed since its first
one.  `lone` is what these packets lead to by themselves, on a device that sees nothing else.

Nothing in the code compares the instruction of a packet with the owner of the memory.  In runs in
which no packet goes on with a session in memory that another instruction has written
(`IsolatedStep`), what is on the screen and what would be signed is what the packets of the
session lead to by themselves.
-/

namespace LedgerNervos

variable {U : Type}

/-- The instructions that sign. -/
inductive Member where
  | sign
  | message
  | messageHash
deriving DecidableEq, Repr

/-- The member of the union that a handler works on, of those for signing. -/
def Handler.member : Handler → Option Member
  | .sign => some .sign
  | .signMessage => some .message
  | .signMessageHash => some .messageHash
  | _ => none

/-- The member that a callback signs from. -/
def OkCallback.member : OkCallback → Option Member
  | .signWithoutHashOk | .signWithHashOk => some .sign
  | .signMessageOk => some .message
  | .signMessageHashOk => some .messageHash
  | .null | .pubkeyOk | .extPubkeyOk | .accountImportOk => none

/-- A packet of a session, with the settings at the time it arrives. -/
structure Request where
  nd : NvramData
  instruction : UInt8
  p1 : UInt8
  cdata : List UInt8

/-- The packet starts a session. -/
def Request.First (r : Request) : Member → Prop
  | .sign => r.p1 &&& p1Mask = p1First
  | .message => r.p1 &&& 0x7F = p1First
  | .messageHash => r.p1 = p1First

instance (r : Request) (k : Member) : Decidable (r.First k) := by
  cases k <;> unfold Request.First <;> infer_instance

/-- The state of a session, by its instruction. -/
inductive MemberState where
  | sign (s : ApduSignState)
  | message (s : MessageState)
  | messageHash (s : MessageHashState)

namespace MemberState

/-- The state a session starts in. -/
def zero : Member → MemberState
  | .sign => .sign {}
  | .message => .message {}
  | .messageHash => .messageHash {}

/-- The state of a session in the union. -/
def get (L : Overlay U) (u : U) : Member → MemberState
  | .sign => .sign (L.getSign u)
  | .message => .message (L.getMessage u)
  | .messageHash => .messageHash (L.getMessageHash u)

/-- Write the state of a session into the union. -/
def set (L : Overlay U) (u : U) : MemberState → U
  | .sign s => L.setSign s u
  | .message s => L.setMessage s u
  | .messageHash s => L.setMessageHash s u

/-- The instruction. -/
def member : MemberState → Member
  | .sign _ => .sign
  | .message _ => .message
  | .messageHash _ => .messageHash

/-- The path of the key that signs. -/
def keyPath : MemberState → Bip32Path
  | .sign s => s.g.signPath
  | .message s => s.key
  | .messageHash s => s.key

/-- What is signed. -/
def digest : MemberState → List UInt8
  | .sign s => s.g.tx.finalHash.1
  | .message s => s.finalHash.1
  | .messageHash s => s.hash

/-- Process a packet. -/
def handle (env : Env) (r : Request) (io : Io) :
    MemberState → Except (Exn × Io) (Answer × MemberState × Io)
  | .sign s => (s.handleApdu env r.nd r.instruction r.p1 r.cdata io).map
      fun x => (x.1, .sign x.2.1, x.2.2)
  | .message s => ((s.handleApdu env r.nd r.p1 r.cdata).mapError fun x => (x, io)).map
      fun x => (x.1, .message x.2, io)
  | .messageHash s =>
    if r.nd.signHashType = .on then
      ((s.handleApdu r.nd r.p1 r.cdata).mapError fun x => (x, io)).map
        fun x => (x.1, .messageHash x.2, io)
    else .error (.rejected, io)

/-- The same state, up to what is looked up again before it is used. -/
def Alike : MemberState → MemberState → Prop
  | .sign s, .sign s' => s.Alike s'
  | .message s, .message s' => s' = s
  | .messageHash s, .messageHash s' => s' = s
  | _, _ => False

/-- Processing the packet looks up the reserved field of a multisig script behind its end. -/
def Stale (env : Env) (r : Request) (io : Io) : MemberState → Prop
  | .sign s => (r.First .sign ∧ ApduSignState.StaleParse env r.nd {} r.cdata io) ∨
      (r.p1 &&& p1Mask = p1Next ∧ ApduSignState.StaleParse env r.nd s r.cdata io)
  | _ => False

theorem Alike.keyPath {st st' : MemberState} (h : st.Alike st') : st'.keyPath = st.keyPath := by
  cases st <;> cases st' <;> simp only [Alike] at h
  · obtain ⟨⟨t, n, hg, -⟩, -⟩ := h
    simp only [MemberState.keyPath, hg]
    rfl
  · rw [h]
  · rw [h]

theorem Alike.digest {st st' : MemberState} (h : st.Alike st') : st'.digest = st.digest := by
  cases st <;> cases st' <;> simp only [Alike] at h
  · obtain ⟨⟨t, n, hg, -⟩, -⟩ := h
    simp only [MemberState.digest, hg]
    rfl
  · rw [h]
  · rw [h]

theorem Alike.zero (k : Member) : (zero k).Alike (zero k) := by
  cases k
  · exact ApduSignState.Alike.refl _
  · rfl
  · rfl

@[simp] theorem member_get (L : Overlay U) (u : U) (k : Member) : (get L u k).member = k := by
  cases k <;> rfl

@[simp] theorem get_set (L : Overlay U) (u : U) (st : MemberState) :
    get L (st.set L u) st.member = st := by
  cases st <;> simp [get, set, member, L.getSign_set, L.getMessage_set, L.getMessageHash_set]

theorem get_zero (L : Overlay U) (k : Member) : get L L.zero k = zero k := by
  cases k <;> simp [get, zero, L.getSign_zero, L.getMessage_zero, L.getMessageHash_zero]

variable {env : Env} {r : Request} {io io' : Io} {st st' : MemberState}

theorem first_message {s s' : MessageState} (hfirst : r.First .message) :
    s.handleApdu env r.nd r.p1 r.cdata = s'.handleApdu env r.nd r.p1 r.cdata := by
  have hp1 : r.p1 &&& 0x7F = p1First := hfirst
  unfold MessageState.handleApdu
  rw [if_pos hp1, if_pos hp1]

theorem first_messageHash {s s' : MessageHashState} (hfirst : r.First .messageHash) :
    s.handleApdu r.nd r.p1 r.cdata = s'.handleApdu r.nd r.p1 r.cdata := by
  have hp1 : r.p1 = p1First := hfirst
  unfold MessageHashState.handleApdu
  rw [if_pos hp1, if_pos hp1]

/-- A packet is answered alike in alike states, and when it is the first one, in any states. -/
theorem handle_alike (io' : Io) {k : Member} (hk : st.member = k) (hk' : st'.member = k)
    (h : r.First k ∨ st.Alike st') (hs : ¬ Stale env r io st) :
    Outcomes (fun x x' => x.1 = x'.1) (fun x x' => x'.1 = x.1 ∧ x.2.1.Alike x'.2.1)
      (st.handle env r io) (st'.handle env r io') := by
  subst hk
  cases st <;> cases st' <;> simp only [member, reduceCtorEq] at hk'
  case sign.sign s s' =>
    simp only [Stale, not_or, not_and] at hs
    have h' : r.p1 &&& p1Mask = p1First ∨ s.Alike s' := h
    have hsame := ApduSignState.handleApdu_sameAnswer r.instruction io' h' hs.1 hs.2
    exact hsame.map fun _ _ h => h
  case message.message s s' =>
    have heq : s'.handleApdu env r.nd r.p1 r.cdata = s.handleApdu env r.nd r.p1 r.cdata := by
      rcases h with h | h
      · exact first_message h
      · rw [show s' = s from h]
    simp only [handle, heq]
    cases s.handleApdu env r.nd r.p1 r.cdata with
    | error x => exact .error rfl
    | ok x => exact .ok ⟨rfl, rfl⟩
  case messageHash.messageHash s s' =>
    have heq : s'.handleApdu r.nd r.p1 r.cdata = s.handleApdu r.nd r.p1 r.cdata := by
      rcases h with h | h
      · exact first_messageHash h
      · rw [show s' = s from h]
    simp only [handle, heq]
    split_ifs
    · cases s.handleApdu r.nd r.p1 r.cdata with
      | error x => exact .error rfl
      | ok x => exact .ok ⟨rfl, rfl⟩
    · exact .error rfl

end MemberState

/-! ### Packets by themselves -/

/-- A packet on a device that sees nothing else: the answer, and the state. -/
def loneStep (env : Env) (s : Option Answer × MemberState) (r : Request) :
    Except Exn (Option Answer × MemberState) :=
  match s.2.handle env r (List.replicate Machine.ioSize 0) with
  | .error x => .error x.1
  | .ok x => .ok (some x.1, x.2.1)

/-- What packets of one instruction lead to by themselves: the last answer, and the state. -/
def lone (env : Env) (k : Member) (rs : List Request) : Except Exn (Option Answer × MemberState) :=
  rs.foldlM (loneStep env) (none, .zero k)

/-- What a user is asked to sign: the prompt, the path of the key and the digest. -/
structure Presented where
  prompt : Prompt
  keyPath : Bip32Path
  digest : List UInt8
deriving DecidableEq

/-- What the user is asked to sign after the packets of a session. -/
def lonePresented (env : Env) (k : Member) (rs : List Request) : Option Presented :=
  match lone env k rs with
  | .ok (some (.prompt p), st) => some ⟨p, st.keyPath, st.digest⟩
  | _ => none

/-- What the user is asked to sign: what is on the screen, and what the callback for the user's
acceptance finds in the union. -/
def Machine.presented (L : Overlay U) (m : Machine U) : Option (Member × Presented) :=
  match m.prompt, m.okCallback.member with
  | some screens, some k =>
    some (k, ⟨⟨screens, m.okCallback, m.cxlCallback⟩, (MemberState.get L m.union k).keyPath,
      (MemberState.get L m.union k).digest⟩)
  | _, _ => none

/-! ### Who has written the union -/

/-- What the union holds. -/
inductive Owner where
  /-- Nothing: it has been cleared. -/
  | cleared
  /-- A session of this instruction, which has processed these packets. -/
  | session (k : Member) (rs : List Request)
  /-- What a request for a public key has left. -/
  | other

namespace Owner

/-- The packets of the session that a packet goes on with. -/
def packets (k : Member) (r : Request) : Owner → List Request
  | .session k' rs => if r.First k ∨ k' ≠ k then [] else rs
  | .cleared | .other => []

/-- After the call of a callback that signs, its member of the union is cleared. -/
def afterOk (o : Owner) : OkCallback → Owner
  | .signWithoutHashOk | .signWithHashOk => .cleared
  | .signMessageOk => .session .message []
  | .signMessageHashOk => .session .messageHash []
  | .null | .pubkeyOk | .extPubkeyOk | .accountImportOk => o

def afterCxl (o : Owner) : CxlCallback → Owner
  | .signReject => .cleared
  | .null | .delayReject => o

/-- After a handler has processed a packet. -/
def afterHandler (o : Owner) (m : Machine U) (r : Request) : Handler → Owner
  | .sign => .session .sign (o.packets .sign r ++ [r])
  | .signMessage => .session .message (o.packets .message r ++ [r])
  | .signMessageHash => .session .messageHash (o.packets .messageHash r ++ [r])
  | .getPublicKey | .accountImport => .other
  | .okCallback => o.afterOk m.okCallback
  | .cxlCallback => o.afterCxl m.cxlCallback
  | .error | .version | .getWalletId | .git | .other => o

/-- The packet of a request that passes the checks of `main_loop`. -/
def request (nd : NvramData) : List UInt8 → Option Request
  | cla :: instruction :: p1 :: _ :: lc :: cdata =>
    if cla = claNervos ∧ cdata.length = lc.toNat then some ⟨nd, instruction, p1, cdata⟩ else none
  | _ => none

/-- After a request. -/
def afterApdu (L : Overlay U) (env : Env) (m : Machine U) (o : Owner) (bytes : List UInt8) :
    Owner :=
  match request m.nvram bytes with
  | none => .cleared
  | some r =>
    match ({ m with io := m.io.write 0 bytes } : Machine U).runHandler L env r.instruction r.p1
      r.cdata with
    | .error (.code _, _) => .cleared
    | .error (.fault, _) => o
    | .ok _ => o.afterHandler m r (selectHandler r.instruction)

/-- After an event. -/
def next (L : Overlay U) (env : Env) (m : Machine U) (o : Owner) (e : Event) : Owner :=
  if m.exited then o else match e with
  | .apdu bytes => o.afterApdu L env m bytes
  | .accept => if m.prompt.isSome then o.afterOk m.okCallback else o
  | .reject => if m.prompt.isSome then o.afterCxl m.cxlCallback else o
  | .switchNetwork | .switchSignHash | .switchContractData => o

end Owner

/-- A machine and what its union holds, after some events. -/
def track (L : Overlay U) (env : Env) (m : Machine U) (o : Owner) (es : List Event) :
    Machine U × Owner :=
  es.foldl (fun s e => ((s.1.step L env e).1, s.2.next L env s.1 e)) (m, o)

/-- What the session in the union asks the user to sign, by itself. -/
def Owner.presented (env : Env) : Owner → Option (Member × Presented)
  | .session k rs => (lonePresented env k rs).map fun p => (k, p)
  | .cleared | .other => none

/-- No request arrives while a prompt is on the screen, and a packet for signing finds in the
union, unless it starts a session, its own session or nothing; nor does it end where the reserved
field of a multisig script is looked up behind its end. -/
structure IsolatedStep (L : Overlay U) (env : Env) (m : Machine U) (o : Owner) (e : Event) :
    Prop where
  quiet : ∀ bytes, e = .apdu bytes → m.prompt = none
  own : ∀ bytes r k, e = .apdu bytes → Owner.request m.nvram bytes = some r →
    (selectHandler r.instruction).member = some k →
    r.First k ∨ o = .cleared ∨ ∃ rs, o = .session k rs
  fresh : ∀ bytes r k, e = .apdu bytes → Owner.request m.nvram bytes = some r →
    (selectHandler r.instruction).member = some k →
    ¬ MemberState.Stale env r (m.io.write 0 bytes) (MemberState.get L m.union k)

/-! ### The handlers -/

/-- A handler answers with a prompt only for its own callback; a prompt for a signature clears
the union when it is rejected. -/
def Answer.For (k : Option Member) : Answer → Prop
  | .reply _ => True
  | .prompt p => p.ok.member = k ∧ (k.isSome = true → p.cxl = .signReject)
  | .sent _ => False

section

variable {env : Env} {nd : NvramData} {instruction p1 : UInt8} {cdata : List UInt8} {a : Answer}

theorem PubkeyState.for_getPublicKey {s s' : PubkeyState}
    (h : s.handleApduGetPublicKey env nd instruction p1 cdata = .ok (a, s')) : a.For none := by
  unfold handleApduGetPublicKey at h
  split_ifs at h
  simp only [bind_eq_ok_iff, pure, Except.pure, Except.ok.injEq, Prod.mk.injEq] at h
  obtain ⟨_, -, _, -, p, hp, rfl, -⟩ := h
  unfold prompt at hp
  split_ifs at hp <;> simp only [bind_eq_ok_iff, pure, Except.pure, Except.ok.injEq] at hp <;>
    obtain ⟨_, -, rfl⟩ := hp <;> exact ⟨rfl, by simp⟩

theorem PubkeyState.for_accountImport {s s' : PubkeyState}
    (h : s.handleApduAccountImport env nd p1 cdata = .ok (a, s')) : a.For none := by
  unfold handleApduAccountImport at h
  dsimp only at h
  split_ifs at h
  simp only [bind_eq_ok_iff, pure, Except.pure, Except.ok.injEq, Prod.mk.injEq] at h
  obtain ⟨_, -, _, -, rfl, -⟩ := h
  exact ⟨rfl, by simp⟩

theorem SignState.for_signComplete {g : SignState} {p : Prompt}
    (h : g.signComplete nd instruction = .ok p) : (Answer.prompt p).For (some .sign) := by
  unfold signComplete at h
  split at h
  · cases h
  · simp only [bind_eq_ok_iff, pure, Except.pure, Except.ok.injEq] at h
    obtain ⟨_, -, rfl⟩ := h
    refine ⟨?_, fun _ => rfl⟩
    dsimp only
    split_ifs <;> rfl

theorem ApduSignState.for_handleApdu {s s' : ApduSignState} {io io' : Io}
    (h : s.handleApdu env nd instruction p1 cdata io = .ok (a, s', io')) :
    a.For (some .sign) := by
  have hanswer {s s' : ApduSignState} {last : Bool} {io io' : Io}
      (h : s.answer nd instruction last io = .ok (a, s', io')) : a.For (some .sign) := by
    unfold answer at h
    split_ifs at h
    · split at h
      · cases h
      · rename_i p hp
        cases h
        exact SignState.for_signComplete hp
    · cases h
      trivial
  unfold handleApdu at h
  dsimp only at h
  split_ifs at h
  all_goals
    rw [bind_eq_ok_iff] at h
    obtain ⟨r, -, h⟩ := h
    exact hanswer h

theorem MessageState.for_handleApdu {s s' : MessageState}
    (h : s.handleApdu env nd p1 cdata = .ok (a, s')) : a.For (some .message) := by
  unfold handleApdu at h
  split_ifs at h
  · simp only [bind_eq_ok_iff, pure, Except.pure, Except.ok.injEq, Prod.mk.injEq] at h
    obtain ⟨_, -, rfl, -⟩ := h
    trivial
  · unfold nextPacket at h
    split_ifs at h <;> rw [bind_eq_ok_iff] at h <;> obtain ⟨_, -, h⟩ := h
    · simp only [complete, bind_eq_ok_iff, pure, Except.pure, Except.ok.injEq,
        Prod.mk.injEq] at h
      obtain ⟨_, -, rfl, -⟩ := h
      exact ⟨rfl, fun _ => rfl⟩
    · cases h
      trivial

theorem MessageHashState.for_handleApdu {s s' : MessageHashState}
    (h : s.handleApdu nd p1 cdata = .ok (a, s')) : a.For (some .messageHash) := by
  unfold handleApdu at h
  split_ifs at h
  all_goals simp only [bind_eq_ok_iff, pure, Except.pure, Except.ok.injEq, Prod.mk.injEq] at h
  · obtain ⟨_, -, rfl, -⟩ := h
    trivial
  · obtain ⟨_, -, rfl, -⟩ := h
    exact ⟨rfl, fun _ => rfl⟩

end

namespace MemberState

variable {env : Env} {r : Request} {io io' : Io} {st st' : MemberState} {a : Answer}

/-- A packet leads to a state of the same instruction, and to a prompt only for its callback. -/
theorem handle_ok (h : st.handle env r io = .ok (a, st', io')) :
    st'.member = st.member ∧ a.For (some st.member) := by
  cases st with
  | sign s =>
    simp only [handle, map_eq_ok_iff, Prod.mk.injEq] at h
    obtain ⟨x, hx, rfl, rfl, rfl⟩ := h
    exact ⟨rfl, ApduSignState.for_handleApdu hx⟩
  | message s =>
    simp only [handle, map_eq_ok_iff, mapError_eq_ok_iff, Prod.mk.injEq] at h
    obtain ⟨x, hx, rfl, rfl, rfl⟩ := h
    exact ⟨rfl, MessageState.for_handleApdu hx⟩
  | messageHash s =>
    unfold handle at h
    split_ifs at h
    simp only [map_eq_ok_iff, mapError_eq_ok_iff, Prod.mk.injEq] at h
    obtain ⟨x, hx, rfl, rfl, rfl⟩ := h
    exact ⟨rfl, MessageHashState.for_handleApdu hx⟩

end MemberState

variable {L : Overlay U} {env : Env} {m : Machine U} {o : Owner} {k : Member} {r : Request}
  {rs : List Request}

theorem lone_snoc (env : Env) (k : Member) (rs : List Request) (r : Request) :
    lone env k (rs ++ [r]) = lone env k rs >>= fun s => loneStep env s r := by
  simp [lone]

/-- The packets lead to a state of their instruction, and to its prompts. -/
theorem lone_ok {a : Option Answer} {st : MemberState} (h : lone env k rs = .ok (a, st)) :
    st.member = k ∧ ∀ x, a = some x → x.For (some k) := by
  induction rs using List.reverseRecOn generalizing a st with
  | nil =>
    cases h
    exact ⟨by cases k <;> rfl, fun x hx => by cases hx⟩
  | append_singleton rs r ih =>
    rw [lone_snoc, bind_eq_ok_iff] at h
    obtain ⟨s, hl, h⟩ := h
    unfold loneStep at h
    split at h
    · cases h
    · rename_i x hx
      cases h
      obtain ⟨hmember, hfor⟩ := MemberState.handle_ok hx
      obtain ⟨hk, -⟩ := ih hl
      rw [hk] at hmember hfor
      exact ⟨hmember, fun y hy => by cases hy; exact hfor⟩

/-- Rejecting a prompt for a signature clears the union. -/
theorem cxl_lonePresented {p : Presented} (h : lonePresented env k rs = some p) :
    p.prompt.cxl = .signReject := by
  unfold lonePresented at h
  split at h
  · rename_i q st hl
    cases h
    exact ((lone_ok hl).2 _ rfl).2 rfl
  · cases h

/-- The handler of an instruction that signs works on its member of the union. -/
theorem Machine.runHandler_member (hk : (selectHandler r.instruction).member = some k)
    (hnd : r.nd = m.nvram) :
    m.runHandler L env r.instruction r.p1 r.cdata =
      ((MemberState.get L m.union k).handle env r m.io).map
        fun x => (x.1, x.2.1.set L m.union, x.2.2) := by
  unfold runHandler
  cases hsel : selectHandler r.instruction <;> rw [hsel] at hk <;>
    simp only [Handler.member, reduceCtorEq, Option.some.injEq] at hk <;> subst hk <;>
    simp only [MemberState.get, MemberState.handle, hnd]
  case sign =>
    cases (L.getSign m.union).handleApdu env m.nvram r.instruction r.p1 r.cdata m.io <;> rfl
  case signMessage =>
    cases (L.getMessage m.union).handleApdu env m.nvram r.p1 r.cdata <;> rfl
  case signMessageHash =>
    split_ifs
    · cases (L.getMessageHash m.union).handleApdu m.nvram r.p1 r.cdata <;> rfl
    · rfl

/-! ### The invariant -/

/-- What is known of the union from its owner. -/
def Owner.Held (L : Overlay U) (env : Env) (u : U) : Owner → Prop
  | .cleared => ∀ k, MemberState.get L u k = .zero k
  | .session k rs => ∃ a st, lone env k rs = .ok (a, st) ∧ (MemberState.get L u k).Alike st
  | .other => True

/-- The owner is the true one, and the screen shows what its packets lead to by themselves. -/
structure Tracks (L : Overlay U) (env : Env) (m : Machine U) (o : Owner) : Prop where
  held : m.exited = false → o.Held L env m.union
  screen : m.presented L = o.presented env

theorem Machine.presented_of_prompt_none (h : m.prompt = none) : m.presented L = none := by
  simp [presented, h]

theorem Machine.presented_of_member_none (h : m.okCallback.member = none) :
    m.presented L = none := by
  unfold presented
  rw [h]
  cases m.prompt <;> rfl

theorem held_cleared : Owner.cleared.Held L env L.zero := fun k => MemberState.get_zero L k

/-- The packets that a packet goes on with have led to what its member of the union holds. -/
theorem Owner.Held.packets (h : o.Held L env m.union)
    (hown : r.First k ∨ o = .cleared ∨ ∃ rs, o = .session k rs) :
    ∃ a st, lone env k (o.packets k r) = .ok (a, st) ∧
      (r.First k ∨ (MemberState.get L m.union k).Alike st) := by
  by_cases hfirst : r.First k
  · have hnil : o.packets k r = [] := by
      cases o <;> simp [Owner.packets, hfirst]
    rw [hnil]
    exact ⟨none, .zero k, rfl, .inl hfirst⟩
  rcases hown.resolve_left hfirst with rfl | ⟨rs, rfl⟩
  · refine ⟨none, .zero k, rfl, .inr ?_⟩
    rw [h k]
    exact .zero k
  · obtain ⟨a, st, hl, hst⟩ := h
    refine ⟨a, st, ?_, .inr hst⟩
    simpa [Owner.packets, hfirst] using hl

/-- A packet for signing is answered like by itself. -/
theorem Owner.Held.handle (h : o.Held L env m.union)
    (hown : r.First k ∨ o = .cleared ∨ ∃ rs, o = .session k rs) {io : Io}
    (hs : ¬ MemberState.Stale env r io (MemberState.get L m.union k)) {a : Answer}
    {st : MemberState} {io' : Io}
    (hok : (MemberState.get L m.union k).handle env r io = .ok (a, st, io')) :
    ∃ st', lone env k (o.packets k r ++ [r]) = .ok (some a, st') ∧ st.Alike st' := by
  obtain ⟨a₀, st₀, hl, hst⟩ := h.packets hown
  have hsame := MemberState.handle_alike (List.replicate Machine.ioSize 0)
    (MemberState.member_get L m.union k) (lone_ok hl).1 hst hs
  rw [hok] at hsame
  obtain ⟨x, hx, ha, hx'⟩ := hsame.of_ok
  refine ⟨x.2.1, ?_, hx'⟩
  rw [lone_snoc, hl]
  change loneStep env (a₀, st₀) r = _
  simp only [loneStep, hx, ha]

/-! ### Steps -/

namespace Machine

/-- A request that does not pass the checks of `main_loop` is refused with a status word. -/
theorem onApdu_of_request_none (L : Overlay U) (env : Env) {bytes : List UInt8}
    (h : Owner.request m.nvram bytes = none) :
    ∃ sw, m.onApdu L env bytes =
      ({ m with io := m.io.write 0 bytes } : Machine U).fail L (.code sw) := by
  unfold onApdu
  dsimp only
  match bytes with
  | [] => exact ⟨_, rfl⟩
  | [_] | [_, _] | [_, _, _] | [_, _, _, _] =>
    dsimp only
    split_ifs <;> exact ⟨_, rfl⟩
  | cla :: instruction :: p1 :: p2 :: lc :: cdata =>
    dsimp only
    split_ifs with hcla hlen
    · exact ⟨_, rfl⟩
    · exact ⟨_, rfl⟩
    · simp [Owner.request, not_not.1 hcla, not_not.1 hlen] at h

/-- A request that passes the checks of `main_loop` is dispatched. -/
theorem onApdu_of_request (L : Overlay U) (env : Env) {bytes : List UInt8}
    (h : Owner.request m.nvram bytes = some r) :
    r.nd = m.nvram ∧ m.onApdu L env bytes =
      ({ m with io := m.io.write 0 bytes } : Machine U).callHandler L env r.instruction r.p1
        r.cdata := by
  unfold Owner.request at h
  split at h
  · split_ifs at h with hok
    cases h
    refine ⟨rfl, ?_⟩
    unfold onApdu
    dsimp only
    rw [if_neg (not_not.2 hok.1), if_neg (not_not.2 hok.2)]
  · cases h

end Machine

/-- An answer that does not ask for a signature leaves the screen without one. -/
theorem tracks_finish_other {a : Answer} {m : Machine U} (hprompt : m.prompt = none)
    (ha : a.For none ∨ ∃ r, a = .sent r) (ho : o.presented env = none)
    (hheld : o.Held L env m.union) : Tracks L env (m.finish a).1 o := by
  cases a with
  | reply r => exact ⟨fun _ => hheld, by rw [ho]; exact Machine.presented_of_prompt_none hprompt⟩
  | sent r => exact ⟨fun _ => hheld, by rw [ho]; exact Machine.presented_of_prompt_none hprompt⟩
  | prompt p =>
    obtain ha | ⟨r, hr⟩ := ha
    · exact ⟨fun _ => hheld, by rw [ho]; exact Machine.presented_of_member_none ha.1⟩
    · cases hr

/-- After a callback for the user's acceptance. -/
theorem held_afterOk {m : Machine U} {rep : Reply} {u : U} (h : o.Held L env m.union)
    (hok : m.callOk L env = .ok (rep, u)) : (o.afterOk m.okCallback).Held L env u := by
  unfold Machine.callOk at hok
  have hmessage : (Owner.session .message []).Held L env (L.setMessage {} m.union) := by
    refine ⟨none, _, rfl, ?_⟩
    simp only [MemberState.get, L.getMessage_set]
    exact .zero .message
  have hhash : (Owner.session .messageHash []).Held L env (L.setMessageHash {} m.union) := by
    refine ⟨none, _, rfl, ?_⟩
    simp only [MemberState.get, L.getMessageHash_set]
    exact .zero .messageHash
  cases hcb : m.okCallback <;> rw [hcb] at hok <;>
    simp only [reduceCtorEq, bind_eq_ok_iff, pure, Except.pure, Except.ok.injEq,
      Prod.mk.injEq] at hok
  case signWithoutHashOk | signWithHashOk =>
    obtain ⟨_, -, -, rfl⟩ := hok
    exact held_cleared
  case signMessageOk =>
    obtain ⟨_, -, -, rfl⟩ := hok
    exact hmessage
  case signMessageHashOk =>
    obtain ⟨_, -, -, rfl⟩ := hok
    exact hhash
  case pubkeyOk | extPubkeyOk | accountImportOk =>
    obtain ⟨-, rfl⟩ := hok
    exact h

theorem held_afterCxl {m : Machine U} {rep : Reply} {u : U} (h : o.Held L env m.union)
    (hok : m.callCxl L = .ok (rep, u)) : (o.afterCxl m.cxlCallback).Held L env u := by
  unfold Machine.callCxl at hok
  cases hcb : m.cxlCallback <;> rw [hcb] at hok <;> cases hok
  · exact held_cleared
  · exact h

/-- Where nothing is asked to be signed, no callback leads to it. -/
theorem presented_afterOk (h : o.presented env = none) (cb : OkCallback) :
    (o.afterOk cb).presented env = none := by
  cases cb <;> first | rfl | exact h

theorem presented_afterCxl (h : o.presented env = none) (cb : CxlCallback) :
    (o.afterCxl cb).presented env = none := by
  cases cb <;> first | rfl | exact h

/-- A packet for signing: the session goes on, and what it asks the user to sign is what its
packets lead to by themselves. -/
theorem tracks_member {m₁ : Machine U} (hprompt : m₁.prompt = none) (hnd : r.nd = m₁.nvram)
    (hheld : o.Held L env m₁.union) (hk : (selectHandler r.instruction).member = some k)
    (hown : r.First k ∨ o = .cleared ∨ ∃ rs, o = .session k rs)
    (hs : ¬ MemberState.Stale env r m₁.io (MemberState.get L m₁.union k)) {a : Answer} {u : U}
    {io : Io} (hok : m₁.runHandler L env r.instruction r.p1 r.cdata = .ok (a, u, io)) :
    Tracks L env (({ m₁ with union := u, io := io } : Machine U).finish a).1
      (.session k (o.packets k r ++ [r])) := by
  rw [Machine.runHandler_member hk hnd, map_eq_ok_iff] at hok
  obtain ⟨⟨a, st, io'⟩, hok, heq⟩ := hok
  simp only [Prod.mk.injEq] at heq
  obtain ⟨rfl, rfl, rfl⟩ := heq
  obtain ⟨st', hlone, halike⟩ := hheld.handle hown hs hok
  obtain ⟨hmember, hfor⟩ := MemberState.handle_ok hok
  rw [MemberState.member_get] at hmember hfor
  have hget : MemberState.get L (st.set L m₁.union) k = st := by
    rw [← hmember]
    exact MemberState.get_set L _ st
  have hheld' : (Owner.session k (o.packets k r ++ [r])).Held L env (st.set L m₁.union) :=
    ⟨_, st', hlone, by rw [hget]; exact halike⟩
  cases a with
  | sent rep => exact absurd hfor id
  | reply rep =>
    refine ⟨fun _ => hheld', ?_⟩
    simp only [Owner.presented, lonePresented, hlone, Option.map_none]
    exact Machine.presented_of_prompt_none hprompt
  | prompt p =>
    refine ⟨fun _ => hheld', ?_⟩
    simp only [Owner.presented, lonePresented, hlone, Option.map_some, Machine.presented,
      Machine.finish, hfor.1, hget, halike.keyPath, halike.digest]

/-- What a handler of the table or a callback behind it leads to. -/
theorem tracks_handler (m₁ : Machine U) (hprompt : m₁.prompt = none) (hnd : r.nd = m₁.nvram)
    (hheld : o.Held L env m₁.union) (hscreen : o.presented env = none)
    (hown : ∀ k, (selectHandler r.instruction).member = some k →
      r.First k ∨ o = .cleared ∨ ∃ rs, o = .session k rs)
    (hs : ∀ k, (selectHandler r.instruction).member = some k →
      ¬ MemberState.Stale env r m₁.io (MemberState.get L m₁.union k)) {a : Answer} {u : U}
    {io : Io} (hok : m₁.runHandler L env r.instruction r.p1 r.cdata = .ok (a, u, io)) :
    Tracks L env (({ m₁ with union := u, io := io } : Machine U).finish a).1
      (o.afterHandler m₁ r (selectHandler r.instruction)) := by
  cases hmember : (selectHandler r.instruction).member with
  | some k =>
    have htracks := tracks_member hprompt hnd hheld hmember (hown k hmember) (hs k hmember) hok
    cases hsel : selectHandler r.instruction <;> rw [hsel] at hmember <;> cases hmember <;>
      exact htracks
  | none =>
    unfold Machine.runHandler at hok
    cases hsel : selectHandler r.instruction <;> rw [hsel] at hok hmember <;>
      simp only [Handler.member, reduceCtorEq, bind_eq_ok_iff, mapError_eq_ok_iff, pure,
        Except.pure, Except.ok.injEq, Prod.mk.injEq, Prod.exists] at hok hmember
    case version | git =>
      obtain ⟨rfl, rfl, rfl⟩ := hok
      exact tracks_finish_other hprompt (.inl trivial) hscreen hheld
    case getWalletId =>
      obtain ⟨_, -, rfl, rfl, rfl⟩ := hok
      exact tracks_finish_other hprompt (.inl trivial) hscreen hheld
    case getPublicKey =>
      obtain ⟨_, _, h, rfl, rfl, rfl⟩ := hok
      exact tracks_finish_other hprompt (.inl (PubkeyState.for_getPublicKey h)) rfl trivial
    case accountImport =>
      obtain ⟨_, _, h, rfl, rfl, rfl⟩ := hok
      exact tracks_finish_other hprompt (.inl (PubkeyState.for_accountImport h)) rfl trivial
    case okCallback =>
      obtain ⟨_, _, h, rfl, rfl, rfl⟩ := hok
      exact tracks_finish_other hprompt (.inr ⟨_, rfl⟩) (presented_afterOk hscreen _)
        (held_afterOk hheld h)
    case cxlCallback =>
      obtain ⟨_, _, h, rfl, rfl, rfl⟩ := hok
      exact tracks_finish_other hprompt (.inr ⟨_, rfl⟩) (presented_afterCxl hscreen _)
        (held_afterCxl hheld h)

/-- A request that is isolated. -/
theorem Tracks.apdu (h : Tracks L env m o) (hexit : m.exited = false) {bytes : List UInt8}
    (hstep : IsolatedStep L env m o (.apdu bytes)) :
    Tracks L env (m.onApdu L env bytes).1 (o.afterApdu L env m bytes) := by
  have hquiet := hstep.quiet bytes rfl
  have hnone : o.presented env = none := by
    rw [← h.screen]
    exact Machine.presented_of_prompt_none hquiet
  have hcleared (m : Machine U) (sw : UInt16) (hm : m.prompt = none) :
      Tracks L env (m.fail L (.code sw)).1 .cleared :=
    ⟨fun _ => held_cleared, Machine.presented_of_prompt_none hm⟩
  unfold Owner.afterApdu
  cases hreq : Owner.request m.nvram bytes with
  | none =>
    obtain ⟨sw, hsw⟩ := Machine.onApdu_of_request_none L env hreq
    rw [hsw]
    exact hcleared _ sw hquiet
  | some r =>
    obtain ⟨hnd, hcall⟩ := Machine.onApdu_of_request L env hreq
    rw [hcall]
    unfold Machine.callHandler
    dsimp only
    cases hrun : ({ m with io := m.io.write 0 bytes } : Machine U).runHandler L env r.instruction
      r.p1 r.cdata with
    | ok x =>
      exact tracks_handler { m with io := m.io.write 0 bytes } hquiet hnd
        (h.held hexit) hnone (fun k => hstep.own bytes r k rfl hreq)
        (fun k => hstep.fresh bytes r k rfl hreq) hrun
    | error x =>
      obtain ⟨x, io⟩ := x
      cases x with
      | code sw => exact hcleared _ sw hquiet
      | fault =>
        exact ⟨fun hfalse => absurd hfalse (by simp [Machine.fail]), by
          rw [hnone]; exact Machine.presented_of_prompt_none hquiet⟩

/-- While the user is asked for a signature, rejecting it clears the union. -/
theorem Tracks.cxlCallback_eq (h : Tracks L env m o) {p : Member × Presented}
    (ho : o.presented env = some p) : m.cxlCallback = .signReject := by
  have hscreen := h.screen.trans ho
  cases o with
  | cleared => cases ho
  | other => cases ho
  | session k rs =>
    simp only [Owner.presented, Option.map_eq_some_iff] at ho
    obtain ⟨q, hq, rfl⟩ := ho
    have hcxl := cxl_lonePresented hq
    unfold Machine.presented at hscreen
    split at hscreen
    · simp only [Option.some.injEq, Prod.mk.injEq] at hscreen
      rw [← hscreen.2] at hcxl
      exact hcxl
    · cases hscreen

/-- **Step.**  A step that is isolated keeps track of the owner. -/
theorem Tracks.step (h : Tracks L env m o) {e : Event} (hstep : IsolatedStep L env m o e) :
    Tracks L env (m.step L env e).1 (o.next L env m e) := by
  unfold Machine.step Owner.next
  cases hexit : m.exited with
  | true => exact h
  | false =>
    have hheld := h.held hexit
    have hmenu {m' : Machine U} (hunion : m'.union = m.union) (hp : m'.prompt = m.prompt)
        (hok : m'.okCallback = m.okCallback) (hcxl : m'.cxlCallback = m.cxlCallback) :
        Tracks L env m' o := by
      refine ⟨fun _ => by rw [hunion]; exact hheld, ?_⟩
      rw [← h.screen]
      simp only [Machine.presented, hunion, hp, hok, hcxl]
    cases e with
    | apdu bytes => exact h.apdu hexit hstep
    | switchNetwork | switchSignHash | switchContractData =>
      simp only [Bool.false_eq_true, if_false]
      split_ifs
      · exact h
      · exact hmenu rfl rfl rfl rfl
    | accept =>
      simp only [Bool.false_eq_true, if_false]
      split_ifs with hp
      · have hafter : (o.afterOk m.okCallback).presented env = none := by
          cases hcb : m.okCallback.member with
          | none =>
            refine presented_afterOk ?_ _
            rw [← h.screen]
            exact Machine.presented_of_member_none hcb
          | some k => cases hok : m.okCallback <;> rw [hok] at hcb <;> cases hcb <;> rfl
        unfold Machine.promptResponse
        dsimp only
        rw [if_pos rfl]
        split
        · exact ⟨fun hfalse => absurd hfalse (by simp), by rw [hafter]; rfl⟩
        · rename_i rep u hok
          exact ⟨fun _ => held_afterOk hheld hok, by rw [hafter]; rfl⟩
      · exact h
    | reject =>
      simp only [Bool.false_eq_true, if_false]
      split_ifs with hp
      · have hafter : (o.afterCxl m.cxlCallback).presented env = none := by
          cases ho : o.presented env with
          | none => exact presented_afterCxl ho _
          | some p => rw [h.cxlCallback_eq ho]; rfl
        unfold Machine.promptResponse
        dsimp only
        rw [if_neg (by simp)]
        split
        · exact ⟨fun hfalse => absurd hfalse (by simp), by rw [hafter]; rfl⟩
        · rename_i rep u hok
          exact ⟨fun _ => held_afterCxl hheld hok, by rw [hafter]; rfl⟩
      · exact h

/-! ### Runs -/

theorem track_append (es es' : List Event) :
    track L env m o (es ++ es') =
      track L env (track L env m o es).1 (track L env m o es).2 es' := by
  simp [track]

theorem track_fst (es : List Event) : (track L env m o es).1 = m.run L env es := by
  induction es using List.reverseRecOn with
  | nil => rfl
  | append_singleton es e ih =>
    rw [track_append, Machine.run_append, ← ih]
    rfl

/-- What the union holds after a run from the start of the application. -/
def ownerAfter (L : Overlay U) (env : Env) (nd : NvramData) (es : List Event) : Owner :=
  (track L env (Machine.start L nd) .cleared es).2

/-- Every step of the run is isolated. -/
def IsolatedRun (L : Overlay U) (env : Env) (nd : NvramData) (es : List Event) : Prop :=
  ∀ before e after, es = before ++ e :: after →
    IsolatedStep L env ((Machine.start L nd).run L env before) (ownerAfter L env nd before) e

/-- **Run.**  The owner is the true one after every run of isolated steps. -/
theorem tracks_of_isolatedRun {nd : NvramData} {es : List Event} (h : IsolatedRun L env nd es) :
    Tracks L env ((Machine.start L nd).run L env es) (ownerAfter L env nd es) := by
  induction es using List.reverseRecOn with
  | nil => exact ⟨fun _ => held_cleared, rfl⟩
  | append_singleton es e ih =>
    have hbefore : IsolatedRun L env nd es := fun before e' after hes =>
      h before e' (after ++ [e]) (by rw [hes]; simp)
    have hstep := (ih hbefore).step (h es e [] rfl)
    rw [Machine.run_append, ownerAfter, track_append, track_fst]
    exact hstep

/-- **Session isolation.**  In every run of isolated steps, what the user is asked to sign, that is
the prompt, the path of the key and the digest, is at any time what the packets of the session in
the union lead to by themselves. -/
theorem sessions_isolated (L : Overlay U) (env : Env) (nd : NvramData) (es : List Event)
    (h : IsolatedRun L env nd es) :
    ((Machine.start L nd).run L env es).presented L = (ownerAfter L env nd es).presented env :=
  (tracks_of_isolatedRun h).screen

/-- The request `INS_SIGN_MESSAGE_HASH` that starts a session, for a path of one component. -/
def startMessageHash (component : UInt8) : List UInt8 :=
  [claNervos, insSignMessageHash, p1First, 0, 5, 1, 0x80, 0, 0, component]

/-- The request `INS_SIGN_MESSAGE_HASH` with a hash of 32 bytes. -/
def finishMessageHash (b : UInt8) : List UInt8 :=
  [claNervos, insSignMessageHash, p1LastMarker, 0, 32] ++ List.replicate 32 b

/-- The settings with which hashes are signed. -/
def hashesAllowed : NvramData := { signHashType := .on }

theorem IsolatedRun.snoc {nd : NvramData} {es : List Event} {e : Event}
    (h : IsolatedRun L env nd es)
    (he : IsolatedStep L env ((Machine.start L nd).run L env es) (ownerAfter L env nd es) e) :
    IsolatedRun L env nd (es ++ [e]) := by
  intro before e' after hes
  rcases List.eq_nil_or_concat after with rfl | ⟨after, x, rfl⟩
  · obtain ⟨rfl, hlast⟩ := List.append_inj' hes rfl
    cases hlast
    exact he
  · rw [List.concat_eq_append, ← List.cons_append, ← List.append_assoc] at hes
    obtain ⟨hes, -⟩ := List.append_inj' hes rfl
    exact h before e' after hes

theorem sessions_isolated_messageHash :
    ((Machine.start Overlay.memory hashesAllowed).run Overlay.memory Env.reference
        [.apdu (startMessageHash 44), .apdu (finishMessageHash 7)]).presented Overlay.memory =
      (ownerAfter Overlay.memory Env.reference hashesAllowed
        [.apdu (startMessageHash 44), .apdu (finishMessageHash 7)]).presented Env.reference := by
  have hrequest (m : Machine Memory) (o : Owner) (bytes : List UInt8) (r : Request)
      (hr : Owner.request m.nvram bytes = some r)
      (hins : (selectHandler r.instruction).member = some .messageHash) (hp : m.prompt = none)
      (ho : r.First .messageHash ∨ o = .cleared ∨ ∃ rs, o = .session .messageHash rs) :
      IsolatedStep Overlay.memory Env.reference m o (.apdu bytes) := by
    refine ⟨fun _ _ => hp, fun bytes' r' k hb hr' hk => ?_, fun bytes' r' k hb hr' hk => ?_⟩ <;>
      cases hb <;> cases hr.symm.trans hr' <;> cases hins.symm.trans hk
    · exact ho
    · exact id
  have hnil : IsolatedRun Overlay.memory Env.reference hashesAllowed [] := by
    intro before e after h
    simp at h
  have hfirst := hnil.snoc (hrequest _ _ (startMessageHash 44)
    ⟨hashesAllowed, insSignMessageHash, p1First, [1, 0x80, 0, 0, 44]⟩ rfl rfl rfl (.inl rfl))
  exact sessions_isolated Overlay.memory Env.reference hashesAllowed _
    (hfirst.snoc (hrequest _ _ (finishMessageHash 7)
      ⟨hashesAllowed, insSignMessageHash, p1LastMarker, List.replicate 32 7⟩ rfl rfl rfl
        (.inr (.inr ⟨_, rfl⟩))))

/-- A public key that is asked for, and refused by the user, in the midst of a session: the hash
is then signed with the key whose public key was refused. -/
theorem refused_key_signs :
    let shown (es : List Event) := (((Machine.start Overlay.memory hashesAllowed).run
      Overlay.memory Env.reference es).presented Overlay.memory).map
        fun p => (p.1, p.2.keyPath.used, p.2.digest)
    shown [.apdu (startMessageHash 44), .apdu (finishMessageHash 7)] =
        some (.messageHash, [0x8000002C], List.replicate 32 7) ∧
      shown [.apdu (startMessageHash 44), .apdu (requestPubkey 45), .reject,
          .apdu (finishMessageHash 7)] =
        some (.messageHash, [0x8000002D], List.replicate 32 7) := by
  decide +kernel

end LedgerNervos
