import LedgerNervos.App.Machine
import LedgerNervos.Device.Reference

/-!
# Consent of the user

A reply with a signature or a public key is *sensitive*.  The handlers in the table never send one;
they put up a prompt, and the callback that the user's acceptance calls sends it.  The bound that
`main_loop` is given counts bytes and not entries, though, so instruction bytes from 10 to 39 read
behind the table, where the callbacks of the last prompt are found.
-/

namespace LedgerNervos

variable {U : Type}

/-- The reply carries a signature or a public key. -/
def Reply.Sensitive (r : Reply) : Prop := r.kind = .signature ∨ r.kind = .publicKey

instance (r : Reply) : Decidable r.Sensitive := by unfold Reply.Sensitive; infer_instance

/-- The instruction byte that `main_loop` dispatches, when a request passes its checks. -/
def dispatched : List UInt8 → Option UInt8
  | cla :: instruction :: _ :: _ :: lc :: cdata =>
    if cla = claNervos ∧ cdata.length = lc.toNat then some instruction else none
  | _ => none

/-- What lies behind the table of handlers. -/
def Handler.BehindTable (h : Handler) : Prop := h = .okCallback ∨ h = .cxlCallback ∨ h = .other

/-- The instruction byte selects an entry of the table, or the error handler. -/
def InTable (instruction : UInt8) : Prop :=
  instruction.toNat ≤ insMax ∨ handlersSize ≤ instruction.toNat

instance (i : UInt8) : Decidable (InTable i) := by unfold InTable; infer_instance

/-- Of the dispatched instruction bytes, those from 10 to 39 read behind the table. -/
theorem selectHandler_behindTable_iff (instruction : UInt8) :
    (selectHandler instruction).BehindTable ↔ ¬ InTable instruction := by
  unfold selectHandler handlers InTable Handler.BehindTable
  split_ifs <;> simp_all

/-- The instruction bytes that a handler is entered for in the table. -/
def Handler.instructions : Handler → List UInt8
  | .version => [insVersion]
  | .getWalletId => [insGetWalletId]
  | .getPublicKey => [insPromptPublicKey, insPromptExtPublicKey]
  | .accountImport => [insAccountImport]
  | .sign => [insSign]
  | .signMessage => [insSignMessage]
  | .signMessageHash => [insSignMessageHash]
  | .git => [insGit]
  | .error | .okCallback | .cxlCallback | .other => []

/-- A handler is only called for the instruction bytes that it is entered for. -/
theorem mem_instructions {instruction : UInt8} {h : Handler} (hs : selectHandler instruction = h)
    (hentered : h.instructions ≠ []) : instruction ∈ h.instructions := by
  have htable : ∀ n < 256, (selectHandler (UInt8.ofNat n)).instructions ≠ [] →
      UInt8.ofNat n ∈ (selectHandler (UInt8.ofNat n)).instructions := by
    decide +kernel
  subst hs
  rw [← UInt8.ofNat_toNat (x := instruction)] at hentered ⊢
  exact htable instruction.toNat instruction.toNat_lt hentered

/-! ### The handlers -/

/-- A handler has not sent anything sensitive. -/
def Answer.Guarded (a : Answer) : Prop :=
  match a with
  | .reply r => ¬ r.Sensitive
  | .prompt _ => True
  | .sent _ => False

theorem guarded_status (bs : List UInt8) :
    (Answer.reply (finalizeSuccessfulSend .status bs)).Guarded := by
  simp [Answer.Guarded, finalizeSuccessfulSend, Reply.Sensitive]

theorem guarded_data (bs : List UInt8) :
    (Answer.reply (finalizeSuccessfulSend .data bs)).Guarded := by
  simp [Answer.Guarded, finalizeSuccessfulSend, Reply.Sensitive]

variable {env : Env} {nd : NvramData} {instruction p1 : UInt8} {cdata : List UInt8} {a : Answer}

theorem PubkeyState.guarded_getPublicKey {s s' : PubkeyState}
    (h : s.handleApduGetPublicKey env nd instruction p1 cdata = .ok (a, s')) : a.Guarded := by
  unfold handleApduGetPublicKey at h
  split_ifs at h
  simp only [bind_eq_ok_iff, pure, Except.pure, Except.ok.injEq, Prod.mk.injEq] at h
  obtain ⟨_, -, _, -, _, -, rfl, -⟩ := h
  trivial

theorem PubkeyState.guarded_accountImport {s s' : PubkeyState}
    (h : s.handleApduAccountImport env nd p1 cdata = .ok (a, s')) : a.Guarded := by
  unfold handleApduAccountImport at h
  dsimp only at h
  split_ifs at h
  simp only [bind_eq_ok_iff, pure, Except.pure, Except.ok.injEq, Prod.mk.injEq] at h
  obtain ⟨_, -, _, -, rfl, -⟩ := h
  trivial

theorem ApduSignState.guarded_answer {s s' : ApduSignState} {last : Bool} {io io' : Io}
    (h : s.answer nd instruction last io = .ok (a, s', io')) : a.Guarded := by
  unfold answer at h
  split_ifs at h
  · split at h <;> cases h
    trivial
  · cases h
    exact guarded_status []

theorem ApduSignState.guarded_handleApdu {s s' : ApduSignState} {io io' : Io}
    (h : s.handleApdu env nd instruction p1 cdata io = .ok (a, s', io')) : a.Guarded := by
  unfold handleApdu at h
  dsimp only at h
  split_ifs at h
  all_goals
    rw [bind_eq_ok_iff] at h
    obtain ⟨r, -, h⟩ := h
    exact guarded_answer h

theorem MessageState.guarded_handleApdu {s s' : MessageState}
    (h : s.handleApdu env nd p1 cdata = .ok (a, s')) : a.Guarded := by
  unfold handleApdu at h
  split_ifs at h
  · simp only [bind_eq_ok_iff, pure, Except.pure, Except.ok.injEq, Prod.mk.injEq] at h
    obtain ⟨_, -, rfl, -⟩ := h
    exact guarded_status []
  · unfold nextPacket at h
    split_ifs at h <;> rw [bind_eq_ok_iff] at h <;> obtain ⟨_, -, h⟩ := h
    · simp only [complete, bind_eq_ok_iff, pure, Except.pure, Except.ok.injEq,
        Prod.mk.injEq] at h
      obtain ⟨_, -, rfl, -⟩ := h
      trivial
    · cases h
      exact guarded_status []

theorem MessageHashState.guarded_handleApdu {s s' : MessageHashState}
    (h : s.handleApdu nd p1 cdata = .ok (a, s')) : a.Guarded := by
  unfold handleApdu at h
  split_ifs at h
  all_goals simp only [bind_eq_ok_iff, pure, Except.pure, Except.ok.injEq, Prod.mk.injEq] at h
  · obtain ⟨_, -, rfl, -⟩ := h
    exact guarded_status []
  · obtain ⟨_, -, rfl, -⟩ := h
    trivial

namespace Machine

variable {L : Overlay U} {m : Machine U}

/-- A handler of the table does not send anything sensitive. -/
theorem guarded_runHandler (hi : InTable instruction) {u : U} {io : Io}
    (h : m.runHandler L env instruction p1 cdata = .ok (a, u, io)) : a.Guarded := by
  have hnot := (selectHandler_behindTable_iff instruction).not.2 (not_not.2 hi)
  unfold runHandler at h
  dsimp only at h
  split at h
  case h_1 => cases h
  case h_2 =>
    cases h
    exact guarded_data _
  case h_3 =>
    cases h
    exact guarded_data _
  case h_4 =>
    simp only [bind_eq_ok_iff, mapError_eq_ok_iff, handleApduGetWalletId, pure, Except.pure,
      Except.ok.injEq, Prod.mk.injEq] at h
    obtain ⟨_, ⟨_, -, rfl⟩, rfl, -⟩ := h
    exact guarded_data _
  case h_5 =>
    simp only [bind_eq_ok_iff, mapError_eq_ok_iff, pure, Except.pure, Except.ok.injEq,
      Prod.mk.injEq] at h
    obtain ⟨_, h, rfl, -⟩ := h
    exact PubkeyState.guarded_getPublicKey h
  case h_6 =>
    simp only [bind_eq_ok_iff, mapError_eq_ok_iff, pure, Except.pure, Except.ok.injEq,
      Prod.mk.injEq] at h
    obtain ⟨_, h, rfl, -⟩ := h
    exact PubkeyState.guarded_accountImport h
  case h_7 =>
    simp only [bind_eq_ok_iff, pure, Except.pure, Except.ok.injEq, Prod.mk.injEq] at h
    obtain ⟨_, h, rfl, -⟩ := h
    exact ApduSignState.guarded_handleApdu h
  case h_8 =>
    simp only [bind_eq_ok_iff, mapError_eq_ok_iff, pure, Except.pure, Except.ok.injEq,
      Prod.mk.injEq] at h
    obtain ⟨_, h, rfl, -⟩ := h
    exact MessageState.guarded_handleApdu h
  case h_9 =>
    split_ifs at h
    simp only [bind_eq_ok_iff, mapError_eq_ok_iff, pure, Except.pure, Except.ok.injEq,
      Prod.mk.injEq] at h
    obtain ⟨_, h, rfl, -⟩ := h
    exact MessageHashState.guarded_handleApdu h
  case h_10 hs => exact absurd (.inl hs) hnot
  case h_11 hs => exact absurd (.inr (.inl hs)) hnot
  case h_12 hs => exact absurd (.inr (.inr hs)) hnot

/-! ### Steps -/

/-- A request has led to nothing sensitive, and to a prompt only with its callbacks. -/
structure Guarded (m : Machine U) (r : Machine U × List Reply) : Prop where
  replies : ∀ reply ∈ r.2, ¬ reply.Sensitive
  prompt : r.1.prompt = m.prompt ∨ r.1.prompt.isSome = true

theorem guarded_fail (x : Exn) : Guarded m (m.fail L x) := by
  cases x with
  | code sw =>
    refine ⟨?_, .inl rfl⟩
    simp [fail, send, statusReply, Reply.Sensitive]
  | fault => exact ⟨by simp [fail], .inl rfl⟩

theorem guarded_callHandler (hi : InTable instruction) :
    Guarded m (m.callHandler L env instruction p1 cdata) := by
  unfold callHandler
  cases h : m.runHandler L env instruction p1 cdata with
  | error r =>
    obtain ⟨hr, hp⟩ := guarded_fail (L := L) (m := { m with io := r.2 }) r.1
    exact ⟨hr, hp⟩
  | ok r =>
    obtain ⟨a, u, io⟩ := r
    have ha := guarded_runHandler hi h
    cases a with
    | reply r =>
      have hr : ¬ r.Sensitive := ha
      exact ⟨by simpa [finish, send] using hr, .inl rfl⟩
    | prompt p => exact ⟨by simp [finish], .inr rfl⟩
    | sent r => cases ha

/-- A request whose instruction byte, if it is dispatched at all, is one of the table. -/
theorem guarded_onApdu {bytes : List UInt8}
    (hi : ∀ i, dispatched bytes = some i → InTable i) :
    Guarded m (m.onApdu L env bytes) := by
  have hfail (x : Exn) :
      Guarded m (({ m with io := m.io.write 0 bytes } : Machine U).fail L x) := by
    obtain ⟨hr, hp⟩ := guarded_fail (L := L) (m := { m with io := m.io.write 0 bytes }) x
    exact ⟨hr, hp⟩
  unfold onApdu
  dsimp only
  match bytes with
  | [] => exact hfail _
  | [_] | [_, _] | [_, _, _] | [_, _, _, _] =>
    dsimp only
    split_ifs <;> exact hfail _
  | cla :: instruction :: p1 :: p2 :: lc :: cdata =>
    dsimp only
    split_ifs with hcla hlen
    · exact hfail _
    · exact hfail _
    · have hin : InTable instruction :=
        hi instruction (by simp only [dispatched]; exact if_pos ⟨not_not.1 hcla, not_not.1 hlen⟩)
      have hcall (m : Machine U) : Guarded m (m.callHandler L env instruction p1 cdata) :=
        guarded_callHandler hin
      exact ⟨(hcall _).replies, (hcall _).prompt⟩

/-- The most recent request of a history put up this prompt, and no other one was on the screen
when it arrived. -/
def PromptedBy (L : Overlay U) (env : Env) (m₀ : Machine U) (es : List Event) : Prop :=
  ∃ before bytes after, es = before ++ .apdu bytes :: after ∧
    (∀ e ∈ after, ∀ b, e ≠ .apdu b) ∧
    (m₀.run L env before).prompt = none ∧
    (m₀.run L env (before ++ [.apdu bytes])).prompt = (m₀.run L env es).prompt ∧
    (m₀.run L env (before ++ [.apdu bytes])).okCallback = (m₀.run L env es).okCallback

theorem run_append (m : Machine U) (es es' : List Event) :
    m.run L env (es ++ es') = (m.run L env es).run L env es' := by
  simp [run]

/-- Between two requests, a prompt stays as it is or is taken down. -/
theorem step_of_not_apdu (m : Machine U) (L : Overlay U) (env : Env) {e : Event}
    (he : ∀ b, e ≠ .apdu b) :
    ((m.step L env e).1.prompt = m.prompt ∧ (m.step L env e).1.okCallback = m.okCallback) ∨
      (m.step L env e).1.prompt = none := by
  have hresponse (accepted : Bool) : (m.promptResponse L env accepted).1.prompt = none := by
    unfold promptResponse
    dsimp only
    split <;> rfl
  cases e with
  | apdu b => exact absurd rfl (he b)
  | accept | reject =>
    unfold step
    split_ifs
    · exact .inl ⟨rfl, rfl⟩
    · exact .inr (hresponse _)
    · exact .inl ⟨rfl, rfl⟩
  | switchNetwork | switchSignHash | switchContractData =>
    unfold step
    split_ifs <;> exact .inl ⟨rfl, rfl⟩

/-- When no request arrives while a prompt is on the screen, the prompt on the screen is that of
the most recent request. -/
theorem promptedBy_of_prompt {m₀ : Machine U} (h₀ : m₀.prompt = none) {es : List Event}
    (hquiet : ∀ before bytes after, es = before ++ .apdu bytes :: after →
      (m₀.run L env before).prompt = none)
    (hp : (m₀.run L env es).prompt.isSome = true) : PromptedBy L env m₀ es := by
  induction es using List.reverseRecOn with
  | nil =>
    change m₀.prompt.isSome = true at hp
    rw [h₀] at hp
    cases hp
  | append_singleton es e ih =>
    by_cases he : ∃ b, e = .apdu b
    · obtain ⟨b, rfl⟩ := he
      exact ⟨es, b, [], rfl, by simp, hquiet es b [] rfl, rfl, rfl⟩
    · have he' : ∀ b, e ≠ .apdu b := fun b hb => he ⟨b, hb⟩
      have hrun : m₀.run L env (es ++ [e]) = ((m₀.run L env es).step L env e).1 := by
        rw [run_append]; rfl
      rw [hrun] at hp
      rcases m₀.run L env es |>.step_of_not_apdu L env he' with ⟨hprompt, hok⟩ | hnone
      · rw [hprompt] at hp
        obtain ⟨before, bytes, after, rfl, hafter, hnone, hp', hok'⟩ :=
          ih (fun before bytes after h => hquiet before bytes (after ++ [e]) (by simp [h])) hp
        refine ⟨before, bytes, after ++ [e], by simp, ?_, hnone, ?_, ?_⟩
        · intro x hx b
          rcases List.mem_append.1 hx with hx | hx
          · exact hafter x hx b
          · exact List.mem_singleton.1 hx ▸ he' b
        · rw [hrun, hprompt, hp']
        · rw [hrun, hok, hok']
      · rw [hnone] at hp
        cases hp

/-- A signature or a public key is only sent when the user accepts a prompt. -/
theorem accept_of_sensitive {e : Event}
    (hin : ∀ bytes i, e = .apdu bytes → dispatched bytes = some i → InTable i) {r : Reply}
    (hr : r ∈ (m.step L env e).2) (hsens : r.Sensitive) :
    e = .accept ∧ m.prompt.isSome = true := by
  cases e with
  | apdu bytes =>
    unfold step at hr
    by_cases hexit : m.exited = true
    · rw [if_pos hexit] at hr
      cases hr
    · rw [if_neg hexit] at hr
      exact absurd hsens ((guarded_onApdu fun i hi => hin bytes i rfl hi).replies r hr)
  | accept =>
    unfold step at hr
    split_ifs at hr with hexit hp
    · cases hr
    · exact ⟨rfl, hp⟩
    · cases hr
  | reject =>
    unfold step at hr
    split_ifs at hr with hexit hp
    · cases hr
    · -- the reply to a rejection is a status word
      simp only [promptResponse, Bool.false_eq_true, if_false] at hr
      split at hr
      · cases hr
      · rename_i r' u hcxl
        simp only [send, List.mem_singleton] at hr
        subst hr
        unfold callCxl at hcxl
        split at hcxl <;> cases hcxl <;> simp [statusReply, Reply.Sensitive] at hsens
    · cases hr
  | switchNetwork | switchSignHash | switchContractData =>
    unfold step at hr
    split_ifs at hr <;> cases hr

end Machine

open Machine in
/-- **Consent.**  In every run in which every instruction byte that is dispatched selects an entry
of the table or the error handler, a signature or a public key is only sent when the user accepts
the prompt on the screen.  If, besides, no request arrives while a prompt is on the screen, this is
the prompt that the most recent request has put up. -/
theorem sensitive_reply_consented (L : Overlay U) (env : Env) (nd : NvramData)
    (es : List Event) (e : Event)
    (hin : ∀ bytes i, .apdu bytes ∈ es ++ [e] → dispatched bytes = some i → InTable i) :
    (∀ bytes i, .apdu bytes ∈ es ++ [e] → dispatched bytes = some i →
      ¬ (selectHandler i).BehindTable) ∧
    ∀ r ∈ (((start L nd).run L env es).step L env e).2, r.Sensitive →
      e = .accept ∧ ((start L nd).run L env es).prompt.isSome = true ∧
        ((∀ before bytes after, es = before ++ .apdu bytes :: after →
            ((start L nd).run L env before).prompt = none) →
          PromptedBy L env (start L nd) es) := by
  refine ⟨fun bytes i hb hd =>
    (selectHandler_behindTable_iff i).not.2 (not_not.2 (hin bytes i hb hd)), ?_⟩
  intro r hr hsens
  obtain ⟨haccept, hp⟩ :=
    accept_of_sensitive (fun bytes i he => hin bytes i (by simp [he])) hr hsens
  exact ⟨haccept, hp, fun hquiet => promptedBy_of_prompt rfl hquiet hp⟩

/-! ### The device of the examples -/

/-- Memory in which the keys of the requests for public keys and for message hashes, the first
fields of their structures, lie in the same place. -/
structure Memory where
  key : Bip32Path := .zero
  pubkey : PubkeyState := {}
  sign : ApduSignState := {}
  message : MessageState := {}
  messageHash : MessageHashState := {}

/-- The union in this memory. -/
def Overlay.memory : Overlay Memory where
  zero := {}
  getPubkey u := { u.pubkey with key := u.key }
  setPubkey s u := { u with key := s.key, pubkey := s }
  getSign u := u.sign
  setSign s u := { u with sign := s }
  getMessage u := u.message
  setMessage s u := { u with message := s }
  getMessageHash u := { u.messageHash with key := u.key }
  setMessageHash s u := { u with key := s.key, messageHash := s }
  getPubkey_zero := rfl
  getPubkey_set _ _ := rfl
  getSign_zero := rfl
  getSign_set _ _ := rfl
  getMessage_zero := rfl
  getMessage_set _ _ := rfl
  getMessageHash_zero := rfl
  getMessageHash_set _ _ := rfl

/-- The request `INS_PROMPT_PUBLIC_KEY` for a path of one component. -/
def requestPubkey (component : UInt8) : List UInt8 :=
  [claNervos, insPromptPublicKey, 0, 0, 5, 1, 0x80, 0, 0, component]

theorem sensitive_reply_consented_pubkey :
    ((Machine.start Overlay.memory {}).run Overlay.memory Env.reference
      [.apdu (requestPubkey 44)]).prompt.isSome = true := by
  have hreply : ∃ r ∈ (((Machine.start Overlay.memory {}).run Overlay.memory Env.reference
      [.apdu (requestPubkey 44)]).step Overlay.memory Env.reference .accept).2, r.Sensitive := by
    decide +kernel
  obtain ⟨r, hr, hsens⟩ := hreply
  exact ((sensitive_reply_consented Overlay.memory Env.reference {} [.apdu (requestPubkey 44)]
    .accept (by
      intro bytes i hb hd
      simp only [List.cons_append, List.nil_append, List.mem_cons, Event.apdu.injEq,
        reduceCtorEq, List.not_mem_nil, or_false] at hb
      subst hb
      cases hd
      decide)).2 r hr hsens).2.1

/-- After a public key has been given out, a request with instruction byte 10 gives it out again,
without any prompt. -/
theorem stale_callback_sends_key :
    ∃ r ∈ (((Machine.start Overlay.memory {}).run Overlay.memory Env.reference
        [.apdu (requestPubkey 44), .accept]).step Overlay.memory Env.reference
          (.apdu [claNervos, 0x0A, 0, 0, 0])).2,
      r.kind = .publicKey ∧ r.bytes = 65 :: basePoint.1 ++ [0x90, 0x00] := by
  decide +kernel

end LedgerNervos
