import LedgerNervos.App.Prompts

/-!
# Signing a message hash

A hash is signed as it comes, so all of it has to be on the screen.  The prompt shows the payload of
the most recent request in hexadecimal, whole, and the signature is for this payload
(`hash_signed_is_shown`).  The key is that of the path in the packet before, if nothing else has
been processed in between.
-/

namespace LedgerNervos

variable {U : Type}

namespace MessageHashState

variable {nd : NvramData} {p1 : UInt8} {buff : List UInt8} {s s' : MessageHashState}

/-- What the packet with the hash has led to. -/
theorem handleApdu_prompt {p : Prompt} (h : s.handleApdu nd p1 buff = .ok (.prompt p, s')) :
    p1 = p1LastMarker ∧ buff.length ≤ 32 ∧ s'.key = s.key ∧ s'.hash = buff ∧
      p = ⟨[⟨.text "Sign", .text "Message Hash"⟩, ⟨.text "Message Hash: ", .hex buff⟩],
        .signMessageHashOk, .signReject⟩ := by
  unfold handleApdu at h
  split_ifs at h with hlong hfirst hlast hshort
  · simp only [bind_eq_ok_iff, pure, Except.pure, Except.ok.injEq, Prod.mk.injEq, reduceCtorEq,
      false_and, and_false, exists_false] at h
  · simp only [bind_eq_ok_iff, pure, Except.pure, Except.ok.injEq, Prod.mk.injEq,
      Answer.prompt.injEq] at h
    obtain ⟨screens, hscreens, rfl, rfl⟩ := h
    rw [Nat.not_lt] at hshort
    have hhash : hash { s with
        hashToSign := s.hashToSign.write 0 buff
        hashToSignSize := UInt8.ofNat buff.length } = buff := by
      have hsize : (UInt8.ofNat buff.length).toNat = buff.length := by
        rw [UInt8.toNat_ofNat']
        omega
      have hfits : min buff.length 64 = buff.length := Nat.min_eq_left (by omega)
      rw [hash, hsize, Bytes.write]
      dsimp only
      rw [List.take_zero, List.nil_append, List.take_take, hfits, List.take_left]
    rw [hhash] at hscreens
    refine ⟨hlast, hshort, rfl, hhash, ?_⟩
    rw [uiPrompt_ok hscreens]

/-- The packet with the path. -/
theorem handleApdu_first (nd : NvramData) {path : Bip32Path} (hlength : buff.length ≤ maxApduSize)
    (h : readBip32Path .zero buff = .ok path) (s : MessageHashState) :
    s.handleApdu nd p1First buff =
      .ok (.reply (finalizeSuccessfulSend .status []), { key := path }) := by
  unfold handleApdu
  rw [if_neg (Nat.not_lt.2 hlength), if_pos rfl, h]
  rfl

end MessageHashState

namespace Machine

variable {L : Overlay U} {env : Env} {m : Machine U}

/-- In the menu, the user does not change the state of the instructions. -/
theorem union_step_of_prompt_none (L : Overlay U) (env : Env) (hnone : m.prompt = none) {e : Event}
    (he : ∀ b, e ≠ .apdu b) :
    (m.step L env e).1.union = m.union ∧ (m.step L env e).1.prompt = none := by
  have hp : ¬ m.prompt.isSome = true := by
    rw [hnone]
    decide
  unfold step
  by_cases hexited : m.exited = true
  · rw [if_pos hexited]
    exact ⟨rfl, hnone⟩
  rw [if_neg hexited]
  cases e with
  | apdu b => exact absurd rfl (he b)
  | accept | reject | switchNetwork | switchSignHash | switchContractData =>
    dsimp only
    rw [if_neg hp]
    exact ⟨rfl, hnone⟩

theorem union_run_of_prompt_none (L : Overlay U) (env : Env) (hnone : m.prompt = none)
    {es : List Event} (hes : ∀ e ∈ es, ∀ b, e ≠ .apdu b) :
    (m.run L env es).union = m.union ∧ (m.run L env es).prompt = none := by
  induction es generalizing m with
  | nil => exact ⟨rfl, hnone⟩
  | cons e es ih =>
    obtain ⟨he, hrest⟩ := List.forall_mem_cons.1 hes
    obtain ⟨hunion, hprompt⟩ := union_step_of_prompt_none L env hnone he
    obtain ⟨hunion', hprompt'⟩ := ih hprompt hrest
    exact ⟨hunion'.trans hunion, hprompt'⟩

/-- After the exit, nothing changes. -/
theorem run_of_exited (hexited : m.exited = true) (es : List Event) : m.run L env es = m := by
  induction es with
  | nil => rfl
  | cons e es ih =>
    have hstep : (m.step L env e).1 = m := by
      unfold step
      rw [if_pos hexited]
    change ((m.step L env e).1).run L env es = m
    rw [hstep, ih]

/-- The packet with the path leaves the path. -/
theorem step_messageHash_first (hrunning : ¬ m.exited = true) (hnone : m.prompt = none)
    {bytes : List UInt8} {q : Request} (hq : Owner.request m.nvram bytes = some q)
    (hins : q.instruction = insSignMessageHash) (hp1 : q.p1 = p1First)
    (hon : m.nvram.signHashType = .on) (hlength : q.cdata.length ≤ maxApduSize)
    {path : Bip32Path} (hpath : readBip32Path .zero q.cdata = .ok path) :
    (m.step L env (.apdu bytes)).1.union = L.setMessageHash { key := path } m.union ∧
      (m.step L env (.apdu bytes)).1.prompt = none := by
  obtain ⟨-, hcall⟩ := onApdu_of_request L env hq
  have hselect : selectHandler insSignMessageHash = .signMessageHash := by decide
  have hfirst := MessageHashState.handleApdu_first m.nvram hlength hpath
    (L.getMessageHash m.union)
  unfold step
  rw [if_neg hrunning]
  dsimp only
  rw [hcall, callHandler, runHandler, hins, hselect, hp1]
  dsimp only
  rw [if_pos hon, hfirst]
  exact ⟨rfl, hnone⟩

/-- The key of a message hash is that of the packet with the path, until another request is
processed. -/
theorem key_of_first {earlier later : List Event} {first : List UInt8}
    (hlater : ∀ e ∈ later, ∀ b, e ≠ .apdu b) (hrunning : ¬ (m.run L env earlier).exited = true)
    (hnone : (m.run L env earlier).prompt = none) {q : Request}
    (hq : Owner.request (m.run L env earlier).nvram first = some q)
    (hins : q.instruction = insSignMessageHash) (hp1 : q.p1 = p1First)
    (hon : q.nd.signHashType = .on) (hlength : q.cdata.length ≤ maxApduSize)
    {path : Bip32Path} (hpath : readBip32Path .zero q.cdata = .ok path) :
    (L.getMessageHash (m.run L env (earlier ++ .apdu first :: later)).union).key = path := by
  obtain ⟨hnd, -⟩ := onApdu_of_request L env hq
  rw [hnd] at hon
  obtain ⟨hunion, hprompt⟩ := step_messageHash_first hrunning hnone hq hins hp1 hon hlength hpath
  obtain ⟨hunion', -⟩ := union_run_of_prompt_none L env hprompt hlater
  have hrun : m.run L env (earlier ++ .apdu first :: later) =
      ((m.run L env earlier).step L env (.apdu first)).1.run L env later := run_append m _ _
  rw [hrun, hunion', hunion, L.getMessageHash_set]

end Machine

open Machine in
/-- **Message hashes.**  When no request arrives while a prompt is on the screen, and the
instruction byte of a request selects an entry of the table or the error handler, the callback for
message hashes only signs when the user accepts, and it signs the payload of the most recent
request, which has at most 32 bytes; the setting allows this, and the prompt shows the payload in
hexadecimal, whole, in a text that fits and from which it can be read back.  If the packet with the
path is the request before, the key is the one for this path. -/
theorem hash_signed_is_shown (L : Overlay U) (env : Env) (nd : NvramData) (es : List Event)
    (e : Event) (r : Reply)
    (hquiet : ∀ before bytes after, es = before ++ .apdu bytes :: after →
      ((start L nd).run L env before).prompt = none)
    (hin : ∀ bytes i, e = .apdu bytes → dispatched bytes = some i → InTable i)
    (hr : r ∈ (((start L nd).run L env es).step L env e).2) (hkind : r.kind = .signature)
    (hok : ((start L nd).run L env es).okCallback = .signMessageHashOk) :
    e = .accept ∧ ∃ before bytes after q priv key,
      es = before ++ .apdu bytes :: after ∧ (∀ e ∈ after, ∀ b, e ≠ .apdu b) ∧
      Owner.request ((start L nd).run L env before).nvram bytes = some q ∧
      q.instruction = insSignMessageHash ∧ q.p1 = p1LastMarker ∧ q.nd.signHashType = .on ∧
      q.cdata.length ≤ 32 ∧
      ((start L nd).run L env es).prompt = some [⟨.text "Sign", .text "Message Hash"⟩,
        ⟨.text "Message Hash: ", .hex q.cdata⟩] ∧
      (binToHex q.cdata).length < activeValueSize ∧ nul ∉ binToHex q.cdata ∧
      parseHex (binToHex q.cdata) = some q.cdata ∧
      env.derive (L.getMessageHash ((start L nd).run L env before).union).key.used =
        .ok (priv, key) ∧
      r = ⟨.signature, (sign env priv q.cdata).1 ++ [0x90, 0x00]⟩ ∧
      ∀ earlier first later q₁ path, before = earlier ++ .apdu first :: later →
        (∀ e ∈ later, ∀ b, e ≠ .apdu b) →
        Owner.request ((start L nd).run L env earlier).nvram first = some q₁ →
        q₁.instruction = insSignMessageHash → q₁.p1 = p1First →
        q₁.nd.signHashType = .on → q₁.cdata.length ≤ maxApduSize →
        readBip32Path .zero q₁.cdata = .ok path →
        (L.getMessageHash ((start L nd).run L env before).union).key = path := by
  obtain ⟨rfl, -⟩ := accept_of_sensitive hin hr (.inl hkind)
  refine ⟨rfl, ?_⟩
  obtain ⟨hprompt, u, hcall⟩ := accept_reply hr
  obtain ⟨before, bytes, after, rfl, hafter, hnone, heq⟩ := run_asked rfl hquiet hprompt
  -- the machine is as the most recent request has left it
  rw [heq] at hprompt hcall hok ⊢
  obtain ⟨q, p, u', io, hrequest, hnd, hrun, hm⟩ := onApdu_asked hnone hprompt
  rw [hm] at hcall hok ⊢
  have hcallback : p.ok = .signMessageHashOk := hok
  obtain ⟨hs, s, hhandler, -⟩ | ⟨hs, s, hhandler, -⟩ | ⟨k, st, hk, hst, rfl⟩ :=
    runHandler_prompt hrun hnd
  · -- the callbacks for public keys are others
    have hbad := (PubkeyState.for_getPublicKey hhandler).1
    rw [hcallback] at hbad
    cases hbad
  · have hbad := (PubkeyState.for_accountImport hhandler).1
    rw [hcallback] at hbad
    cases hbad
  obtain ⟨-, hfor⟩ := MemberState.handle_ok hst
  rw [MemberState.member_get] at hfor
  obtain rfl : Member.messageHash = k := by
    have hmember := hfor.1
    rw [hcallback] at hmember
    exact Option.some.inj hmember
  have hselect : selectHandler q.instruction = .signMessageHash := by
    cases hs : selectHandler q.instruction <;> rw [hs] at hk <;> cases hk
  simp only [MemberState.get, MemberState.handle] at hst
  split_ifs at hst with hon
  simp only [map_eq_ok_iff, mapError_eq_ok_iff, Prod.mk.injEq] at hst
  obtain ⟨⟨a, s⟩, hhandler, rfl, rfl, -⟩ := hst
  obtain ⟨hp1, hlength, hkey, hhash, rfl⟩ := MessageHashState.handleApdu_prompt hhandler
  simp only [callOk, MemberState.set, L.getMessageHash_set, MessageHashState.performSignature,
    signWithPath, hkey, hhash, bind_eq_ok_iff, pure, Except.pure, Except.ok.injEq,
    Prod.mk.injEq] at hcall
  obtain ⟨r', ⟨signature, ⟨⟨priv, key⟩, hderive, rfl⟩, rfl⟩, rfl, -⟩ := hcall
  refine ⟨before, bytes, after, q, priv, key, rfl, hafter, hrequest,
    List.mem_singleton.1 (mem_instructions hselect (by decide)), hp1, hon, hlength, rfl, ?_,
    nul_notMem_binToHex q.cdata, parseHex_binToHex q.cdata, hderive, rfl, ?_⟩
  · rw [length_binToHex, activeValueSize]
    omega
  · rintro earlier first later q₁ path rfl hlater hq hins hfirst hon₁ hlength₁ hpath
    have hnone₁ : ((start L nd).run L env earlier).prompt = none :=
      hquiet earlier first (later ++ .apdu bytes :: after) (by simp)
    refine key_of_first hlater (fun hexited => ?_) hnone₁ hq hins hfirst hon₁ hlength₁ hpath
    -- after an exit, there is no prompt to accept
    have hsame : (start L nd).run L env (earlier ++ .apdu first :: later ++ .apdu bytes :: after) =
        (start L nd).run L env earlier := by
      rw [List.append_assoc, run_append, run_of_exited hexited]
    have hsome := congrArg Machine.prompt (heq.symm.trans hsame)
    rw [hm, hnone₁] at hsome
    cases hsome

/-- A run of two requests. -/
theorem eq_of_pair {bytes₁ bytes₂ bytes : List UInt8} {before after : List Event}
    (h : [Event.apdu bytes₁, .apdu bytes₂] = before ++ .apdu bytes :: after) :
    before = [] ∧ after = [.apdu bytes₂] ∨
      before = [.apdu bytes₁] ∧ bytes = bytes₂ ∧ after = [] := by
  cases before with
  | nil =>
    cases h
    exact .inl ⟨rfl, rfl⟩
  | cons e before =>
    obtain ⟨rfl, hrest⟩ := List.cons.inj h
    obtain ⟨rfl, rfl⟩ := eq_of_singleton hrest
    exact .inr ⟨rfl, rfl, (List.cons.inj hrest).2.symm⟩

open Machine in
/-- A path and a hash are sent, and the user accepts. -/
theorem hash_signed_is_shown_messageHash : ∃ priv key r,
    r ∈ (((start Overlay.memory hashesAllowed).run Overlay.memory Env.reference
      [.apdu (startMessageHash 44), .apdu (finishMessageHash 7)]).step Overlay.memory
        Env.reference .accept).2 ∧
    Env.reference.derive [0x8000002C] = .ok (priv, key) ∧
    r = ⟨.signature, (sign Env.reference priv (List.replicate 32 7)).1 ++ [0x90, 0x00]⟩ := by
  have hsome : (((start Overlay.memory hashesAllowed).run Overlay.memory Env.reference
      [.apdu (startMessageHash 44), .apdu (finishMessageHash 7)]).step Overlay.memory
        Env.reference .accept).2.any (fun r => r.kind = .signature) = true := by
    decide +kernel
  obtain ⟨r, hmem, hkind⟩ := List.any_eq_true.1 hsome
  have hquiet (before : List Event) (bytes : List UInt8) (after : List Event)
      (h : [Event.apdu (startMessageHash 44), .apdu (finishMessageHash 7)] =
        before ++ .apdu bytes :: after) :
      ((start Overlay.memory hashesAllowed).run Overlay.memory Env.reference before).prompt =
        none := by
    obtain ⟨rfl, -⟩ | ⟨rfl, -⟩ := eq_of_pair h <;> decide +kernel
  obtain ⟨-, before, bytes, after, q, priv, key, heq, hafter, hq, -, -, -, -, -, -, -, -, hderive,
    hr, hpath⟩ := hash_signed_is_shown Overlay.memory Env.reference hashesAllowed
      [.apdu (startMessageHash 44), .apdu (finishMessageHash 7)] .accept r hquiet
      (fun _ _ h => absurd h (by simp)) hmem (of_decide_eq_true hkind) (by decide +kernel)
  obtain ⟨-, rfl⟩ | ⟨rfl, rfl, rfl⟩ := eq_of_pair heq
  · exact absurd rfl (hafter _ (List.mem_singleton_self _) _)
  have hkey := hpath [] (startMessageHash 44) [] ⟨hashesAllowed, insSignMessageHash, p1First,
    [1, 0x80, 0, 0, 44]⟩ _ rfl (List.forall_mem_nil _) rfl rfl rfl rfl (by decide) rfl
  rw [hkey] at hderive
  cases hq
  exact ⟨priv, key, r, hmem, hderive, hr⟩

end LedgerNervos
