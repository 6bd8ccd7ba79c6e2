import LedgerNervos.App.Isolation
import LedgerNervos.Display.AddressReader
import LedgerNervos.Display.PathText

/-!
# What the user decides on

While a prompt is on the screen, the application does not change: the user decides on what the
most recent request has left (`Machine.run_asked`).  A public key is only sent for such a request,
so the key is that of the path in the request, and the prompt has shown its address
(`key_sent_is_shown`).
-/

namespace LedgerNervos

variable {U : Type}

namespace Machine

variable {L : Overlay U} {env : Env} {m : Machine U}

/-! ### While a prompt is on the screen -/

/-- Without a request, an event that leaves a prompt on the screen does nothing at all. -/
theorem step_of_prompt {e : Event} (he : ∀ b, e ≠ .apdu b)
    (hp : (m.step L env e).1.prompt.isSome = true) : (m.step L env e).1 = m := by
  have hresponse (accepted : Bool) : (m.promptResponse L env accepted).1.prompt = none := by
    unfold promptResponse
    dsimp only
    split <;> rfl
  cases e with
  | apdu b => exact absurd rfl (he b)
  | accept | reject =>
    unfold step at hp ⊢
    split_ifs at hp ⊢ with hexited hprompt
    · rfl
    · rw [hresponse] at hp
      cases hp
    · rfl
  | switchNetwork | switchSignHash | switchContractData =>
    unfold step at hp ⊢
    split_ifs at hp ⊢ with hexited hprompt
    · rfl
    · rfl
    · exact absurd hp hprompt

/-- When no request arrives while a prompt is on the screen, the application is as the most recent
request has left it, as long as its prompt is on the screen. -/
theorem run_asked {m₀ : Machine U} (h₀ : m₀.prompt = none) {es : List Event}
    (hquiet : ∀ before bytes after, es = before ++ .apdu bytes :: after →
      (m₀.run L env before).prompt = none)
    (hp : (m₀.run L env es).prompt.isSome = true) :
    ∃ before bytes after, es = before ++ .apdu bytes :: after ∧ (∀ e ∈ after, ∀ b, e ≠ .apdu b) ∧
      (m₀.run L env before).prompt = none ∧
      m₀.run L env es = ((m₀.run L env before).step L env (.apdu bytes)).1 := by
  induction es using List.reverseRecOn with
  | nil =>
    change m₀.prompt.isSome = true at hp
    rw [h₀] at hp
    cases hp
  | append_singleton es e ih =>
    have hrun : m₀.run L env (es ++ [e]) = ((m₀.run L env es).step L env e).1 := by
      rw [run_append]
      rfl
    by_cases he : ∃ b, e = .apdu b
    · obtain ⟨b, rfl⟩ := he
      exact ⟨es, b, [], rfl, List.forall_mem_nil _, hquiet es b [] rfl, hrun⟩
    · have he' : ∀ b, e ≠ .apdu b := fun b hb => he ⟨b, hb⟩
      rw [hrun] at hp
      have hsame := step_of_prompt he' hp
      rw [hsame] at hp hrun
      obtain ⟨before, bytes, after, rfl, hafter, hnone, heq⟩ :=
        ih (fun before bytes after h => hquiet before bytes (after ++ [e]) (by simp [h])) hp
      refine ⟨before, bytes, after ++ [e], by simp, ?_, hnone, hrun.trans heq⟩
      intro x hx b
      obtain hx | hx := List.mem_append.1 hx
      · exact hafter x hx b
      · obtain rfl := List.mem_singleton.1 hx
        exact he' b

theorem fail_prompt (m : Machine U) (x : Exn) : (m.fail L x).1.prompt = m.prompt := by
  cases x <;> rfl

/-- A handler that leads to a prompt has put it up. -/
theorem callHandler_asked (hnone : m.prompt = none) {instruction p1 : UInt8} {cdata : List UInt8}
    (hp : (m.callHandler L env instruction p1 cdata).1.prompt.isSome = true) :
    ∃ p u io, m.runHandler L env instruction p1 cdata = .ok (.prompt p, u, io) ∧
      m.callHandler L env instruction p1 cdata =
        ({ m with
          union := u, io := io, okCallback := p.ok, cxlCallback := p.cxl,
          prompt := some p.screens }, []) := by
  have hnot : ¬ m.prompt.isSome = true := by
    rw [hnone]
    decide
  unfold callHandler at hp ⊢
  cases hrun : m.runHandler L env instruction p1 cdata with
  | error y =>
    rw [hrun] at hp
    dsimp only at hp
    rw [fail_prompt] at hp
    exact absurd hp hnot
  | ok y =>
    obtain ⟨a, u, io⟩ := y
    rw [hrun] at hp
    cases a with
    | reply r => exact absurd hp hnot
    | prompt p => exact ⟨p, u, io, rfl, rfl⟩
    | sent r => exact absurd hp hnot

/-- A prompt that was not on the screen before has been put up by the handler of the request. -/
theorem onApdu_asked (hnone : m.prompt = none) {bytes : List UInt8}
    (hp : (m.step L env (.apdu bytes)).1.prompt.isSome = true) :
    ∃ q p u io, Owner.request m.nvram bytes = some q ∧ q.nd = m.nvram ∧
      ({ m with io := m.io.write 0 bytes } : Machine U).runHandler L env q.instruction q.p1
        q.cdata = .ok (.prompt p, u, io) ∧
      m.step L env (.apdu bytes) =
        ({ m with
          union := u, io := io, okCallback := p.ok, cxlCallback := p.cxl,
          prompt := some p.screens }, []) := by
  have hnot {x : Exn} :
      ¬ (({ m with io := m.io.write 0 bytes } : Machine U).fail L x).1.prompt.isSome = true := by
    rw [fail_prompt, hnone]
    decide
  unfold step at hp ⊢
  by_cases hexited : m.exited = true
  · rw [if_pos hexited, hnone] at hp
    cases hp
  · rw [if_neg hexited] at hp ⊢
    unfold onApdu at hp ⊢
    dsimp only at hp ⊢
    match bytes with
    | [] => exact absurd hp hnot
    | [_] | [_, _] | [_, _, _] | [_, _, _, _] =>
      dsimp only at hp
      split_ifs at hp <;> exact absurd hp hnot
    | cla :: instruction :: p1 :: p2 :: lc :: cdata =>
      dsimp only at hp ⊢
      split_ifs at hp ⊢ with hother hwrong
      · exact absurd hp hnot
      · exact absurd hp hnot
      · have hnone' : ({ m with
            io := m.io.write 0 (cla :: instruction :: p1 :: p2 :: lc :: cdata) } :
            Machine U).prompt = none := hnone
        obtain ⟨p, u, io, hrun, heq⟩ := callHandler_asked hnone' hp
        refine ⟨⟨m.nvram, instruction, p1, cdata⟩, p, u, io, ?_, rfl, hrun, heq⟩
        simp only [Owner.request]
        exact if_pos ⟨not_not.1 hother, not_not.1 hwrong⟩

end Machine

/-! ### Screens about a key -/

/-- Under all settings, the text of the value is that of the path. -/
def ScreenValue.ShowsPath (value : ScreenValue) (path : List UInt32) : Prop :=
  ∀ nd, ∃ text, value.render nd = .ok text ∧ parseBip32Path text = some path

/-- The lock script of the cells that a key can unlock. -/
def PublicKey.lockScript (env : Env) (key : PublicKey) : LockScript :=
  ⟨defaultLockScript, 1, (generateLockArgForPubkey env key).1⟩

theorem names_sighashAddress (env : Env) (key : PublicKey) :
    (ScreenValue.sighashAddress (generateLockArgForPubkey env key)).Names
      (PublicKey.lockScript env key) := by
  intro nd
  obtain ⟨text, htext, hread⟩ := AddressKind.sighash.readAddress_render nd
    (StandardLockArg.lockArg (generateLockArgForPubkey env key))
  rw [AddressKind.lockScript, StandardLockArg.hash_lockArg] at hread
  exact ⟨text, (render_sighashAddress nd _).trans htext, hread⟩

theorem showsPath_path {path : Bip32Path} (h : path.used ≠ []) :
    (ScreenValue.path path).ShowsPath path.used := by
  intro nd
  refine ⟨_, rfl, ?_⟩
  rw [bip32PathToString_eq, parseBip32Path_bip32PathText h]

/-- The prompt asks for a key: where it shows an address, it is that of the key, and where it shows
a path, it is that of the key. -/
structure AsksForKey (env : Env) (screens : List Screen) (path : List UInt32) (key : PublicKey) :
    Prop where
  address : ∀ screen ∈ screens, screen.title = .text "Address" →
    screen.value.Names (key.lockScript env)
  path : ∀ screen ∈ screens, screen.title = .text "Derivation Path" → screen.value.ShowsPath path

/-- A prompt is looked at screen by screen. -/
theorem asksForKey_cons {env : Env} {screen : Screen} {screens : List Screen} {path : List UInt32}
    {key : PublicKey} :
    AsksForKey env (screen :: screens) path key ↔
      ((screen.title = .text "Address" → screen.value.Names (key.lockScript env)) ∧
        (screen.title = .text "Derivation Path" → screen.value.ShowsPath path)) ∧
      AsksForKey env screens path key := by
  constructor
  · rintro ⟨haddress, hpath⟩
    rw [List.forall_mem_cons] at haddress hpath
    exact ⟨⟨haddress.1, hpath.1⟩, haddress.2, hpath.2⟩
  · rintro ⟨⟨haddress, hpath⟩, hrest⟩
    exact ⟨List.forall_mem_cons.2 ⟨haddress, hrest.address⟩,
      List.forall_mem_cons.2 ⟨hpath, hrest.path⟩⟩

theorem asksForKey_nil {env : Env} {path : List UInt32} {key : PublicKey} :
    AsksForKey env [] path key := ⟨List.forall_mem_nil _, List.forall_mem_nil _⟩

/-- A screen about something else. -/
theorem asksForKey_other {env : Env} {title : String} {value : ScreenValue}
    {screens : List Screen} {path : List UInt32} {key : PublicKey} (haddress : title ≠ "Address")
    (hpath : title ≠ "Derivation Path") (h : AsksForKey env screens path key) :
    AsksForKey env (⟨.text title, value⟩ :: screens) path key := by
  refine asksForKey_cons.2 ⟨⟨fun htitle => ?_, fun htitle => ?_⟩, h⟩
  · exact absurd (ScreenTitle.text.inj htitle) haddress
  · exact absurd (ScreenTitle.text.inj htitle) hpath

/-- The screen with the address. -/
theorem asksForKey_address (env : Env) (path : List UInt32) (key : PublicKey) :
    AsksForKey env [⟨.text "Address", .sighashAddress (generateLockArgForPubkey env key)⟩] path
      key := by
  refine asksForKey_cons.2 ⟨⟨fun _ => names_sighashAddress env key, fun htitle => ?_⟩,
    asksForKey_nil⟩
  exact absurd (ScreenTitle.text.inj htitle) (by decide)

namespace Request

/-- The path of the key that is asked for. -/
def keyPath (q : Request) : Option (List UInt32) :=
  if q.instruction = insAccountImport then
    some [0x8000002C, 0x80000135, 0x80000000 + UInt32.ofNat (beNat q.cdata)]
  else match readBip32Path .zero q.cdata with
    | .ok path => some path.used
    | .error _ => none

/-- The titles of the prompt. -/
def keyTitles (q : Request) : List String :=
  if q.instruction = insAccountImport then ["Import"]
  else if q.instruction = insPromptExtPublicKey then ["Provide", "Derivation Path", "Address"]
  else ["Provide", "Address"]

/-- What is sent: the key, and for an extended one the chain code. -/
def keyBytes (q : Request) (key : ExtendedPublicKey) : List UInt8 :=
  65 :: key.publicKey.1 ++ if q.instruction = insPromptPublicKey then [] else 32 :: key.chainCode.1

end Request

/-! ### The handlers -/

namespace PubkeyState

variable {env : Env} {nd : NvramData} {instruction p1 : UInt8} {cdata : List UInt8} {a : Answer}
  {s s' : PubkeyState}

/-- The components in use are those of the packet, whatever was there before. -/
theorem used_readBip32Path {out path : Bip32Path} {bs : List UInt8}
    (h : readBip32Path out bs = .ok path) :
    path.used ≠ [] ∧ ∃ path', readBip32Path .zero bs = .ok path' ∧ path'.used = path.used := by
  unfold readBip32Path at h ⊢
  cases bs with
  | nil => cases h
  | cons length rest =>
    dsimp only at h ⊢
    split_ifs at h ⊢ with hshort hvalues
    cases h
    have hused (components : List UInt32) : Bip32Path.used ⟨length,
        ((List.range length.toNat).map fun i =>
          UInt32.ofNat (beNat ((rest.drop (4 * i)).take 4))) ++ components⟩ =
        (List.range length.toNat).map fun i =>
          UInt32.ofNat (beNat ((rest.drop (4 * i)).take 4)) := by
      rw [Bip32Path.used]
      exact List.take_left' (by simp)
    rw [hused]
    refine ⟨?_, _, rfl, hused _⟩
    rw [not_or] at hvalues
    simpa [← UInt8.toNat_inj] using hvalues.1

/-- What the handler of a request for a public key has led to. -/
theorem getPublicKey_ok
    (h : s.handleApduGetPublicKey env nd instruction p1 cdata = .ok (a, s')) :
    p1 = 0 ∧ ∃ path priv, readBip32Path s.key cdata = .ok path ∧
      env.derive path.used = .ok (priv, s'.extPublicKey) ∧
      a = .prompt (if instruction = insPromptExtPublicKey then
          ⟨[⟨.text "Provide", .text "Extended Public Key"⟩, ⟨.text "Derivation Path", .path path⟩,
            ⟨.text "Address", .sighashAddress
              (generateLockArgForPubkey env s'.extPublicKey.publicKey)⟩],
            .extPubkeyOk, .delayReject⟩
        else
          ⟨[⟨.text "Provide", .text "Public Key"⟩,
            ⟨.text "Address", .sighashAddress
              (generateLockArgForPubkey env s'.extPublicKey.publicKey)⟩],
            .pubkeyOk, .delayReject⟩) := by
  unfold handleApduGetPublicKey at h
  split_ifs at h with hp1
  simp only [bind_eq_ok_iff, pure, Except.pure, Except.ok.injEq, Prod.mk.injEq] at h
  obtain ⟨path, hpath, ⟨priv, key⟩, hkey, p, hp, rfl, rfl⟩ := h
  refine ⟨not_not.1 hp1, path, priv, hpath, hkey, ?_⟩
  unfold prompt at hp
  split_ifs at hp ⊢ <;>
    simp only [bind_eq_ok_iff, pure, Except.pure, Except.ok.injEq] at hp <;>
    obtain ⟨screens, hscreens, rfl⟩ := hp <;>
    rw [uiPrompt_ok hscreens]

/-- What the handler of a request for an account has led to. -/
theorem accountImport_ok (h : s.handleApduAccountImport env nd p1 cdata = .ok (a, s')) :
    p1 = 0 ∧ cdata.length = 4 ∧ ∃ priv,
      env.derive [0x8000002C, 0x80000135, 0x80000000 + UInt32.ofNat (beNat cdata)] =
        .ok (priv, s'.extPublicKey) ∧
      a = .prompt ⟨[⟨.text "Import", .text "Account"⟩], .accountImportOk, .delayReject⟩ := by
  unfold handleApduAccountImport at h
  dsimp only at h
  split_ifs at h with hp1 hlength
  simp only [bind_eq_ok_iff, pure, Except.pure, Except.ok.injEq, Prod.mk.injEq] at h
  obtain ⟨⟨priv, key⟩, hkey, screens, hscreens, rfl, rfl⟩ := h
  refine ⟨not_not.1 hp1, not_not.1 hlength, priv, hkey, ?_⟩
  rw [uiPrompt_ok hscreens]

end PubkeyState

namespace Machine

variable {L : Overlay U} {env : Env} {m : Machine U} {q : Request} {p : Prompt} {u : U} {io : Io}

/-- The handlers that put up prompts. -/
theorem runHandler_prompt
    (h : m.runHandler L env q.instruction q.p1 q.cdata = .ok (.prompt p, u, io))
    (hnd : q.nd = m.nvram) :
    (selectHandler q.instruction = .getPublicKey ∧ ∃ s,
        (L.getPubkey m.union).handleApduGetPublicKey env m.nvram q.instruction q.p1 q.cdata =
          .ok (.prompt p, s) ∧ u = L.setPubkey s m.union) ∨
      (selectHandler q.instruction = .accountImport ∧ ∃ s,
        (L.getPubkey m.union).handleApduAccountImport env m.nvram q.p1 q.cdata =
          .ok (.prompt p, s) ∧ u = L.setPubkey s m.union) ∨
      ∃ k st, (selectHandler q.instruction).member = some k ∧
        (MemberState.get L m.union k).handle env q m.io = .ok (.prompt p, st, io) ∧
        u = st.set L m.union := by
  have hmember {k : Member} (hk : (selectHandler q.instruction).member = some k) :
      ∃ k st, (selectHandler q.instruction).member = some k ∧
        (MemberState.get L m.union k).handle env q m.io = .ok (.prompt p, st, io) ∧
        u = st.set L m.union := by
    rw [runHandler_member hk hnd, map_eq_ok_iff] at h
    obtain ⟨⟨a, st, io'⟩, hst, heq⟩ := h
    simp only [Prod.mk.injEq] at heq
    obtain ⟨rfl, rfl, rfl⟩ := heq
    exact ⟨k, st, hk, hst, rfl⟩
  cases hs : selectHandler q.instruction with
  | getPublicKey =>
    refine .inl ⟨rfl, ?_⟩
    unfold runHandler at h
    rw [hs] at h
    simp only [bind_eq_ok_iff, mapError_eq_ok_iff, pure, Except.pure, Except.ok.injEq,
      Prod.mk.injEq] at h
    obtain ⟨⟨a, s⟩, hrun, rfl, rfl, -⟩ := h
    exact ⟨s, hrun, rfl⟩
  | accountImport =>
    refine .inr (.inl ⟨rfl, ?_⟩)
    unfold runHandler at h
    rw [hs] at h
    simp only [bind_eq_ok_iff, mapError_eq_ok_iff, pure, Except.pure, Except.ok.injEq,
      Prod.mk.injEq] at h
    obtain ⟨⟨a, s⟩, hrun, rfl, rfl, -⟩ := h
    exact ⟨s, hrun, rfl⟩
  | sign | signMessage | signMessageHash =>
    rw [← hs]
    exact .inr (.inr (hmember (by rw [hs]; rfl)))
  | error | version | git =>
    unfold runHandler at h
    rw [hs] at h
    cases h
  | getWalletId =>
    unfold runHandler at h
    rw [hs] at h
    simp only [bind_eq_ok_iff, mapError_eq_ok_iff, pure, Except.pure, Except.ok.injEq,
      Prod.mk.injEq] at h
    obtain ⟨_, -, hbad, -⟩ := h
    cases hbad
  | okCallback | cxlCallback =>
    unfold runHandler at h
    rw [hs] at h
    simp only [bind_eq_ok_iff, mapError_eq_ok_iff, pure, Except.pure, Except.ok.injEq,
      Prod.mk.injEq] at h
    obtain ⟨_, -, hbad, -⟩ := h
    cases hbad
  | other =>
    unfold runHandler at h
    rw [hs] at h
    cases h

/-- The callbacks that sign send no public key. -/
theorem callOk_kind {k : Member} (hk : m.okCallback.member = some k) {r : Reply}
    (h : m.callOk L env = .ok (r, u)) : r.kind ≠ .publicKey := by
  have hbind {x : Except Exn Reply} {f : Reply → U}
      (h : (x >>= fun r => .ok (r, f r)) = .ok (r, u)) : x = .ok r := by
    rw [bind_eq_ok_iff] at h
    obtain ⟨r', hr', heq⟩ := h
    cases heq
    exact hr'
  have hsigned {x : Except Exn (Bytes 65)} (front : List UInt8)
      (h : (x >>= fun signature => .ok (finalizeSuccessfulSend .signature (front ++ signature.1))) =
        .ok r) : r.kind ≠ .publicKey := by
    rw [bind_eq_ok_iff] at h
    obtain ⟨signature, -, heq⟩ := h
    cases heq
    simp [finalizeSuccessfulSend]
  have hperformed {sendHash : Bool} {g : SignState} (h : performSignature env sendHash g = .ok r) :
      r.kind ≠ .publicKey := by
    unfold performSignature at h
    split_ifs at h
    · cases h
      simp [finalizeSuccessfulSend]
    · exact hsigned _ h
    · exact hsigned [] h
  unfold callOk at h
  cases hc : m.okCallback <;> rw [hc] at h hk <;> simp only [OkCallback.member, reduceCtorEq] at hk
  · exact hperformed (hbind h)
  · exact hperformed (hbind h)
  · exact hsigned [] (hbind h)
  · exact hsigned [] (hbind h)

/-- A reply to the user's acceptance comes from the callback. -/
theorem accept_reply {r : Reply} (h : r ∈ (m.step L env .accept).2) :
    m.prompt.isSome = true ∧ ∃ u, m.callOk L env = .ok (r, u) := by
  unfold step at h
  split_ifs at h with hexited hprompt
  · cases h
  · refine ⟨hprompt, ?_⟩
    unfold promptResponse at h
    dsimp only at h
    rw [if_pos rfl] at h
    have hcall : ({ m with prompt := none } : Machine U).callOk L env = m.callOk L env := rfl
    rw [hcall] at h
    cases hok : m.callOk L env with
    | error x =>
      rw [hok] at h
      cases h
    | ok y =>
      rw [hok] at h
      obtain ⟨r', u⟩ := y
      obtain rfl := List.mem_singleton.1 h
      exact ⟨u, rfl⟩
  · cases h

end Machine

open Machine in
/-- **Public keys.**  When no request arrives while a prompt is on the screen, and the instruction
byte of a request selects an entry of the table or the error handler, a public key is only sent
when the user accepts.  It is the key for the path in the most recent request; the prompt on the
screen is the one for this request, and where it shows an address or a path, these are the address
of that key and that path. -/
theorem key_sent_is_shown (L : Overlay U) (env : Env) (nd : NvramData) (es : List Event) (e : Event)
    (r : Reply)
    (hquiet : ∀ before bytes after, es = before ++ .apdu bytes :: after →
      ((start L nd).run L env before).prompt = none)
    (hin : ∀ bytes i, e = .apdu bytes → dispatched bytes = some i → InTable i)
    (hr : r ∈ (((start L nd).run L env es).step L env e).2) (hkind : r.kind = .publicKey) :
    e = .accept ∧ ∃ before bytes after q path priv key screens,
      es = before ++ .apdu bytes :: after ∧ (∀ e ∈ after, ∀ b, e ≠ .apdu b) ∧
      Owner.request ((start L nd).run L env before).nvram bytes = some q ∧
      (q.instruction = insPromptPublicKey ∨ q.instruction = insPromptExtPublicKey ∨
        q.instruction = insAccountImport) ∧
      q.keyPath = some path ∧ env.derive path = .ok (priv, key) ∧
      ((start L nd).run L env es).prompt = some screens ∧
      screens.map Screen.title = q.keyTitles.map ScreenTitle.text ∧
      AsksForKey env screens path key.publicKey ∧ r.bytes = q.keyBytes key ++ [0x90, 0x00] := by
  obtain ⟨rfl, -⟩ := accept_of_sensitive hin hr (.inr hkind)
  refine ⟨rfl, ?_⟩
  obtain ⟨hprompt, u, hcall⟩ := accept_reply hr
  obtain ⟨before, bytes, after, rfl, hafter, hnone, heq⟩ := run_asked rfl hquiet hprompt
  rw [heq] at hprompt hcall ⊢
  obtain ⟨q, p, u', io, hrequest, hnd, hrun, hm⟩ := onApdu_asked hnone hprompt
  rw [hm] at hcall ⊢
  refine ⟨before, bytes, after, q, ?_⟩
  obtain ⟨hs, s, hhandler, rfl⟩ | ⟨hs, s, hhandler, rfl⟩ | ⟨k, st, hk, hst, rfl⟩ :=
    runHandler_prompt hrun hnd
  · obtain ⟨-, path, priv, hpath, hkey, hanswer⟩ := PubkeyState.getPublicKey_ok hhandler
    obtain ⟨hused, path', hpath', hsame⟩ := PubkeyState.used_readBip32Path hpath
    have hinstruction : q.instruction = insPromptPublicKey ∨
        q.instruction = insPromptExtPublicKey := List.mem_pair.1 (mem_instructions hs (by decide))
    have haccount : q.instruction ≠ insAccountImport := by
      obtain hi | hi := hinstruction <;> rw [hi] <;> decide
    refine ⟨path.used, priv, s.extPublicKey, p.screens, rfl, hafter, hrequest, ?_, ?_, hkey, rfl,
      ?_⟩
    · obtain hi | hi := hinstruction
      · exact .inl hi
      · exact .inr (.inl hi)
    · rw [Request.keyPath, if_neg haccount, hpath']
      exact congrArg some hsame
    · rw [Request.keyTitles, if_neg haccount, Request.keyBytes]
      obtain rfl := Answer.prompt.inj hanswer
      by_cases hext : q.instruction = insPromptExtPublicKey
      · have hplain : q.instruction ≠ insPromptPublicKey := by
          rw [hext]
          decide
        simp only [if_pos hext, if_neg hplain, callOk, L.getPubkey_set] at hcall ⊢
        cases hcall
        refine ⟨rfl, asksForKey_other (by decide) (by decide) (asksForKey_cons.2
          ⟨⟨fun htitle => ?_, fun _ => showsPath_path hused⟩, asksForKey_address env _ _⟩), ?_⟩
        · exact absurd (ScreenTitle.text.inj htitle) (by decide)
        · simp [provideExtPubkey, finalizeSuccessfulSend]
      · have hplain : q.instruction = insPromptPublicKey :=
          hinstruction.resolve_right hext
        simp only [if_neg hext, if_pos hplain, callOk, L.getPubkey_set] at hcall ⊢
        cases hcall
        refine ⟨rfl, asksForKey_other (by decide) (by decide) (asksForKey_address env _ _), ?_⟩
        simp [providePubkey, finalizeSuccessfulSend]
  · obtain ⟨-, -, priv, hkey, hanswer⟩ := PubkeyState.accountImport_ok hhandler
    have hi : q.instruction = insAccountImport :=
      List.mem_singleton.1 (mem_instructions hs (by decide))
    have hplain : q.instruction ≠ insPromptPublicKey := by
      rw [hi]
      decide
    obtain rfl := Answer.prompt.inj hanswer
    simp only [callOk, L.getPubkey_set] at hcall
    cases hcall
    refine ⟨_, priv, s.extPublicKey, _, rfl, hafter, hrequest, .inr (.inr hi), if_pos hi, hkey, rfl,
      ?_, asksForKey_other (by decide) (by decide) asksForKey_nil, ?_⟩
    · rw [Request.keyTitles, if_pos hi]
      rfl
    · rw [Request.keyBytes, if_neg hplain]
      simp [provideExtPubkey, finalizeSuccessfulSend]
  · refine absurd hkind (callOk_kind (k := k) ?_ hcall)
    have hfor := (MemberState.handle_ok hst).2
    rw [MemberState.member_get] at hfor
    exact hfor.1

/-- A run of a single request. -/
theorem eq_of_singleton {bytes bytes' : List UInt8} {before after : List Event}
    (h : [Event.apdu bytes] = before ++ .apdu bytes' :: after) : before = [] ∧ bytes' = bytes := by
  obtain ⟨rfl, h⟩ | ⟨-, h⟩ := List.append_eq_singleton_iff.1 h.symm
  · cases h
    exact ⟨rfl, rfl⟩
  · cases h

open Machine in
/-- A public key is asked for, and the user accepts. -/
theorem key_sent_is_shown_pubkey : ∃ screens key,
    ((start Overlay.memory {}).run Overlay.memory Env.reference
      [.apdu (requestPubkey 44)]).prompt = some screens ∧
    AsksForKey Env.reference screens [0x8000002C] key := by
  have hreply : (⟨.publicKey, 65 :: basePoint.1 ++ [0x90, 0x00]⟩ : Reply) ∈
      (((start Overlay.memory {}).run Overlay.memory Env.reference
        [.apdu (requestPubkey 44)]).step Overlay.memory Env.reference .accept).2 := by
    decide +kernel
  obtain ⟨-, before, bytes, after, q, path, priv, key, screens, heq, -, hq, -, hpath, -, hprompt,
    -, hasks, -⟩ := key_sent_is_shown Overlay.memory Env.reference {}
      [.apdu (requestPubkey 44)] .accept _
      (fun before bytes after h => by rw [(eq_of_singleton h).1]; rfl)
      (fun _ _ h => absurd h (by simp)) hreply rfl
  obtain ⟨rfl, rfl⟩ := eq_of_singleton heq
  cases hq
  cases hpath
  exact ⟨screens, key.publicKey, hprompt, hasks⟩

end LedgerNervos
