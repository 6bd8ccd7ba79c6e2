import LedgerNervos.App.Decisions
import LedgerNervos.App.MessageSession
import LedgerNervos.Display.ScreenText

/-!
# The screens of all prompts

Whatever the requests are, the screens of a prompt are presented by the function that the prompt
has been put up with (`Machine.presentable_of_asked`): no exception is thrown for any of them, and
the buffers are written past just for a line of a transfer to several destinations that combines
an address with a lock period and an amount of more than 12 characters (`prompt_within_iff`).
-/

namespace LedgerNervos

variable {U : Type}

/-- `global.ui.switch_screen`: `ui_prompt_with_cb` sets it to the callback for a transfer to several
destinations, `ui_prompt` to the function for tables. -/
def Machine.switchScreen (L : Overlay U) (m : Machine U) (screens : List Screen) :
    ℕ → ScreenBuffers → Except Exn Unit × ScreenBuffers :=
  if (m.okCallback = .signWithoutHashOk ∨ m.okCallback = .signWithHashOk) ∧
      (L.getSign m.union).g.maybe.v.tag = .multiOutputTransfer then
    multiOutputPromptsCb m.nvram (L.getSign m.union).g
  else LedgerNervos.switchScreen m.nvram screens

/-- All screens are presented. -/
structure Machine.Presentable (L : Overlay U) (m : Machine U) (screens : List Screen) : Prop where
  count : screens.length ≤ maxScreenCount
  presents : ∀ which, (h : which < screens.length) →
    Presents m.nvram (m.switchScreen L screens which) screens[which]

/-! ### The screens are bounded -/

theorem uiPrompt_count {nd : NvramData} {screens shown : List Screen}
    (h : uiPrompt nd screens = .ok shown) : screens.length ≤ maxScreenCount := by
  unfold uiPrompt at h
  split_ifs at h with hcount
  exact Nat.not_lt.1 hcount

theorem ScreenValue.Bounded.of_text {s : String} (h : s.toList.length < activeValueSize) :
    (ScreenValue.text s).Bounded := h

/-- Screens are bounded one by one. -/
theorem bounded_cons {title : String} {value : ScreenValue} {screens : List Screen}
    (htitle : title.toList.length < activePromptSize ∧ nul ∉ title.toList)
    (hvalue : value.Bounded) (h : ∀ screen ∈ screens, screen.Bounded) :
    ∀ screen ∈ (⟨.text title, value⟩ : Screen) :: screens, screen.Bounded :=
  List.forall_mem_cons.2 ⟨⟨htitle, hvalue⟩, h⟩

theorem Output.bounded_address (o : Output) : o.address.Bounded := by
  unfold address
  split_ifs <;> trivial

/-- The screens of a transaction that come from a table. -/
theorem SignState.bounded_screens {g : SignState} {nd : NvramData} {screens : List Screen}
    (h : g.screens nd = some screens) (htag : g.maybe.v.tag ≠ .multiOutputTransfer) :
    ∀ screen ∈ screens, screen.Bounded := by
  have hnil := List.forall_mem_nil Screen.Bounded
  unfold SignState.screens at h
  dsimp only at h
  cases htag' : g.maybe.v.tag <;> rw [htag'] at h htag
  case none | notSet => cases h
  case multiOutputTransfer => exact absurd rfl htag
  case plainTransfer =>
    obtain rfl := Option.some.inj h
    refine List.forall_mem_append.2 ⟨?_, ?_⟩
    · exact bounded_cons (by decide) (.of_text (by decide)) (bounded_cons (by decide) trivial
        (bounded_cons (by decide) trivial (bounded_cons (by decide) (Output.bounded_address _)
          hnil)))
    · split_ifs
      · exact bounded_cons (by decide) trivial hnil
      · exact hnil
  case selfTransfer =>
    obtain rfl := Option.some.inj h
    exact bounded_cons (by decide) (.of_text (by decide)) (bounded_cons (by decide) trivial
      (bounded_cons (by decide) trivial (bounded_cons (by decide) (Output.bounded_address _)
        hnil)))
  case multiInputTransfer =>
    obtain rfl := Option.some.inj h
    exact bounded_cons (by decide) (.of_text (by decide)) (bounded_cons (by decide) trivial
      (bounded_cons (by decide) trivial (bounded_cons (by decide) trivial
        (bounded_cons (by decide) trivial (bounded_cons (by decide) (Output.bounded_address _)
          hnil)))))
  case daoDeposit | daoPrepare | daoWithdraw =>
    obtain rfl := Option.some.inj h
    exact bounded_cons (by decide) (.of_text (by decide)) (bounded_cons (by decide) trivial
      (bounded_cons (by decide) trivial (bounded_cons (by decide) trivial hnil)))

/-- The path of a packet. -/
theorem bounded_path {out path : Bip32Path} {bs : List UInt8}
    (h : readBip32Path out bs = .ok path) : (ScreenValue.path path).Bounded := by
  unfold readBip32Path at h
  cases bs with
  | nil => cases h
  | cons length rest =>
    dsimp only at h
    split_ifs at h with hshort hvalues
    cases h
    rw [not_or, Nat.not_lt] at hvalues
    refine ⟨?_, ?_, hvalues.2⟩
    · simp [Bip32Path.used]
    · have hzero : length.toNat ≠ 0 := fun hbad => hvalues.1 (UInt8.toNat_inj.1 hbad)
      exact Nat.one_le_iff_ne_zero.2 hzero

/-! ### The prompts of the handlers -/

/-- What has been put up with `ui_prompt`. -/
structure Prompt.Tabled (p : Prompt) : Prop where
  count : p.screens.length ≤ maxScreenCount
  bounded : ∀ screen ∈ p.screens, screen.Bounded

theorem Prompt.Tabled.presentable {L : Overlay U} {m : Machine U} {p : Prompt} (h : p.Tabled)
    (hswitch : m.switchScreen L p.screens = LedgerNervos.switchScreen m.nvram p.screens) :
    m.Presentable L p.screens := by
  refine ⟨h.count, fun which hwhich => ?_⟩
  rw [hswitch]
  exact presents_switchScreen h.count hwhich (h.bounded _ (List.getElem_mem hwhich))

section Handlers

variable {env : Env} {nd : NvramData} {instruction p1 : UInt8} {cdata : List UInt8} {p : Prompt}

theorem PubkeyState.tabled_getPublicKey {s s' : PubkeyState}
    (h : s.handleApduGetPublicKey env nd instruction p1 cdata = .ok (.prompt p, s')) :
    p.Tabled := by
  obtain ⟨-, path, _, hpath, -, hanswer⟩ := getPublicKey_ok h
  obtain rfl := Answer.prompt.inj hanswer
  have hnil := List.forall_mem_nil Screen.Bounded
  split_ifs
  · exact ⟨Nat.le_of_ble_eq_true rfl, bounded_cons (by decide) (.of_text (by decide))
      (bounded_cons (by decide) (bounded_path hpath) (bounded_cons (by decide) trivial hnil))⟩
  · exact ⟨Nat.le_of_ble_eq_true rfl, bounded_cons (by decide) (.of_text (by decide))
      (bounded_cons (by decide) trivial hnil)⟩

theorem PubkeyState.tabled_accountImport {s s' : PubkeyState}
    (h : s.handleApduAccountImport env nd p1 cdata = .ok (.prompt p, s')) : p.Tabled := by
  obtain ⟨-, -, _, -, hanswer⟩ := accountImport_ok h
  obtain rfl := Answer.prompt.inj hanswer
  exact ⟨Nat.le_of_ble_eq_true rfl, bounded_cons (by decide) (.of_text (by decide))
    (List.forall_mem_nil Screen.Bounded)⟩

theorem MessageState.tabled_handleApdu {s s' : MessageState}
    (h : s.handleApdu env nd p1 cdata = .ok (.prompt p, s')) : p.Tabled := by
  have hnil := List.forall_mem_nil Screen.Bounded
  unfold handleApdu at h
  split_ifs at h
  · simp only [bind_eq_ok_iff, pure, Except.pure, Except.ok.injEq, Prod.mk.injEq, reduceCtorEq,
      false_and, and_false, exists_false] at h
  · have hp : MessagePacket.bytes ⟨cdata, nd⟩ = cdata := rfl
    rw [← hp] at h
    obtain ⟨s₁, -, hlast⟩ := nextPacket_ok h
    split_ifs at hlast
    · obtain ⟨p', hanswer, -, hscreens, -⟩ := complete_ok hlast
      obtain rfl := Answer.prompt.inj hanswer
      have hshown : (s₁.display.1.take s₁.displaySize).length ≤ 64 := by
        rw [List.length_take, s₁.display.2]
        exact Nat.min_le_right ..
      have hvalue : ScreenValue.Bounded (if s₁.displayAsHex then
          .hex (s₁.display.1.take s₁.displaySize)
            else .buffer (s₁.display.1.take s₁.displaySize)) := by
        split_ifs <;> exact hshown
      refine ⟨?_, ?_⟩
      · rw [hscreens]
        exact Nat.le_of_ble_eq_true rfl
      · rw [hscreens]
        exact bounded_cons (by decide) (.of_text (by decide))
          (bounded_cons (by decide) hvalue hnil)
    · cases hlast

theorem MessageHashState.tabled_handleApdu {s s' : MessageHashState}
    (h : s.handleApdu nd p1 cdata = .ok (.prompt p, s')) : p.Tabled := by
  have hnil := List.forall_mem_nil Screen.Bounded
  have hshown (s : MessageHashState) : s.hash.length ≤ 64 := by
    rw [hash, List.length_take, s.hashToSign.2]
    exact Nat.min_le_right ..
  unfold handleApdu at h
  split_ifs at h
  all_goals simp only [bind_eq_ok_iff, pure, Except.pure, Except.ok.injEq, Prod.mk.injEq,
    reduceCtorEq, false_and, and_false, exists_false, Answer.prompt.injEq] at h
  obtain ⟨screens, hscreens, rfl, -⟩ := h
  obtain rfl := uiPrompt_ok hscreens
  exact ⟨Nat.le_of_ble_eq_true rfl, bounded_cons (by decide) (.of_text (by decide))
    (bounded_cons (by decide) (hshown _) hnil)⟩

/-- The prompt for a transaction has the screens of the state that is left. -/
theorem ApduSignState.screens_handleApdu {s s' : ApduSignState} {io io' : Io}
    (h : s.handleApdu env nd instruction p1 cdata io = .ok (.prompt p, s', io')) :
    s'.g.screens nd = some p.screens ∧ p.screens.length ≤ maxScreenCount := by
  have hanswer {s s' : ApduSignState} {last : Bool} {io io' : Io}
      (h : s.answer nd instruction last io = .ok (.prompt p, s', io')) :
      s'.g.screens nd = some p.screens ∧ p.screens.length ≤ maxScreenCount := by
    unfold answer at h
    split_ifs at h
    · split at h
      · cases h
      · rename_i p' hp
        cases h
        refine ⟨SignState.signComplete_screens hp, ?_⟩
        unfold SignState.signComplete at hp
        split at hp
        · cases hp
        · simp only [bind_eq_ok_iff, pure, Except.pure, Except.ok.injEq] at hp
          obtain ⟨screens, hscreens, rfl⟩ := hp
          obtain rfl := uiPrompt_ok hscreens
          exact uiPrompt_count hscreens
    · cases h
  unfold handleApdu at h
  dsimp only at h
  split_ifs at h
  all_goals
    rw [bind_eq_ok_iff] at h
    obtain ⟨r, -, h⟩ := h
    exact hanswer h

end Handlers

namespace Machine

variable {L : Overlay U} {env : Env} {m : Machine U}

/-- A prompt that a request has put up is presentable. -/
theorem presentable_of_asked (hnone : m.prompt = none) {bytes : List UInt8} {screens : List Screen}
    (hp : (m.step L env (.apdu bytes)).1.prompt = some screens) :
    (m.step L env (.apdu bytes)).1.Presentable L screens := by
  obtain ⟨q, p, u, io, -, hnd, hrun, hm⟩ := onApdu_asked hnone (by rw [hp]; rfl)
  rw [hm] at hp ⊢
  obtain rfl := Option.some.inj hp
  -- only the callbacks for transactions can go with the screens of outputs
  have htabled (h : p.Tabled) (hok : ¬ (p.ok = .signWithoutHashOk ∨ p.ok = .signWithHashOk)) :
      ({ m with union := u, io := io, okCallback := p.ok, cxlCallback := p.cxl,
                prompt := some p.screens } : Machine U).Presentable L p.screens :=
    h.presentable (if_neg fun hboth => hok hboth.1)
  obtain ⟨-, s, hhandler, -⟩ | ⟨-, s, hhandler, -⟩ | ⟨k, st, hk, hst, rfl⟩ :=
    runHandler_prompt hrun hnd
  · refine htabled (PubkeyState.tabled_getPublicKey hhandler) ?_
    obtain ⟨-, _, _, -, -, hanswer⟩ := PubkeyState.getPublicKey_ok hhandler
    obtain rfl := Answer.prompt.inj hanswer
    split_ifs <;> simp
  · refine htabled (PubkeyState.tabled_accountImport hhandler) ?_
    obtain ⟨-, -, _, -, hanswer⟩ := PubkeyState.accountImport_ok hhandler
    obtain rfl := Answer.prompt.inj hanswer
    simp
  · have hfor := (MemberState.handle_ok hst).2
    rw [MemberState.member_get] at hfor
    have hother (hk : k ≠ .sign) : ¬ (p.ok = .signWithoutHashOk ∨ p.ok = .signWithHashOk) := by
      rintro (hok | hok) <;> rw [Answer.For, hok] at hfor <;> exact hk (Option.some.inj hfor.1).symm
    cases k with
    | sign =>
      simp only [MemberState.get, MemberState.handle, map_eq_ok_iff, Prod.mk.injEq] at hst
      obtain ⟨⟨a, s, io'⟩, hhandler, rfl, rfl, rfl⟩ := hst
      rw [hnd] at hhandler
      obtain ⟨hscreens, hcount⟩ := ApduSignState.screens_handleApdu hhandler
      have hok : p.ok = .signWithoutHashOk ∨ p.ok = .signWithHashOk := by
        cases hok : p.ok <;> rw [Answer.For, hok] at hfor <;> simp [OkCallback.member] at hfor ⊢
      refine ⟨hcount, fun which hwhich => ?_⟩
      simp only [switchScreen, MemberState.set, L.getSign_set, hok, true_and]
      split_ifs with htag
      · rw [SignState.screens_multiOutput htag] at hscreens
        obtain ⟨screens, ok, cxl⟩ := p
        obtain rfl : s.g.multiOutputScreens = screens := Option.some.inj hscreens
        exact presents_multiOutput hcount hwhich
      · exact presents_switchScreen hcount hwhich
          (SignState.bounded_screens hscreens htag _ (List.getElem_mem hwhich))
    | message =>
      simp only [MemberState.get, MemberState.handle, map_eq_ok_iff, mapError_eq_ok_iff,
        Prod.mk.injEq] at hst
      obtain ⟨⟨a, s⟩, hhandler, rfl, rfl, rfl⟩ := hst
      exact htabled (MessageState.tabled_handleApdu hhandler) (hother (by decide))
    | messageHash =>
      simp only [MemberState.get, MemberState.handle] at hst
      split_ifs at hst
      simp only [map_eq_ok_iff, mapError_eq_ok_iff, Prod.mk.injEq] at hst
      obtain ⟨⟨a, s⟩, hhandler, rfl, rfl, rfl⟩ := hst
      exact htabled (MessageHashState.tabled_handleApdu hhandler) (hother (by decide))

/-- While a prompt is on the screen, it is presentable. -/
theorem presentable_of_run {nd : NvramData} {es : List Event}
    (hquiet : ∀ before bytes after, es = before ++ .apdu bytes :: after →
      ((start L nd).run L env before).prompt = none) {screens : List Screen}
    (hp : ((start L nd).run L env es).prompt = some screens) :
    ((start L nd).run L env es).Presentable L screens := by
  obtain ⟨before, bytes, after, rfl, -, hnone, heq⟩ := run_asked rfl hquiet (by rw [hp]; rfl)
  rw [heq] at hp ⊢
  exact presentable_of_asked hnone hp

end Machine

open Machine in
/-- **The screens of all prompts.**  When no request arrives while a prompt is on the screen, each
of its screens is shown without an exception.  Unless it is the line of an output that combines an
address with a lock period and an amount of more than 12 characters, the two buffers hold its title
and its text then; and just for such a line they are written past. -/
theorem prompt_within_iff (L : Overlay U) (env : Env) (nd : NvramData) (es : List Event)
    (hquiet : ∀ before bytes after, es = before ++ .apdu bytes :: after →
      ((start L nd).run L env before).prompt = none) (screens : List Screen)
    (hp : ((start L nd).run L env es).prompt = some screens) (which : ℕ)
    (hwhich : which < screens.length) :
    (∀ b, (((start L nd).run L env es).switchScreen L screens which b).1 = .ok ()) ∧
      (¬ screens[which].value.Long → ∀ b,
        (((start L nd).run L env es).switchScreen L screens which b).2.Shows
          ((start L nd).run L env es).nvram screens[which]) ∧
      (WithinBuffers (((start L nd).run L env es).switchScreen L screens which) ↔
        ¬ screens[which].value.Long) := by
  have hpresents := (presentable_of_run hquiet hp).presents which hwhich
  exact ⟨hpresents.ok, hpresents.shows, hpresents.withinBuffers_iff⟩

open Machine in
/-- The last screen of the prompt for a public key. -/
theorem prompt_within_iff_pubkey : ∃ screens,
    ((start Overlay.memory {}).run Overlay.memory Env.reference
      [.apdu (requestPubkey 44)]).prompt = some screens ∧
    WithinBuffers (((start Overlay.memory {}).run Overlay.memory Env.reference
      [.apdu (requestPubkey 44)]).switchScreen Overlay.memory screens 1) := by
  have hsome : ((start Overlay.memory {}).run Overlay.memory Env.reference
      [.apdu (requestPubkey 44)]).prompt.any (fun screens =>
        (screens[1]?).any fun screen => screen.value =
          .sighashAddress (generateLockArgForPubkey Env.reference basePoint)) = true := by
    decide +kernel
  obtain ⟨screens, hp, hscreen⟩ := (Option.any_eq_true _ _).1 hsome
  obtain ⟨screen, hget, hvalue⟩ := (Option.any_eq_true _ _).1 hscreen
  obtain ⟨hlt, rfl⟩ := List.getElem?_eq_some_iff.1 hget
  refine ⟨screens, hp, (prompt_within_iff Overlay.memory Env.reference {}
    [.apdu (requestPubkey 44)] (fun before bytes after h => by rw [(eq_of_singleton h).1]; rfl)
    screens hp 1 hlt).2.2.2 ?_⟩
  rw [of_decide_eq_true hvalue]
  exact not_false

end LedgerNervos
