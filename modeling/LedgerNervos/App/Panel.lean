import LedgerNervos.App.Prompts

/-!
# The buttons

The device has two buttons.  A flow is a sequence of steps: a press of the right button goes on to
the next one, a press of the left button back to the last one, and both buttons together choose
what is on the screen.  The flow of a prompt has a step for each of its screens, and behind them
one to reject and one to accept.

`Panel.step` lets the device take a request or a press of the buttons.  For the application, a run
of the device is a run of its own (`Panel.run_machine`), and the buffers always hold the screen that
is shown (`Panel.Sound.run`).
-/

namespace LedgerNervos

variable {U : Type}

/-- A press of the buttons.  A step may have several pages; `next` and `previous` are the presses
that leave it. -/
inductive Press where
  | next
  | previous
  | both
deriving DecidableEq, Repr

/-- What can happen to the device. -/
inductive PanelEvent where
  | apdu (bytes : List UInt8)
  | press (press : Press)
deriving DecidableEq, Repr

/-- The menus: `ux_idle_flow` and `ux_cfg_flow`. -/
inductive Menu where
  | idle
  | cfg
deriving DecidableEq, Repr

/-- The texts of the settings in the menu, which are kept with the settings. -/
structure MenuTexts where
  networkPrompt : List Char
  signHashPrompt : List Char
  contractDataPrompt : List Char
deriving DecidableEq, Repr

/-- `N_data` -/
structure NvramImage where
  initialized : Bool
  data : NvramData
  texts : MenuTexts
deriving DecidableEq, Repr

/-- The settings that `app_main` finds: the first time, it writes the defaults. -/
def NvramImage.prepare (nv : NvramImage) : NvramImage :=
  if nv.initialized then nv
  else ⟨true, ⟨.mainnet, .off, .disallow⟩, ⟨"mainnet".toList, "Off".toList, "Off".toList⟩⟩

/-- The device between two events. -/
structure Panel (U : Type) where
  machine : Machine U
  /-- The menu, which is on the screen while there is no prompt. -/
  menu : Menu := .idle
  /-- The step of the flow: its index in `ux_prompts_flow`, or in the flow of the menu. -/
  position : ℕ := 0
  /-- `G.prompt.offset`: where the flow of the prompt begins. -/
  offset : ℕ := 0
  buffers : ScreenBuffers
  texts : MenuTexts
  /-- The application has been left in the menu. -/
  quit : Bool := false

/-- `ui_prompt_debug`: all screens, one after the other, up to an exception. -/
def uiPromptDebug (switch : ℕ → ScreenBuffers → Except Exn Unit × ScreenBuffers) (count : ℕ)
    (b : ScreenBuffers) : Except Exn Unit × ScreenBuffers :=
  (List.range count).foldl (fun r i => match r with
    | (.ok (), b) => switch i b
    | (.error x, b) => (.error x, b)) (.ok (), b)

namespace Panel

variable (L : Overlay U) (env : Env)

/-- The first step of the flow on the screen. -/
def first (p : Panel U) : ℕ := if p.machine.prompt.isSome then p.offset else 0

/-- The last step of the flow on the screen.  In `ux_prompts_flow`, the steps to reject and to
accept follow those for the screens. -/
def last (p : Panel U) : ℕ :=
  if p.machine.prompt.isSome then maxScreenCount + 1
  else match p.menu with
    | .idle => 2
    | .cfg => 3

/-- A step comes on the screen.  The one for a screen of a prompt calls `switch_screen` before, and
there an exception is not caught. -/
def enter (p : Panel U) (position : ℕ) : Panel U :=
  match p.machine.prompt with
  | none => { p with position := position }
  | some screens =>
    if position < maxScreenCount then
      match p.machine.switchScreen L screens (position - p.offset) p.buffers with
      | (.ok (), b) => { p with position := position, buffers := b }
      | (.error _, b) =>
        { p with position := position, buffers := b, machine.exited := true }
    else { p with position := position }

/-- `ui_prompt` and `ui_prompt_with_cb`, for a prompt that is put up in the state `m`: the screens
are made once, and then the flow is shown from its first step on.  The callbacks are set in
between. -/
def ask (p : Panel U) (m : Machine U) (screens : List Screen) : Panel U × List Reply :=
  let offset := maxScreenCount - screens.length
  match uiPromptDebug (m.switchScreen L screens) screens.length p.buffers with
  | (.ok (), b) =>
    ({ p with machine := m, offset := offset, buffers := b }.enter L offset, [])
  | (.error x, b) =>
    let (m, rs) := { m with
      okCallback := p.machine.okCallback, cxlCallback := p.machine.cxlCallback,
      prompt := p.machine.prompt }.fail L x
    ({ p with machine := m, offset := offset, buffers := b }, rs)

/-- A request.  One that is left without a reply has put up a prompt, unless the application has
ended. -/
def onApdu (p : Panel U) (bytes : List UInt8) : Panel U × List Reply :=
  let (m, rs) := p.machine.step L env (.apdu bytes)
  match m.prompt, rs, m.exited with
  | some screens, [], false => p.ask L m screens
  | _, _, _ => ({ p with machine := m }, rs)

/-- `prompt_response`, which goes back to the menu. -/
def respond (p : Panel U) (e : Event) : Panel U × List Reply :=
  let (m, rs) := p.machine.step L env e
  ({ p with machine := m, menu := .idle, position := 0 }, rs)

/-- A setting is changed, and its entry of the menu is shown again. -/
def change (p : Panel U) (e : Event) (texts : MenuTexts) : Panel U × List Reply :=
  let (m, rs) := p.machine.step L env e
  ({ p with machine := m, texts := texts }, rs)

/-- `switch_network_cb` -/
def switchNetworkCb (p : Panel U) : Panel U × List Reply :=
  let isMain : Bool := p.machine.nvram.addressType = .mainnet
  p.change L env .switchNetwork
    { p.texts with networkPrompt := (if isMain then "testnet" else "mainnet").toList }

/-- `switch_sign_hash_cb` -/
def switchSignHashCb (p : Panel U) : Panel U × List Reply :=
  let isOn : Bool := p.machine.nvram.signHashType = .on
  p.change L env .switchSignHash
    { p.texts with signHashPrompt := (if isOn then "Off" else "On").toList }

/-- `switch_contract_data_cb` -/
def switchContractDataCb (p : Panel U) : Panel U × List Reply :=
  let isOn : Bool := p.machine.nvram.contractDataType = .allow
  p.change L env .switchContractData
    { p.texts with contractDataPrompt := (if isOn then "Off" else "On").toList }

/-- Both buttons: what is on the screen is chosen. -/
def choose (p : Panel U) : Panel U × List Reply :=
  if p.machine.prompt.isSome then
    if p.position = maxScreenCount then p.respond L env .reject
    else if p.position = maxScreenCount + 1 then p.respond L env .accept
    else (p, [])
  else match p.menu with
    | .idle =>
      if p.position = 1 then ({ p with menu := .cfg, position := 0 }, [])
      else if p.position = 2 then ({ p with quit := true }, [])
      else (p, [])
    | .cfg =>
      if p.position = 0 then p.switchNetworkCb L env
      else if p.position = 1 then p.switchSignHashCb L env
      else if p.position = 2 then p.switchContractDataCb L env
      else if p.position = 3 then ({ p with menu := .idle, position := 0 }, [])
      else (p, [])

/-- One event. -/
def step (p : Panel U) (e : PanelEvent) : Panel U × List Reply :=
  if p.quit ∨ p.machine.exited then (p, [])
  else match e with
    | .apdu bytes => p.onApdu L env bytes
    | .press .next => if p.position < p.last then (p.enter L (p.position + 1), []) else (p, [])
    | .press .previous =>
      if p.first < p.position then (p.enter L (p.position - 1), []) else (p, [])
    | .press .both => p.choose L env

/-- The device after some events. -/
def run (p : Panel U) (es : List PanelEvent) : Panel U :=
  es.foldl (fun p e => (p.step L env e).1) p

/-- The device as the application starts: `init_globals`, `ui_initial_screen` and `app_main`. -/
def start (nv : NvramImage) : Panel U where
  machine := Machine.start L nv.prepare.data
  buffers := ⟨⟨fun _ => nul, 0⟩, ⟨fun _ => nul, 0⟩⟩
  texts := nv.prepare.texts

end Panel

/-! ### What is on the screen -/

namespace Panel

variable {L : Overlay U} {env : Env} {p : Panel U} {screens : List Screen} {e : PanelEvent}

/-- The device asks the user: the flow of the prompt is on the screen, and at a step for one of its
screens the buffers hold the texts of this screen. -/
structure Asks (L : Overlay U) (p : Panel U) (screens : List Screen) : Prop where
  prompt : p.machine.prompt = some screens
  presentable : p.machine.Presentable L screens
  offset : p.offset + screens.length = maxScreenCount
  first_le : p.offset ≤ p.position
  le_last : p.position ≤ maxScreenCount + 1
  shows : ∀ i, (hi : i < screens.length) → p.position = p.offset + i →
    ¬ screens[i].value.Long → p.buffers.Shows p.machine.nvram screens[i]

/-- While there is a prompt, the device asks for it. -/
def Sound (L : Overlay U) (p : Panel U) : Prop :=
  ∀ screens, p.machine.prompt = some screens → p.Asks L screens

theorem sound_of_prompt_none (h : p.machine.prompt = none) : p.Sound L := by
  intro screens hp
  rw [h] at hp
  cases hp

/-- A step of the flow comes on the screen. -/
theorem asks_enter (hprompt : p.machine.prompt = some screens)
    (hpresentable : p.machine.Presentable L screens)
    (hoffset : p.offset + screens.length = maxScreenCount) {position : ℕ}
    (hfirst : p.offset ≤ position) (hlast : position ≤ maxScreenCount + 1) :
    (p.enter L position).Asks L screens ∧ (p.enter L position).machine = p.machine ∧
      (p.enter L position).offset = p.offset ∧ (p.enter L position).position = position := by
  unfold enter
  rw [hprompt]
  dsimp only
  by_cases hscreen : position < maxScreenCount
  · have hwhich : position - p.offset < screens.length := by omega
    have hpresents := hpresentable.presents _ hwhich
    have hcb : p.machine.switchScreen L screens (position - p.offset) p.buffers =
        (.ok (), (p.machine.switchScreen L screens (position - p.offset) p.buffers).2) :=
      Prod.ext (hpresents.ok p.buffers) rfl
    rw [if_pos hscreen, hcb]
    refine ⟨⟨hprompt, hpresentable, hoffset, hfirst, hlast, fun i hi hat hlong => ?_⟩,
      rfl, rfl, rfl⟩
    have hat' : position = p.offset + i := hat
    obtain rfl : i = position - p.offset := by omega
    exact hpresents.shows hlong p.buffers
  · rw [if_neg hscreen]
    refine ⟨⟨hprompt, hpresentable, hoffset, hfirst, hlast, fun i hi hat => ?_⟩, rfl, rfl, rfl⟩
    have hat' : position = p.offset + i := hat
    omega

theorem uiPromptDebug_ok {switch : ℕ → ScreenBuffers → Except Exn Unit × ScreenBuffers}
    {count : ℕ} (h : ∀ i < count, ∀ b, (switch i b).1 = .ok ()) (b : ScreenBuffers) :
    (uiPromptDebug switch count b).1 = .ok () := by
  unfold uiPromptDebug
  induction count with
  | zero => rfl
  | succ n ih =>
    have hn := ih fun i hi => h i (Nat.lt_succ_of_lt hi)
    rw [List.range_succ, List.foldl_append, List.foldl_cons, List.foldl_nil]
    generalize (List.range n).foldl _ _ = r at hn ⊢
    obtain ⟨r, b'⟩ := r
    obtain rfl : r = .ok () := hn
    exact h n (Nat.lt_succ_self n) b'

/-- A prompt is put up: its flow is shown from the first step on. -/
theorem ask_spec {m : Machine U} (hprompt : m.prompt = some screens)
    (hpresentable : m.Presentable L screens) :
    (p.ask L m screens).2 = [] ∧ (p.ask L m screens).1.Asks L screens ∧
      (p.ask L m screens).1.machine = m ∧
      (p.ask L m screens).1.position = (p.ask L m screens).1.offset := by
  have hdebug := uiPromptDebug_ok (fun i hi b => (hpresentable.presents i hi).ok b) p.buffers
  have hcount := hpresentable.count
  have heq : uiPromptDebug (m.switchScreen L screens) screens.length p.buffers =
      (.ok (), (uiPromptDebug (m.switchScreen L screens) screens.length p.buffers).2) :=
    Prod.ext hdebug rfl
  unfold ask
  dsimp only
  rw [heq]
  dsimp only
  generalize hq : ({ p with
    machine := m, offset := maxScreenCount - screens.length,
    buffers := (uiPromptDebug (m.switchScreen L screens) screens.length p.buffers).2 } :
      Panel U) = q
  obtain ⟨hm, ho⟩ : q.machine = m ∧ q.offset = maxScreenCount - screens.length := by
    rw [← hq]
    exact ⟨rfl, rfl⟩
  obtain ⟨hasks, hmachine, hoffset, hposition⟩ := asks_enter (L := L) (p := q) (hm ▸ hprompt)
    (hm ▸ hpresentable) (by omega) ho.le (by omega : maxScreenCount - screens.length ≤ _)
  exact ⟨rfl, hasks, hmachine.trans hm, by rw [hposition, hoffset, ho]⟩

/-! ### One event -/

/-- What an event of the device is for the application. -/
def events (p : Panel U) : PanelEvent → List Event
  | .apdu bytes => if p.quit then [] else [.apdu bytes]
  | .press .both =>
    if p.quit then []
    else if p.machine.prompt.isSome then
      if p.position = maxScreenCount then [.reject]
      else if p.position = maxScreenCount + 1 then [.accept]
      else []
    else match p.menu with
      | .idle => []
      | .cfg =>
        if p.position = 0 then [.switchNetwork]
        else if p.position = 1 then [.switchSignHash]
        else if p.position = 2 then [.switchContractData]
        else []
  | .press _ => []

/-- The machine after some events, and all replies. -/
def machineRun (L : Overlay U) (env : Env) (m : Machine U) (es : List Event) :
    Machine U × List Reply :=
  es.foldl (fun r e => ((r.1.step L env e).1, r.2 ++ (r.1.step L env e).2)) (m, [])

/-- What an event comes to: for the application, it is what `events` says, and the screen is right
after it. -/
structure Stepped (L : Overlay U) (env : Env) (p : Panel U) (e : PanelEvent)
    (r : Panel U × List Reply) : Prop where
  machine : (r.1.machine, r.2) = machineRun L env p.machine (p.events e)
  sound : r.1.Sound L

theorem machineRun_nil (m : Machine U) : machineRun L env m [] = (m, []) := rfl

theorem machineRun_singleton (m : Machine U) (e : Event) :
    machineRun L env m [e] = m.step L env e := rfl

theorem Asks.sound (h : p.Asks L screens) : p.Sound L := by
  intro screens' hp
  rw [h.prompt] at hp
  exact Option.some.inj hp ▸ h

/-- Once it has ended, the application takes no event. -/
theorem machineRun_of_exited {m : Machine U} (h : m.exited = true) (es : List Event) :
    machineRun L env m es = (m, []) := by
  induction es using List.reverseRecOn with
  | nil => rfl
  | append_singleton es e ih =>
    have hstep : m.step L env e = (m, []) := by
      unfold Machine.step
      rw [if_pos h]
    rw [machineRun, List.foldl_append, ← machineRun, ih, List.foldl_cons, List.foldl_nil, hstep]
    rfl

/-- A request that arrives while no prompt is on the screen: it puts up a prompt, or it does not. -/
theorem onApdu_cases (L : Overlay U) (env : Env) (hrunning : p.machine.exited = false)
    (hnone : p.machine.prompt = none) (bytes : List UInt8) :
    (∃ screens, (p.machine.step L env (.apdu bytes)).1.prompt = some screens ∧
      (p.machine.step L env (.apdu bytes)).1.Presentable L screens ∧
      (p.machine.step L env (.apdu bytes)).2 = [] ∧
      p.onApdu L env bytes = p.ask L (p.machine.step L env (.apdu bytes)).1 screens) ∨
    (p.machine.step L env (.apdu bytes)).1.prompt = none ∧
      p.onApdu L env bytes = ({ p with machine := (p.machine.step L env (.apdu bytes)).1 },
        (p.machine.step L env (.apdu bytes)).2) := by
  by_cases hasked : (p.machine.step L env (.apdu bytes)).1.prompt.isSome = true
  · obtain ⟨screens, hp⟩ := Option.isSome_iff_exists.1 hasked
    have hpresentable := Machine.presentable_of_asked hnone hp
    obtain ⟨-, prompt, u, io, -, -, -, hstep⟩ := Machine.onApdu_asked hnone hasked
    refine .inl ⟨screens, hp, hpresentable, by rw [hstep], ?_⟩
    unfold onApdu
    rw [hstep] at hp ⊢
    dsimp only at hp ⊢
    rw [hp, hrunning]
  · have hp := Option.not_isSome_iff_eq_none.1 hasked
    refine .inr ⟨hp, ?_⟩
    unfold onApdu
    dsimp only
    rw [hp]

theorem stepped_onApdu (hquit : p.quit = false) (hrunning : p.machine.exited = false)
    (hnone : p.machine.prompt = none) {bytes : List UInt8} :
    p.Stepped L env (.apdu bytes) (p.onApdu L env bytes) := by
  have hevents : p.events (.apdu bytes) = [.apdu bytes] := by
    rw [events, hquit]
    rfl
  obtain ⟨screens, hp, hpresentable, hstep, heq⟩ | ⟨hp, heq⟩ :=
    onApdu_cases L env hrunning hnone bytes
  · obtain ⟨hreplies, hasks, hmachine, -⟩ := ask_spec (p := p) hp hpresentable
    rw [heq]
    refine ⟨?_, hasks.sound⟩
    rw [hevents, machineRun_singleton]
    exact Prod.ext hmachine (hreplies.trans hstep.symm)
  · rw [heq]
    refine ⟨?_, sound_of_prompt_none hp⟩
    rw [hevents, machineRun_singleton]

/-- An event after which no prompt is on the screen. -/
theorem stepped_of_prompt_none {e : PanelEvent} {r : Panel U × List Reply} {es : List Event}
    (hevents : p.events e = es) (hmachine : (r.1.machine, r.2) = machineRun L env p.machine es)
    (hnone : r.1.machine.prompt = none) : p.Stepped L env e r :=
  ⟨hevents ▸ hmachine, sound_of_prompt_none hnone⟩

/-- After the user's answer no prompt is on the screen. -/
theorem prompt_answered {m : Machine U} (hrunning : m.exited = false) {e : Event}
    (he : e = .accept ∨ e = .reject) : (m.step L env e).1.prompt = none := by
  have hresponse (accepted : Bool) : (m.promptResponse L env accepted).1.prompt = none := by
    unfold Machine.promptResponse
    dsimp only
    split <;> rfl
  have hnot : ¬ m.exited = true := by
    rw [hrunning]
    decide
  by_cases hp : m.prompt.isSome = true
  · obtain rfl | rfl := he
    · unfold Machine.step
      rw [if_neg hnot]
      dsimp only
      rw [if_pos hp]
      exact hresponse true
    · unfold Machine.step
      rw [if_neg hnot]
      dsimp only
      rw [if_pos hp]
      exact hresponse false
  · by_contra hsome
    have hnotApdu : ∀ b, e ≠ .apdu b := by
      rintro b rfl
      obtain he | he := he <;> cases he
    have hsame := Machine.step_of_prompt hnotApdu (Option.isSome_iff_ne_none.2 hsome)
    rw [hsame] at hsome
    exact hsome (Option.not_isSome_iff_eq_none.1 hp)

/-- Both buttons, while a prompt is on the screen. -/
theorem stepped_choose_prompt (hquit : p.quit = false) (hrunning : p.machine.exited = false)
    (hsound : p.Sound L) (hp : p.machine.prompt.isSome = true) :
    p.Stepped L env (.press .both) (p.choose L env) := by
  have hevents : p.events (.press .both) = if p.position = maxScreenCount then [.reject]
      else if p.position = maxScreenCount + 1 then [.accept] else [] := by
    simp only [events, hquit, hp, Bool.false_eq_true, if_false, if_true]
  unfold choose
  rw [if_pos hp]
  by_cases hreject : p.position = maxScreenCount
  · rw [if_pos hreject] at hevents ⊢
    exact stepped_of_prompt_none hevents rfl (prompt_answered hrunning (.inr rfl))
  · rw [if_neg hreject] at hevents ⊢
    by_cases haccept : p.position = maxScreenCount + 1
    · rw [if_pos haccept] at hevents ⊢
      exact stepped_of_prompt_none hevents rfl (prompt_answered hrunning (.inl rfl))
    · rw [if_neg haccept] at hevents ⊢
      refine ⟨?_, hsound⟩
      rw [hevents]
      rfl

/-- Both buttons, in a menu. -/
theorem stepped_choose_menu (hquit : p.quit = false) (hnone : p.machine.prompt = none) :
    p.Stepped L env (.press .both) (p.choose L env) := by
  -- in a menu, no event of the user puts up a prompt
  have hstays {e : Event} (he : ∀ b, e ≠ .apdu b) : (p.machine.step L env e).1.prompt = none := by
    by_contra hsome
    have hsame := Machine.step_of_prompt he (Option.isSome_iff_ne_none.2 hsome)
    rw [hsame] at hsome
    exact hsome hnone
  have hp : ¬ p.machine.prompt.isSome = true := by
    rw [hnone]
    decide
  cases hmenu : p.menu with
  | idle =>
    have hevents : p.events (.press .both) = [] := by
      simp only [events, hquit, Bool.false_eq_true, if_false, if_neg hp, hmenu]
    unfold choose
    rw [if_neg hp, hmenu]
    dsimp only
    split_ifs
    · exact stepped_of_prompt_none hevents rfl hnone
    · exact stepped_of_prompt_none hevents rfl hnone
    · exact stepped_of_prompt_none hevents rfl hnone
  | cfg =>
    have hevents : p.events (.press .both) =
        if p.position = 0 then [.switchNetwork]
        else if p.position = 1 then [.switchSignHash]
        else if p.position = 2 then [.switchContractData]
        else [] := by
      simp only [events, hquit, Bool.false_eq_true, if_false, if_neg hp, hmenu]
    unfold choose
    rw [if_neg hp, hmenu]
    dsimp only
    split_ifs at hevents ⊢
    · exact stepped_of_prompt_none hevents rfl (hstays (e := .switchNetwork) (by simp))
    · exact stepped_of_prompt_none hevents rfl (hstays (e := .switchSignHash) (by simp))
    · exact stepped_of_prompt_none hevents rfl (hstays (e := .switchContractData) (by simp))
    · exact stepped_of_prompt_none hevents rfl hnone
    · exact stepped_of_prompt_none hevents rfl hnone

/-- A press that goes to a step of the flow. -/
theorem stepped_enter (hsound : p.Sound L) {x : Press} (hx : x ≠ .both) {position : ℕ}
    (hrange : ∀ screens, p.machine.prompt = some screens →
      p.offset ≤ position ∧ position ≤ maxScreenCount + 1) :
    p.Stepped L env (.press x) (p.enter L position, []) := by
  have hevents : p.events (.press x) = [] := by
    cases x with
    | both => exact absurd rfl hx
    | next | previous => rfl
  cases hp : p.machine.prompt with
  | none =>
    have henter : p.enter L position = { p with position := position } := by
      unfold enter
      rw [hp]
    rw [henter]
    exact stepped_of_prompt_none hevents rfl hp
  | some screens =>
    have hasks := hsound screens hp
    obtain ⟨hfirst, hlast⟩ := hrange screens hp
    obtain ⟨hentered, hmachine, -⟩ :=
      asks_enter hp hasks.presentable hasks.offset hfirst hlast
    refine ⟨?_, hentered.sound⟩
    rw [hevents, machineRun_nil, hmachine]

/-- Where nothing happens. -/
theorem stepped_self {e : PanelEvent} (hevents : p.events e = []) (hsound : p.Sound L) :
    p.Stepped L env e (p, []) := by
  refine ⟨?_, hsound⟩
  rw [hevents, machineRun_nil]

/-- **One event.**  For the application, it is what `events` says, if no prompt is on the screen
when a request arrives. -/
theorem step_spec (env : Env) (hsound : p.Sound L) {e : PanelEvent}
    (hquiet : ∀ bytes, e = .apdu bytes → p.machine.prompt = none) :
    p.Stepped L env e (p.step L env e) := by
  by_cases hover : p.quit = true ∨ p.machine.exited = true
  · unfold step
    rw [if_pos hover]
    obtain hquit | hexited := hover
    · refine stepped_self ?_ hsound
      cases e with
      | apdu bytes => exact if_pos hquit
      | press x =>
        cases x with
        | both => exact if_pos hquit
        | next | previous => rfl
    · refine ⟨?_, hsound⟩
      rw [machineRun_of_exited hexited]
  · obtain ⟨hquit, hrunning⟩ := not_or.1 hover
    rw [Bool.not_eq_true] at hquit hrunning
    unfold step
    rw [if_neg hover]
    cases e with
    | apdu bytes => exact stepped_onApdu hquit hrunning (hquiet bytes rfl)
    | press x =>
      cases x with
      | both =>
        by_cases hp : p.machine.prompt.isSome = true
        · exact stepped_choose_prompt hquit hrunning hsound hp
        · exact stepped_choose_menu hquit (Option.not_isSome_iff_eq_none.1 hp)
      | next =>
        dsimp only
        split_ifs with hlt
        · refine stepped_enter hsound (by decide) fun screens hp => ?_
          have hasks := hsound screens hp
          rw [last, hp] at hlt
          exact ⟨Nat.le_succ_of_le hasks.first_le, hlt⟩
        · exact stepped_self rfl hsound
      | previous =>
        dsimp only
        split_ifs with hlt
        · refine stepped_enter hsound (by decide) fun screens hp => ?_
          have hasks := hsound screens hp
          rw [first, hp] at hlt
          exact ⟨Nat.le_sub_one_of_lt hlt, (Nat.sub_le ..).trans hasks.le_last⟩
        · exact stepped_self rfl hsound

/-! ### Runs -/

/-- No request arrives while a prompt is on the screen. -/
def Quiet (L : Overlay U) (env : Env) (p : Panel U) (es : List PanelEvent) : Prop :=
  ∀ before bytes after, es = before ++ .apdu bytes :: after →
    (p.run L env before).machine.prompt = none

theorem run_append (es es' : List PanelEvent) :
    p.run L env (es ++ es') = (p.run L env es).run L env es' := by
  simp [run]

theorem run_snoc (es : List PanelEvent) (e : PanelEvent) :
    p.run L env (es ++ [e]) = ((p.run L env es).step L env e).1 := by
  rw [run_append]
  rfl

theorem Quiet.prefix {es es' : List PanelEvent} (h : p.Quiet L env (es ++ es')) :
    p.Quiet L env es := by
  intro before bytes after heq
  exact h before bytes (after ++ es') (by simp [heq])

theorem Quiet.snoc {es : List PanelEvent} {e : PanelEvent} (h : p.Quiet L env (es ++ [e]))
    (bytes : List UInt8) (he : e = .apdu bytes) : (p.run L env es).machine.prompt = none := by
  subst he
  exact h es bytes [] rfl

/-- A request, and presses after it. -/
theorem quiet_request (h₀ : p.machine.prompt = none) (bytes : List UInt8) (xs : List Press) :
    p.Quiet L env (.apdu bytes :: xs.map .press) := by
  intro before bytes' after heq
  cases before with
  | nil => exact h₀
  | cons e before =>
    obtain ⟨-, heq⟩ := List.cons.inj heq
    have hmem : PanelEvent.apdu bytes' ∈ xs.map PanelEvent.press := by simp [heq]
    simp at hmem

/-- The screen is right in the whole run. -/
theorem Sound.run (hsound : p.Sound L) {es : List PanelEvent} (hquiet : p.Quiet L env es) :
    (p.run L env es).Sound L := by
  induction es using List.reverseRecOn with
  | nil => exact hsound
  | append_singleton es e ih =>
    rw [run_snoc]
    exact (step_spec env (ih hquiet.prefix) hquiet.snoc).sound

/-- What the events of a run are for the application. -/
def trace (L : Overlay U) (env : Env) (p : Panel U) (es : List PanelEvent) : List Event :=
  match es with
  | [] => []
  | e :: es => p.events e ++ trace L env (p.step L env e).1 es

/-- All replies of a run. -/
def replies (L : Overlay U) (env : Env) (p : Panel U) (es : List PanelEvent) : List Reply :=
  match es with
  | [] => []
  | e :: es => (p.step L env e).2 ++ replies L env (p.step L env e).1 es

theorem machineRun_append (m : Machine U) (es es' : List Event) :
    machineRun L env m (es ++ es') =
      ((machineRun L env (machineRun L env m es).1 es').1,
        (machineRun L env m es).2 ++ (machineRun L env (machineRun L env m es).1 es').2) := by
  induction es' using List.reverseRecOn with
  | nil => simp [machineRun_nil]
  | append_singleton es' e ih =>
    have hsnoc (m : Machine U) (es : List Event) : machineRun L env m (es ++ [e]) =
        (((machineRun L env m es).1.step L env e).1,
          (machineRun L env m es).2 ++ ((machineRun L env m es).1.step L env e).2) := by
      simp [machineRun]
    rw [← List.append_assoc, hsnoc, ih, hsnoc, List.append_assoc]

theorem machineRun_fst (m : Machine U) (es : List Event) :
    (machineRun L env m es).1 = m.run L env es := by
  induction es using List.reverseRecOn with
  | nil => rfl
  | append_singleton es e ih =>
    rw [machineRun_append, ih, Machine.run_append, machineRun_singleton]
    rfl

/-- A run of the device is a run of the application, with the same replies. -/
theorem run_machine (hsound : p.Sound L) {es : List PanelEvent} (hquiet : p.Quiet L env es) :
    ((p.run L env es).machine, p.replies L env es) =
      machineRun L env p.machine (p.trace L env es) := by
  induction es generalizing p with
  | nil => rfl
  | cons e es ih =>
    have hstep := step_spec env hsound (e := e)
      fun bytes he => hquiet [] bytes es (by rw [he]; rfl)
    have hrest : (p.step L env e).1.Quiet L env es := by
      intro before bytes after heq
      exact hquiet (e :: before) bytes after (by rw [heq]; rfl)
    have htail := ih hstep.sound hrest
    have hhead := hstep.machine
    rw [trace, machineRun_append, ← hhead, ← htail]
    rfl

theorem trace_snoc (es : List PanelEvent) (e : PanelEvent) :
    p.trace L env (es ++ [e]) = p.trace L env es ++ (p.run L env es).events e := by
  induction es generalizing p with
  | nil =>
    rw [List.nil_append, trace, trace, trace, List.append_nil]
    rfl
  | cons e' es ih =>
    rw [List.cons_append, trace, trace, ih, List.append_assoc]
    rfl

/-- A press is no request for the application, and one event at most. -/
theorem events_press (x : Press) : p.events (.press x) = [] ∨
    ∃ e, (∀ b, e ≠ Event.apdu b) ∧ p.events (.press x) = [e] := by
  cases x with
  | next | previous => exact .inl rfl
  | both =>
    unfold events
    dsimp only
    by_cases hquit : p.quit = true
    · exact .inl (if_pos hquit)
    rw [if_neg hquit]
    by_cases hp : p.machine.prompt.isSome = true
    · rw [if_pos hp]
      split_ifs
      · exact .inr ⟨.reject, by simp, rfl⟩
      · exact .inr ⟨.accept, by simp, rfl⟩
      · exact .inl rfl
    · rw [if_neg hp]
      cases p.menu with
      | idle => exact .inl rfl
      | cfg =>
        dsimp only
        split_ifs
        · exact .inr ⟨.switchNetwork, by simp, rfl⟩
        · exact .inr ⟨.switchSignHash, by simp, rfl⟩
        · exact .inr ⟨.switchContractData, by simp, rfl⟩
        · exact .inl rfl

/-- For the application, no request arrives while a prompt is on the screen either. -/
theorem quiet_trace (hsound : p.Sound L) {es : List PanelEvent} (hquiet : p.Quiet L env es) :
    ∀ before bytes after, p.trace L env es = before ++ .apdu bytes :: after →
      (p.machine.run L env before).prompt = none := by
  induction es using List.reverseRecOn with
  | nil =>
    intro before bytes after heq
    rw [trace] at heq
    simp at heq
  | append_singleton es e ih =>
    intro before bytes after heq
    have hearlier := ih hquiet.prefix
    rw [trace_snoc] at heq
    have hone : (p.run L env es).events e = [] ∨
        ∃ x, (p.run L env es).events e = [x] ∧ (x = .apdu bytes → e = .apdu bytes) := by
      cases e with
      | apdu b =>
        by_cases hquit : (p.run L env es).quit = true
        · exact .inl (if_pos hquit)
        · exact .inr ⟨.apdu b, if_neg hquit, fun hx => by rw [Event.apdu.inj hx]⟩
      | press x =>
        obtain hnil | ⟨y, hy, hone⟩ := (p.run L env es).events_press x
        · exact .inl hnil
        · exact .inr ⟨y, hone, fun hx => absurd hx (hy bytes)⟩
    obtain hnil | ⟨x, hx, happdu⟩ := hone
    · rw [hnil, List.append_nil] at heq
      exact hearlier before bytes after heq
    · rw [hx] at heq
      cases after using List.reverseRecOn with
      | nil =>
        -- the request is the last event, and the device has taken it in the same state
        obtain ⟨htrace, hlast⟩ := List.append_inj' heq rfl
        have hmachine := congrArg Prod.fst (run_machine hsound hquiet.prefix)
        rw [← htrace, ← machineRun_fst, ← hmachine]
        exact hquiet.snoc bytes (happdu (List.cons.inj hlast).1)
      | append_singleton after y =>
        rw [← List.cons_append, ← List.append_assoc] at heq
        exact hearlier before bytes after (List.append_inj' heq rfl).1

end Panel

open Panel in
/-- **Refinement.**  When no request arrives while a prompt is on the screen, a run of the device is
a run of the application with the same replies, in which no request arrives while a prompt is on
the screen; and while one is, the buffers hold the screen that the flow is at, unless it is too
long. -/
theorem device_refines (L : Overlay U) (env : Env) (nv : NvramImage) (es : List PanelEvent)
    (hquiet : (start L nv).Quiet L env es) :
    ((start L nv).run L env es).machine = (Machine.start L nv.prepare.data).run L env
        ((start L nv).trace L env es) ∧
      (start L nv).replies L env es = (machineRun L env (Machine.start L nv.prepare.data)
        ((start L nv).trace L env es)).2 ∧
      (∀ before bytes after, (start L nv).trace L env es = before ++ .apdu bytes :: after →
        ((Machine.start L nv.prepare.data).run L env before).prompt = none) ∧
      ∀ screens, ((start L nv).run L env es).machine.prompt = some screens →
        ((start L nv).run L env es).Asks L screens := by
  have hsound : (start L nv).Sound L := sound_of_prompt_none rfl
  have hrun := run_machine hsound hquiet
  refine ⟨?_, congrArg Prod.snd hrun, quiet_trace hsound hquiet, hsound.run hquiet⟩
  rw [← machineRun_fst]
  exact congrArg Prod.fst hrun

open Panel in
/-- A public key is asked for, and the user looks at the next screen. -/
theorem device_refines_pubkey : ∃ screens,
    ((start Overlay.memory ⟨false, {}, ⟨[], [], []⟩⟩).run Overlay.memory Env.reference
      (.apdu (requestPubkey 44) :: [.next].map .press)).Asks Overlay.memory screens := by
  have hprompt : ((start Overlay.memory ⟨false, {}, ⟨[], [], []⟩⟩).run Overlay.memory Env.reference
      (.apdu (requestPubkey 44) :: [.next].map .press)).machine.prompt.isSome = true := by
    decide +kernel
  obtain ⟨screens, hp⟩ := Option.isSome_iff_exists.1 hprompt
  exact ⟨screens, (device_refines Overlay.memory Env.reference ⟨false, {}, ⟨[], [], []⟩⟩ _
    (quiet_request rfl (requestPubkey 44) [.next])).2.2.2 screens hp⟩

end LedgerNervos
