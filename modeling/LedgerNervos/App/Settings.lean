import LedgerNervos.App.Panel

/-!
# The settings in the menu

The texts of the settings are kept beside the settings themselves, and both are changed by the same
entries of the menu.  Whatever happens, the menu shows the settings that the handlers use
(`menu_shows_settings`).
-/

namespace LedgerNervos

variable {U : Type}

/-- The texts for the settings. -/
def MenuTexts.of (nd : NvramData) : MenuTexts where
  networkPrompt := match nd.addressType with
    | .mainnet => "mainnet".toList
    | .testnet => "testnet".toList
  signHashPrompt := match nd.signHashType with
    | .on => "On".toList
    | .off => "Off".toList
  contractDataPrompt := match nd.contractDataType with
    | .allow => "On".toList
    | .disallow => "Off".toList

/-- Where there are settings, the texts are those for them. -/
def NvramImage.Consistent (nv : NvramImage) : Prop :=
  nv.initialized = true → nv.texts = .of nv.data

namespace Machine

variable {L : Overlay U} {env : Env} {m : Machine U}

theorem nvram_fail (x : Exn) : (m.fail L x).1.nvram = m.nvram := by
  cases x <;> rfl

theorem nvram_callHandler (instruction p1 : UInt8) (cdata : List UInt8) :
    (m.callHandler L env instruction p1 cdata).1.nvram = m.nvram := by
  unfold callHandler
  cases m.runHandler L env instruction p1 cdata with
  | error y => exact nvram_fail y.1
  | ok y =>
    obtain ⟨a, u, io⟩ := y
    cases a <;> rfl

/-- A request leaves the settings as they are. -/
theorem nvram_onApdu (bytes : List UInt8) : (m.onApdu L env bytes).1.nvram = m.nvram := by
  unfold onApdu
  dsimp only
  match bytes with
  | [] => exact nvram_fail _
  | [_] | [_, _] | [_, _, _] | [_, _, _, _] =>
    dsimp only
    split_ifs <;> exact nvram_fail _
  | cla :: instruction :: p1 :: p2 :: lc :: cdata =>
    dsimp only
    split_ifs
    · exact nvram_fail _
    · exact nvram_fail _
    · exact nvram_callHandler ..

/-- So does the user's answer. -/
theorem nvram_promptResponse (accepted : Bool) :
    (m.promptResponse L env accepted).1.nvram = m.nvram := by
  unfold promptResponse
  dsimp only
  split <;> rfl

/-- The settings are only changed in the menu. -/
theorem nvram_step {e : Event}
    (he : e ≠ .switchNetwork ∧ e ≠ .switchSignHash ∧ e ≠ .switchContractData) :
    (m.step L env e).1.nvram = m.nvram := by
  obtain ⟨hnetwork, hhash, hdata⟩ := he
  unfold step
  by_cases hexited : m.exited = true
  · rw [if_pos hexited]
  rw [if_neg hexited]
  cases e with
  | apdu bytes => exact nvram_onApdu bytes
  | accept | reject =>
    dsimp only
    split_ifs
    · exact nvram_promptResponse _
    · rfl
  | switchNetwork => exact absurd rfl hnetwork
  | switchSignHash => exact absurd rfl hhash
  | switchContractData => exact absurd rfl hdata

end Machine

namespace Panel

variable {L : Overlay U} {env : Env} {p : Panel U}

/-- The texts are those for the settings that the application uses. -/
def Labelled (p : Panel U) : Prop := p.texts = .of p.machine.nvram

theorem labelled_enter (h : p.Labelled) (position : ℕ) : (p.enter L position).Labelled := by
  unfold enter
  split
  · exact h
  · split_ifs
    · split
      · exact h
      · exact h
    · exact h

theorem labelled_ask (h : p.Labelled) {m : Machine U} (hm : m.nvram = p.machine.nvram)
    (screens : List Screen) : (p.ask L m screens).1.Labelled := by
  have htexts : p.texts = .of m.nvram := by
    rw [hm]
    exact h
  unfold ask
  dsimp only
  split
  · refine labelled_enter ?_ _
    exact htexts
  · unfold Labelled
    dsimp only
    rw [Machine.nvram_fail]
    exact htexts

theorem labelled_onApdu (h : p.Labelled) (bytes : List UInt8) :
    (p.onApdu L env bytes).1.Labelled := by
  have hm : (p.machine.step L env (.apdu bytes)).1.nvram = p.machine.nvram :=
    Machine.nvram_step (by simp)
  unfold onApdu
  dsimp only
  split
  · exact labelled_ask h hm _
  · exact h.trans (congrArg MenuTexts.of hm.symm)

/-- In the menu, the application takes the change of a setting. -/
theorem labelled_switch (L : Overlay U) (env : Env) (h : p.Labelled)
    (hrunning : p.machine.exited = false)
    (hnone : p.machine.prompt = none) : (p.switchNetworkCb L env).1.Labelled ∧
      (p.switchSignHashCb L env).1.Labelled ∧ (p.switchContractDataCb L env).1.Labelled := by
  have hnot : ¬ p.machine.exited = true := by
    rw [hrunning]
    decide
  have hp : ¬ p.machine.prompt.isSome = true := by
    rw [hnone]
    decide
  unfold Labelled at h
  refine ⟨?_, ?_, ?_⟩
  · simp only [Labelled, switchNetworkCb, change, Machine.step, if_neg hnot, if_neg hp, h]
    cases hnetwork : p.machine.nvram.addressType <;> simp [MenuTexts.of]
  · simp only [Labelled, switchSignHashCb, change, Machine.step, if_neg hnot, if_neg hp, h]
    cases hhash : p.machine.nvram.signHashType <;> simp [MenuTexts.of]
  · simp only [Labelled, switchContractDataCb, change, Machine.step, if_neg hnot, if_neg hp, h]
    cases hdata : p.machine.nvram.contractDataType <;> simp [MenuTexts.of]

theorem labelled_choose (h : p.Labelled) (hrunning : p.machine.exited = false) :
    (p.choose L env).1.Labelled := by
  have hrespond {e : Event}
      (he : e ≠ .switchNetwork ∧ e ≠ .switchSignHash ∧ e ≠ .switchContractData) :
      (p.respond L env e).1.Labelled :=
    h.trans (congrArg MenuTexts.of (Machine.nvram_step he).symm)
  unfold choose
  by_cases hp : p.machine.prompt.isSome = true
  · rw [if_pos hp]
    split_ifs
    · exact hrespond (by simp)
    · exact hrespond (by simp)
    · exact h
  · obtain ⟨hnetwork, hhash, hdata⟩ := labelled_switch L env h hrunning
      (Option.not_isSome_iff_eq_none.1 hp)
    rw [if_neg hp]
    cases hmenu : p.menu with
    | idle =>
      dsimp only
      split_ifs <;> exact h
    | cfg =>
      dsimp only
      split_ifs
      · exact hnetwork
      · exact hhash
      · exact hdata
      · exact h
      · exact h

/-- Every event keeps the texts right. -/
theorem labelled_step (h : p.Labelled) (e : PanelEvent) : (p.step L env e).1.Labelled := by
  unfold step
  by_cases hover : p.quit = true ∨ p.machine.exited = true
  · rw [if_pos hover]
    exact h
  · have hrunning := Bool.not_eq_true _ ▸ (not_or.1 hover).2
    rw [if_neg hover]
    cases e with
    | apdu bytes => exact labelled_onApdu h bytes
    | press x =>
      cases x with
      | next | previous =>
        dsimp only
        split_ifs
        · exact labelled_enter h _
        · exact h
      | both => exact labelled_choose h hrunning

theorem labelled_run (h : p.Labelled) (es : List PanelEvent) : (p.run L env es).Labelled := by
  induction es using List.reverseRecOn with
  | nil => exact h
  | append_singleton es e ih =>
    rw [run_snoc]
    exact labelled_step ih e

theorem labelled_start {nv : NvramImage} (h : nv.Consistent) : (start L nv).Labelled := by
  change nv.prepare.texts = .of nv.prepare.data
  unfold NvramImage.prepare
  split_ifs with hinitialized
  · exact h hinitialized
  · rfl

/-- What is left in the memory for the next start. -/
def nvramImage (p : Panel U) : NvramImage := ⟨true, p.machine.nvram, p.texts⟩

end Panel

open Panel in
/-- **The settings in the menu.**  Whatever requests and presses there are, the menu shows the
settings that the handlers use, if it did so when the application was last left, or if there were
no settings then; and so what is left for the next start is right again. -/
theorem menu_shows_settings (L : Overlay U) (env : Env) (nv : NvramImage) (h : nv.Consistent)
    (es : List PanelEvent) :
    ((start L nv).run L env es).texts = .of ((start L nv).run L env es).machine.nvram ∧
      ((start L nv).run L env es).nvramImage.Consistent :=
  ⟨labelled_run (labelled_start h) es, fun _ => labelled_run (labelled_start h) es⟩

open Panel in
/-- On a new device, the user goes to the settings and changes the first one. -/
theorem menu_shows_settings_testnet :
    ((start Overlay.memory ⟨false, {}, ⟨[], [], []⟩⟩).run Overlay.memory Env.reference
      [.press .next, .press .both, .press .both]).texts =
        .of ⟨.testnet, .off, .disallow⟩ := by
  have htexts := (menu_shows_settings Overlay.memory Env.reference ⟨false, {}, ⟨[], [], []⟩⟩
    (fun hbad => absurd hbad Bool.false_ne_true)
    [.press .next, .press .both, .press .both]).1
  exact htexts

end LedgerNervos
