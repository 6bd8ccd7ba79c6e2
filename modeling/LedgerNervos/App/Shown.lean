import LedgerNervos.App.Panel

/-!
# What has been shown

A press goes on by one step of the flow at most, and the accepting step of a prompt comes last.  So
a signature or a public key is only sent after each screen of the prompt has been shown
(`reply_after_all_shown`).
-/

namespace LedgerNervos

variable {U : Type}

namespace Panel

variable {L : Overlay U} {env : Env} {p : Panel U} {screens : List Screen} {e : PanelEvent}

/-! ### The way to the accepting step -/

theorem enter_fields (position : ℕ) :
    (p.enter L position).offset = p.offset ∧ (p.enter L position).position = position := by
  unfold enter
  split
  · exact ⟨rfl, rfl⟩
  · split_ifs
    · split
      · exact ⟨rfl, rfl⟩
      · exact ⟨rfl, rfl⟩
    · exact ⟨rfl, rfl⟩

theorem choose_fields : (p.choose L env).1.offset = p.offset ∧
    (p.choose L env).1.position ≤ p.position + 1 := by
  unfold choose
  by_cases hp : p.machine.prompt.isSome = true
  · rw [if_pos hp]
    split_ifs
    · exact ⟨rfl, Nat.zero_le _⟩
    · exact ⟨rfl, Nat.zero_le _⟩
    · exact ⟨rfl, Nat.le_succ _⟩
  · rw [if_neg hp]
    cases hmenu : p.menu with
    | idle =>
      dsimp only
      split_ifs
      · exact ⟨rfl, Nat.zero_le _⟩
      · exact ⟨rfl, Nat.le_succ _⟩
      · exact ⟨rfl, Nat.le_succ _⟩
    | cfg =>
      dsimp only
      split_ifs
      · exact ⟨rfl, Nat.le_succ _⟩
      · exact ⟨rfl, Nat.le_succ _⟩
      · exact ⟨rfl, Nat.le_succ _⟩
      · exact ⟨rfl, Nat.zero_le _⟩
      · exact ⟨rfl, Nat.le_succ _⟩

/-- A press goes on by one step at most. -/
theorem step_press_fields (L : Overlay U) (env : Env) (p : Panel U) (x : Press) :
    (p.step L env (.press x)).1.offset = p.offset ∧
      (p.step L env (.press x)).1.position ≤ p.position + 1 := by
  have hself : p.offset = p.offset ∧ p.position ≤ p.position + 1 := ⟨rfl, Nat.le_succ _⟩
  unfold step
  by_cases hover : p.quit = true ∨ p.machine.exited = true
  · rw [if_pos hover]
    exact hself
  · rw [if_neg hover]
    cases x with
    | next =>
      by_cases hlt : p.position < p.last
      · dsimp only
        rw [if_pos hlt]
        obtain ⟨hoffset, hposition⟩ := p.enter_fields (L := L) (p.position + 1)
        exact ⟨hoffset, hposition.le⟩
      · dsimp only
        rw [if_neg hlt]
        exact hself
    | previous =>
      by_cases hlt : p.first < p.position
      · dsimp only
        rw [if_pos hlt]
        obtain ⟨hoffset, hposition⟩ := p.enter_fields (L := L) (p.position - 1)
        exact ⟨hoffset, hposition.trans_le (by omega)⟩
      · dsimp only
        rw [if_neg hlt]
        exact hself
    | both => exact choose_fields

/-- While a prompt stays on the screen, the presses do nothing to the application. -/
theorem step_press_machine (hsound : p.Sound L) {x : Press}
    (hp : (p.step L env (.press x)).1.machine.prompt.isSome = true) :
    (p.step L env (.press x)).1.machine = p.machine := by
  have hstep := (step_spec env hsound (e := .press x) (by simp)).machine
  obtain hnil | ⟨e, he, hone⟩ := p.events_press x
  · rw [hnil] at hstep
    exact congrArg Prod.fst hstep
  · rw [hone, machineRun_singleton] at hstep
    have hmachine := congrArg Prod.fst hstep
    dsimp only at hmachine
    rw [hmachine] at hp ⊢
    exact Machine.step_of_prompt he hp

theorem quiet_presses (L : Overlay U) (env : Env) (p : Panel U) (xs : List Press) :
    p.Quiet L env (xs.map .press) := by
  intro before bytes after heq
  have hmem : PanelEvent.apdu bytes ∈ xs.map PanelEvent.press := by simp [heq]
  simp at hmem

/-- On the way to a step of the flow, each step before it has been on the screen. -/
theorem exists_at (hsound : p.Sound L) {xs : List Press}
    (hp : (p.run L env (xs.map .press)).machine.prompt.isSome = true) {i : ℕ}
    (hfirst : p.position ≤ i) (hlast : i ≤ (p.run L env (xs.map .press)).position) :
    ∃ seen rest, xs = seen ++ rest ∧ (p.run L env (seen.map .press)).position = i ∧
      (p.run L env (seen.map .press)).machine = (p.run L env (xs.map .press)).machine := by
  induction xs using List.reverseRecOn with
  | nil => exact ⟨[], [], rfl, Nat.le_antisymm hfirst hlast, rfl⟩
  | append_singleton xs x ih =>
    have hrun : p.run L env ((xs ++ [x]).map .press) =
        ((p.run L env (xs.map .press)).step L env (.press x)).1 := by
      rw [List.map_append]
      exact run_snoc _ _
    rw [hrun] at hp hlast ⊢
    have hsame := step_press_machine (hsound.run (quiet_presses L env _ xs)) hp
    obtain ⟨-, hposition⟩ := step_press_fields L env (p.run L env (xs.map .press)) x
    rw [hsame] at hp
    by_cases hi : i ≤ (p.run L env (xs.map .press)).position
    · obtain ⟨seen, rest, rfl, hat, hmachine⟩ := ih hp hi
      exact ⟨seen, rest ++ [x], by simp, hat, hmachine.trans hsame.symm⟩
    · refine ⟨xs ++ [x], [], by simp, ?_, by rw [hrun]⟩
      rw [hrun]
      omega

theorem offset_run_presses (xs : List Press) : (p.run L env (xs.map .press)).offset = p.offset := by
  induction xs using List.reverseRecOn with
  | nil => rfl
  | append_singleton xs x ih =>
    rw [List.map_append, List.map_singleton, run_snoc, (step_press_fields L env _ x).1, ih]

/-- A prompt that is on the screen has been put up by the most recent request, and there have only
been presses since. -/
theorem run_asked {p₀ : Panel U} (h₀ : p₀.machine.prompt = none) {es : List PanelEvent}
    (hquiet : p₀.Quiet L env es) (hp : (p₀.run L env es).machine.prompt.isSome = true) :
    ∃ before bytes, ∃ xs : List Press, es = before ++ .apdu bytes :: xs.map .press ∧
      (p₀.run L env (before ++ [.apdu bytes])).machine.prompt.isSome = true ∧
      (p₀.run L env (before ++ [.apdu bytes])).position =
        (p₀.run L env (before ++ [.apdu bytes])).offset := by
  induction es using List.reverseRecOn with
  | nil =>
    change p₀.machine.prompt.isSome = true at hp
    rw [h₀] at hp
    cases hp
  | append_singleton es e ih =>
    cases e with
    | apdu bytes =>
      refine ⟨es, bytes, [], rfl, hp, ?_⟩
      have hnone := hquiet.snoc bytes rfl
      rw [run_snoc] at hp ⊢
      unfold step at hp ⊢
      by_cases hover : (p₀.run L env es).quit = true ∨ (p₀.run L env es).machine.exited = true
      · rw [if_pos hover] at hp
        rw [hnone] at hp
        cases hp
      · rw [if_neg hover] at hp ⊢
        obtain ⟨-, hrunning⟩ := not_or.1 hover
        obtain ⟨screens, hscreens, hpresentable, -, heq⟩ | ⟨hbad, heq⟩ :=
          onApdu_cases L env (Bool.not_eq_true _ ▸ hrunning) hnone bytes
        · dsimp only
          rw [heq]
          exact (ask_spec hscreens hpresentable).2.2.2
        · dsimp only at hp
          rw [heq] at hp
          dsimp only at hp
          rw [hbad] at hp
          cases hp
    | press x =>
      have hsound := (sound_of_prompt_none (L := L) h₀).run hquiet.prefix
      rw [run_snoc] at hp
      rw [step_press_machine hsound hp] at hp
      obtain ⟨before, bytes, xs, rfl, hasked⟩ := ih hquiet.prefix hp
      exact ⟨before, bytes, xs ++ [x], by simp, hasked⟩

/-! ### Sensitive replies -/

/-- The user's refusal gives nothing sensitive away. -/
theorem not_sensitive_reject {m : Machine U} {r : Reply} (hr : r ∈ (m.step L env .reject).2) :
    ¬ r.Sensitive := by
  unfold Machine.step at hr
  split_ifs at hr with hexited hp
  · cases hr
  · unfold Machine.promptResponse Machine.callCxl at hr
    cases hc : m.cxlCallback <;> simp [hc, Machine.send] at hr
    all_goals
      subst hr
      simp [statusReply, Reply.Sensitive]
  · cases hr

theorem replies_switch {m : Machine U} {e : Event}
    (he : e = .switchNetwork ∨ e = .switchSignHash ∨ e = .switchContractData) :
    (m.step L env e).2 = [] := by
  unfold Machine.step
  obtain rfl | rfl | rfl := he
  all_goals
    dsimp only
    split_ifs <;> rfl

/-- With both buttons, a signature or a public key is only sent at the accepting step. -/
theorem accepting_of_choose {r : Reply} (hr : r ∈ (p.choose L env).2) (hsens : r.Sensitive) :
    p.machine.prompt.isSome = true ∧ p.position = maxScreenCount + 1 ∧
      r ∈ (p.machine.step L env .accept).2 := by
  unfold choose at hr
  by_cases hp : p.machine.prompt.isSome = true
  · rw [if_pos hp] at hr
    by_cases hreject : p.position = maxScreenCount
    · rw [if_pos hreject] at hr
      exact absurd hsens (not_sensitive_reject hr)
    · rw [if_neg hreject] at hr
      by_cases haccept : p.position = maxScreenCount + 1
      · rw [if_pos haccept] at hr
        exact ⟨hp, haccept, hr⟩
      · rw [if_neg haccept] at hr
        cases hr
  · have hswitch {e : Event} {texts : MenuTexts}
        (he : e = .switchNetwork ∨ e = .switchSignHash ∨ e = .switchContractData) :
        r ∉ (p.change L env e texts).2 := by
      have hnil : (p.change L env e texts).2 = [] := replies_switch he
      rw [hnil]
      exact List.not_mem_nil
    rw [if_neg hp] at hr
    cases hmenu : p.menu with
    | idle =>
      rw [hmenu] at hr
      dsimp only at hr
      split_ifs at hr <;> cases hr
    | cfg =>
      rw [hmenu] at hr
      dsimp only at hr
      split_ifs at hr
      · exact absurd hr (hswitch (.inl rfl))
      · exact absurd hr (hswitch (.inr (.inl rfl)))
      · exact absurd hr (hswitch (.inr (.inr rfl)))
      · cases hr
      · cases hr

/-- A signature or a public key is only sent at the accepting step. -/
theorem accepting_of_sensitive (hnone : ∀ bytes, e = .apdu bytes → p.machine.prompt = none)
    (hin : ∀ bytes i, e = .apdu bytes → dispatched bytes = some i → InTable i) {r : Reply}
    (hr : r ∈ (p.step L env e).2) (hsens : r.Sensitive) :
    e = .press .both ∧ p.machine.prompt.isSome = true ∧ p.position = maxScreenCount + 1 ∧
      r ∈ (p.machine.step L env .accept).2 := by
  unfold step at hr
  by_cases hover : p.quit = true ∨ p.machine.exited = true
  · rw [if_pos hover] at hr
    cases hr
  rw [if_neg hover] at hr
  have hrunning := (not_or.1 hover).2
  cases e with
  | apdu bytes =>
    dsimp only at hr
    obtain ⟨screens, hscreens, hpresentable, -, heq⟩ | ⟨-, heq⟩ := onApdu_cases L
      env (Bool.not_eq_true _ ▸ hrunning) (hnone bytes rfl) bytes
    · rw [heq, (ask_spec hscreens hpresentable).1] at hr
      cases hr
    · rw [heq] at hr
      unfold Machine.step at hr
      dsimp only at hr
      rw [if_neg hrunning] at hr
      exact absurd hsens
        ((Machine.guarded_onApdu fun i hi => hin bytes i rfl hi).replies r hr)
  | press x =>
    cases x with
    | next | previous =>
      dsimp only at hr
      split_ifs at hr <;> cases hr
    | both => exact ⟨rfl, accepting_of_choose hr hsens⟩

/-- At the accepting step, each screen of the prompt has been shown since the request. -/
theorem all_shown {p₀ : Panel U} (h₀ : p₀.machine.prompt = none) {es : List PanelEvent}
    (hquiet : p₀.Quiet L env es) (hp : (p₀.run L env es).machine.prompt = some screens)
    (hat : (p₀.run L env es).position = maxScreenCount + 1)
    (hshort : ∀ screen ∈ screens, ¬ screen.value.Long) :
    ∃ before bytes, ∃ xs : List Press, es = before ++ .apdu bytes :: xs.map .press ∧
      ∀ i, (hi : i < screens.length) → ∃ seen rest, xs = seen ++ rest ∧
        (p₀.run L env (before ++ .apdu bytes :: seen.map .press)).machine =
          (p₀.run L env es).machine ∧
        (p₀.run L env (before ++ .apdu bytes :: seen.map .press)).buffers.Shows
          (p₀.run L env es).machine.nvram screens[i] := by
  have hsound := sound_of_prompt_none (L := L) h₀
  have hsome : (p₀.run L env es).machine.prompt.isSome = true := by
    rw [hp]
    rfl
  obtain ⟨before, bytes, xs, rfl, hasked, hstart⟩ := run_asked h₀ hquiet hsome
  refine ⟨before, bytes, xs, rfl, fun i hi => ?_⟩
  have hsplit (ys : List Press) : before ++ PanelEvent.apdu bytes :: ys.map .press =
      (before ++ [.apdu bytes]) ++ ys.map .press := by simp
  have hquiet₁ : p₀.Quiet L env (before ++ [.apdu bytes]) := by
    rw [hsplit] at hquiet
    exact hquiet.prefix
  set q := p₀.run L env (before ++ [.apdu bytes]) with hq
  have hrun (ys : List Press) : p₀.run L env (before ++ PanelEvent.apdu bytes :: ys.map .press) =
      q.run L env (ys.map .press) := by
    rw [hsplit, run_append]
  have hsound₁ : q.Sound L := hsound.run hquiet₁
  simp only [hrun] at hp hat hsome ⊢
  have hasks := (hsound₁.run (quiet_presses L env _ xs)) screens hp
  have hoffset : (q.run L env (xs.map .press)).offset = q.offset := offset_run_presses xs
  have hcount := hasks.offset
  obtain ⟨seen, rest, rfl, hposition, hmachine⟩ := exists_at hsound₁ hsome
    (i := q.offset + i) (by omega) (by omega)
  have hp' := hp
  rw [← hmachine] at hp'
  have hasks' := (hsound₁.run (quiet_presses L env _ seen)) screens hp'
  have hat' : (q.run L env (seen.map .press)).position =
      (q.run L env (seen.map .press)).offset + i := by
    rw [hposition, offset_run_presses]
  refine ⟨seen, rest, rfl, hmachine, ?_⟩
  have hshows := hasks'.shows i hi hat' (hshort _ (List.getElem_mem hi))
  rwa [hmachine] at hshows

end Panel

open Panel in
/-- **What has been shown.**  When every instruction byte that is dispatched selects an entry of the
table or the error handler, and no request arrives while a prompt is on the screen, a signature or
a public key is only sent when both buttons are pressed at the accepting step.  Unless a screen is
too long, each screen of the prompt has been in the buffers since the request that has put it up,
and the application has not changed since. -/
theorem reply_after_all_shown (L : Overlay U) (env : Env) (nv : NvramImage) (es : List PanelEvent)
    (e : PanelEvent) (hquiet : (start L nv).Quiet L env (es ++ [e]))
    (hin : ∀ bytes i, .apdu bytes ∈ es ++ [e] → dispatched bytes = some i → InTable i) (r : Reply)
    (hr : r ∈ (((start L nv).run L env es).step L env e).2) (hsens : r.Sensitive) :
    e = .press .both ∧ r ∈ (((start L nv).run L env es).machine.step L env .accept).2 ∧
      ∃ screens, ((start L nv).run L env es).machine.prompt = some screens ∧
        ((∀ screen ∈ screens, ¬ screen.value.Long) →
          ∃ before bytes, ∃ xs : List Press, es = before ++ .apdu bytes :: xs.map .press ∧
            ∀ i, (hi : i < screens.length) → ∃ seen rest, xs = seen ++ rest ∧
              ((start L nv).run L env (before ++ .apdu bytes :: seen.map .press)).machine =
                ((start L nv).run L env es).machine ∧
              ((start L nv).run L env (before ++ .apdu bytes :: seen.map .press)).buffers.Shows
                ((start L nv).run L env es).machine.nvram screens[i]) := by
  obtain ⟨rfl, hprompt, hat, hr'⟩ := accepting_of_sensitive
    (fun bytes he => hquiet.snoc bytes he) (fun bytes i he => hin bytes i (by simp [he])) hr hsens
  obtain ⟨screens, hp⟩ := Option.isSome_iff_exists.1 hprompt
  exact ⟨rfl, hr', screens, hp, all_shown rfl hquiet.prefix hp hat⟩

open Panel in
/-- A public key is asked for, and the user goes through the prompt and accepts. -/
theorem reply_after_all_shown_pubkey :
    ∃ screens, ((start Overlay.memory ⟨false, {}, ⟨[], [], []⟩⟩).run Overlay.memory Env.reference
      (.apdu (requestPubkey 44) :: [.next, .next, .next].map .press)).machine.prompt =
        some screens := by
  have hreply : (⟨.publicKey, 65 :: basePoint.1 ++ [0x90, 0x00]⟩ : Reply) ∈
      (((start Overlay.memory ⟨false, {}, ⟨[], [], []⟩⟩).run Overlay.memory Env.reference
        (.apdu (requestPubkey 44) :: [.next, .next, .next].map .press)).step Overlay.memory
          Env.reference (.press .both)).2 := by
    decide +kernel
  obtain ⟨-, -, screens, hp, -⟩ := reply_after_all_shown Overlay.memory Env.reference _ _ _
    (quiet_request rfl (requestPubkey 44) [.next, .next, .next, .both]) (by
      intro bytes i hmem hi
      obtain rfl : bytes = requestPubkey 44 := by simpa using hmem
      cases hi
      decide) _ hreply (.inr rfl)
  exact ⟨screens, hp⟩

end LedgerNervos
