import LedgerNervos.App.Errors

/-!
# The dialog with the host

The host sends a request and waits for the reply; some replies wait for the user.  `Dialog` is what
this looks like from outside, and `dialog_kept` says that the application keeps to it: as long as
the host waits, each request has one reply, sent at once or when the user has decided, until the
application ends.  When it ends is said by `exited_iff`.

## Main results

* `Machine.step_dialog` : an event is a step of the dialog.
* `dialog_kept` : a run is a dialog, in which replies and requests correspond.
* `exited_iff` : when the application has ended.
-/

namespace LedgerNervos

variable {U : Type}

/-! ### The dialog -/

/-- What the host is waiting for. -/
inductive Dialog where
  /-- Nothing: it can send a request. -/
  | ready
  /-- The reply to this request, which the user decides on. -/
  | asking (request : List UInt8)
  /-- The application has ended. -/
  | ended
deriving DecidableEq

/-- An event, with the replies that are sent in it. -/
abbrev Exchange := Event × List Reply

namespace Dialog

/-- A step of the dialog. -/
inductive Step : Dialog → Exchange → Dialog → Prop
  /-- A request is replied to at once. -/
  | answered (b : List UInt8) (r : Reply) (h : r.Success ∨ r.Failure) :
    Step ready (.apdu b, [r]) ready
  /-- The user is asked. -/
  | asked (b : List UInt8) : Step ready (.apdu b, []) (asking b)
  | accepted (b : List UInt8) (r : Reply) (h : r.Success) : Step (asking b) (.accept, [r]) ready
  | rejected (b : List UInt8) (r : Reply) (h : r.bytes = [0x69, 0x85]) :
    Step (asking b) (.reject, [r]) ready
  /-- Nothing is asked for. -/
  | idle (d : Dialog) (e : Event) (h : ∀ b, e ≠ .apdu b) : Step d (e, []) d
  /-- The application has ended, before or in this event. -/
  | fell (d : Dialog) (e : Event) : Step d (e, []) ended

/-- The number of requests without a reply. -/
def pending : Dialog → ℕ
  | ready | ended => 0
  | asking _ => 1

end Dialog

/-- The requests among some exchanges. -/
def requests (xs : List Exchange) : List (List UInt8) :=
  xs.filterMap fun x => match x.1 with
    | .apdu b => some b
    | _ => none

/-- The replies among some exchanges. -/
def replies (xs : List Exchange) : List Reply := xs.flatMap Prod.snd

theorem replies_cons (x : Exchange) (xs : List Exchange) :
    (replies (x :: xs)).length = x.2.length + (replies xs).length := by
  rw [replies, List.flatMap_cons, List.length_append]
  rfl

theorem requests_apdu (b : List UInt8) (rs : List Reply) (xs : List Exchange) :
    requests ((.apdu b, rs) :: xs) = b :: requests xs := rfl

theorem requests_other {e : Event} (he : ∀ b, e ≠ .apdu b) (rs : List Reply) (xs : List Exchange) :
    requests ((e, rs) :: xs) = requests xs := by
  cases e with
  | apdu b => exact absurd rfl (he b)
  | _ => rfl

theorem length_requests_le (x : Exchange) (xs : List Exchange) :
    (requests xs).length ≤ (requests (x :: xs)).length :=
  ((List.sublist_cons_self x xs).filterMap _).length_le

/-- In a dialog there are no more replies than requests.  As long as the application has not ended,
the only request without a reply is the one that the user is asked about. -/
theorem Dialog.count {d d' : Dialog} {xs : List Exchange} (h : Runs Dialog.Step d xs d') :
    (replies xs).length ≤ (requests xs).length + d.pending ∧
      (d' ≠ .ended → (replies xs).length + d'.pending = (requests xs).length + d.pending) := by
  have hended {xs : List Exchange} (h : Runs Dialog.Step .ended xs d') : d' = .ended := by
    refine h.invariant (I := fun d => d = .ended) rfl ?_
    rintro d x d' - h rfl
    cases h <;> rfl
  induction h with
  | nil d => exact ⟨Nat.zero_le _, fun _ => rfl⟩
  | @cons d d₁ d' x xs h₁ h ih =>
    obtain ⟨hle, heq⟩ := ih hended
    rw [replies_cons]
    cases h₁ with
    | answered b r hr =>
      rw [requests_apdu, List.length_cons, List.length_cons, List.length_nil]
      refine ⟨by omega, fun hend => ?_⟩
      have := heq hend
      omega
    | asked b =>
      rw [requests_apdu, List.length_cons, List.length_nil]
      refine ⟨?_, fun hend => ?_⟩
      · simp only [pending] at hle ⊢
        omega
      · have := heq hend
        simp only [pending] at this ⊢
        omega
    | accepted b r hr | rejected b r hr =>
      rw [requests_other (by simp), List.length_cons, List.length_nil]
      refine ⟨?_, fun hend => ?_⟩
      · simp only [pending] at hle ⊢
        omega
      · have := heq hend
        simp only [pending] at this ⊢
        omega
    | idle d e he =>
      rw [requests_other he, List.length_nil, Nat.zero_add]
      exact ⟨hle, heq⟩
    | fell d e =>
      refine ⟨?_, fun hend => absurd (hended h) hend⟩
      have hmore := length_requests_le (e, []) xs
      simp only [pending, List.length_nil] at hle ⊢
      omega

/-! ### What the handlers answer -/

/-- A handler has a reply of success, or puts up a prompt with both callbacks. -/
def Answer.Settled : Answer → Prop
  | .reply r => r.Success
  | .prompt p => p.ok ≠ .null ∧ p.cxl ≠ .null
  | .sent _ => False

section

variable {env : Env} {nd : NvramData} {instruction p1 : UInt8} {cdata : List UInt8} {a : Answer}

theorem settled_status : (Answer.reply (finalizeSuccessfulSend .status [])).Settled :=
  success_finalize _ (Nat.zero_le _)

theorem settled_prompt {screens : List Screen} {ok : OkCallback} {cxl : CxlCallback}
    (hok : ok ≠ .null) (hcxl : cxl ≠ .null) : (Answer.prompt ⟨screens, ok, cxl⟩).Settled :=
  ⟨hok, hcxl⟩

theorem PubkeyState.settled_getPublicKey {s s' : PubkeyState}
    (h : s.handleApduGetPublicKey env nd instruction p1 cdata = .ok (a, s')) : a.Settled := by
  unfold handleApduGetPublicKey at h
  split_ifs at h
  simp only [bind_eq_ok_iff, pure, Except.pure, Except.ok.injEq, Prod.mk.injEq] at h
  obtain ⟨_, -, _, -, p, hp, rfl, -⟩ := h
  unfold prompt at hp
  split_ifs at hp <;> simp only [bind_eq_ok_iff, pure, Except.pure, Except.ok.injEq] at hp <;>
    obtain ⟨_, -, rfl⟩ := hp <;> exact settled_prompt (by decide) (by decide)

theorem PubkeyState.settled_accountImport {s s' : PubkeyState}
    (h : s.handleApduAccountImport env nd p1 cdata = .ok (a, s')) : a.Settled := by
  unfold handleApduAccountImport at h
  dsimp only at h
  split_ifs at h
  simp only [bind_eq_ok_iff, pure, Except.pure, Except.ok.injEq, Prod.mk.injEq] at h
  obtain ⟨_, -, _, -, rfl, -⟩ := h
  exact settled_prompt (by decide) (by decide)

theorem ApduSignState.settled_handleApdu {s s' : ApduSignState} {io io' : Io}
    (h : s.handleApdu env nd instruction p1 cdata io = .ok (a, s', io')) : a.Settled := by
  have hanswer {s s' : ApduSignState} {last : Bool} {io io' : Io}
      (h : s.answer nd instruction last io = .ok (a, s', io')) : a.Settled := by
    unfold answer at h
    split_ifs at h
    · split at h
      · cases h
      · rename_i p hp
        cases h
        unfold SignState.signComplete at hp
        split at hp
        · cases hp
        · simp only [bind_eq_ok_iff, pure, Except.pure, Except.ok.injEq] at hp
          obtain ⟨_, -, rfl⟩ := hp
          refine settled_prompt ?_ (by decide)
          split_ifs <;> decide
    · cases h
      exact settled_status
  unfold handleApdu at h
  dsimp only at h
  split_ifs at h
  all_goals
    rw [bind_eq_ok_iff] at h
    obtain ⟨r, -, h⟩ := h
    exact hanswer h

theorem MessageState.settled_handleApdu {s s' : MessageState}
    (h : s.handleApdu env nd p1 cdata = .ok (a, s')) : a.Settled := by
  unfold handleApdu at h
  split_ifs at h
  · simp only [bind_eq_ok_iff, pure, Except.pure, Except.ok.injEq, Prod.mk.injEq] at h
    obtain ⟨_, -, rfl, -⟩ := h
    exact settled_status
  · unfold nextPacket at h
    split_ifs at h <;> rw [bind_eq_ok_iff] at h <;> obtain ⟨_, -, h⟩ := h
    · simp only [complete, bind_eq_ok_iff, pure, Except.pure, Except.ok.injEq,
        Prod.mk.injEq] at h
      obtain ⟨_, -, rfl, -⟩ := h
      exact settled_prompt (by decide) (by decide)
    · cases h
      exact settled_status

theorem MessageHashState.settled_handleApdu {s s' : MessageHashState}
    (h : s.handleApdu nd p1 cdata = .ok (a, s')) : a.Settled := by
  unfold handleApdu at h
  split_ifs at h
  all_goals simp only [bind_eq_ok_iff, pure, Except.pure, Except.ok.injEq, Prod.mk.injEq] at h
  · obtain ⟨_, -, rfl, -⟩ := h
    exact settled_status
  · obtain ⟨_, -, rfl, -⟩ := h
    exact settled_prompt (by decide) (by decide)

end

namespace Machine

variable {L : Overlay U} {env : Env} {m : Machine U} {instruction p1 : UInt8} {cdata : List UInt8}

/-! ### Requests -/

/-- A handler of the table is settled. -/
theorem settled_runHandler (hcommit : env.commit.length ≤ 257) (hi : InTable instruction)
    {a : Answer} {u : U} {io : Io}
    (h : m.runHandler L env instruction p1 cdata = .ok (a, u, io)) : a.Settled := by
  have hnot := (selectHandler_behindTable_iff instruction).not.2 (not_not.2 hi)
  unfold runHandler at h
  dsimp only at h
  split at h
  case h_1 => cases h
  case h_2 =>
    cases h
    exact success_finalize _ (by decide)
  case h_3 =>
    cases h
    refine success_finalize _ ?_
    rw [List.length_append, List.length_singleton]
    omega
  case h_4 =>
    simp only [bind_eq_ok_iff, mapError_eq_ok_iff, handleApduGetWalletId, pure, Except.pure,
      Except.ok.injEq, Prod.mk.injEq] at h
    obtain ⟨_, ⟨_, -, rfl⟩, rfl, -⟩ := h
    exact success_finalize _ (by rw [Bytes.length]; decide)
  case h_5 =>
    simp only [bind_eq_ok_iff, mapError_eq_ok_iff, pure, Except.pure, Except.ok.injEq,
      Prod.mk.injEq] at h
    obtain ⟨_, h, rfl, -⟩ := h
    exact PubkeyState.settled_getPublicKey h
  case h_6 =>
    simp only [bind_eq_ok_iff, mapError_eq_ok_iff, pure, Except.pure, Except.ok.injEq,
      Prod.mk.injEq] at h
    obtain ⟨_, h, rfl, -⟩ := h
    exact PubkeyState.settled_accountImport h
  case h_7 =>
    simp only [bind_eq_ok_iff, pure, Except.pure, Except.ok.injEq, Prod.mk.injEq] at h
    obtain ⟨_, h, rfl, -⟩ := h
    exact ApduSignState.settled_handleApdu h
  case h_8 =>
    simp only [bind_eq_ok_iff, mapError_eq_ok_iff, pure, Except.pure, Except.ok.injEq,
      Prod.mk.injEq] at h
    obtain ⟨_, h, rfl, -⟩ := h
    exact MessageState.settled_handleApdu h
  case h_9 =>
    split_ifs at h
    simp only [bind_eq_ok_iff, mapError_eq_ok_iff, pure, Except.pure, Except.ok.injEq,
      Prod.mk.injEq] at h
    obtain ⟨_, h, rfl, -⟩ := h
    exact MessageHashState.settled_handleApdu h
  case h_10 hs => exact absurd (.inl hs) hnot
  case h_11 hs => exact absurd (.inr (.inl hs)) hnot
  case h_12 hs => exact absurd (.inr (.inr hs)) hnot

/-- The text of a message overruns in this request. -/
def Overruns (L : Overlay U) (m : Machine U) (instruction p1 : UInt8) (cdata : List UInt8) : Prop :=
  selectHandler instruction = .signMessage ∧ (L.getMessage m.union).Overruns p1 cdata

/-- What a handler of the table throws is reported, unless a text overruns. -/
theorem runHandler_error (h : env.Reports) (hi : InTable instruction) {x : Exn} {io : Io}
    (hx : m.runHandler L env instruction p1 cdata = .error (x, io)) :
    x.Reported ∧ ¬ m.Overruns L instruction p1 cdata ∨
      x = .fault ∧ m.Overruns L instruction p1 cdata := by
  obtain ⟨-, -, hins, -, hrejected, -⟩ := reported_constants
  have hnot := (selectHandler_behindTable_iff instruction).not.2 (not_not.2 hi)
  -- the handlers but the one for messages only throw what is reported
  have hother {α : Type} {y : Except Exn α} {f : α → Answer × U × Io} (hy : Throws Exn.Reported y)
      (hs : selectHandler instruction ≠ .signMessage)
      (hx : (y.mapError (fun z => (z, m.io)) >>= fun r => Except.ok (f r)) = .error (x, io)) :
      x.Reported ∧ ¬ m.Overruns L instruction p1 cdata ∨
        x = .fault ∧ m.Overruns L instruction p1 cdata := by
    refine .inl ⟨?_, fun hover => hs hover.1⟩
    cases y with
    | error z =>
      cases hx
      exact hy _ rfl
    | ok r => cases hx
  unfold runHandler at hx
  cases hs : selectHandler instruction <;> rw [hs] at hx <;> dsimp only at hx
  case error =>
    cases hx
    exact .inl ⟨hins, fun hover => absurd (hs.symm.trans hover.1) (by decide)⟩
  case version | git => cases hx
  case getWalletId => exact hother (.bind (h _) fun _ => .ok _) (by rw [hs]; decide) hx
  case getPublicKey => exact hother (h.getPublicKey _ _ _ _ _) (by rw [hs]; decide) hx
  case accountImport => exact hother (h.accountImport _ _ _ _) (by rw [hs]; decide) hx
  case sign =>
    refine .inl ⟨?_, fun hover => absurd (hs.symm.trans hover.1) (by decide)⟩
    cases hsign : (L.getSign m.union).handleApdu env m.nvram instruction p1 cdata m.io with
    | error y =>
      rw [hsign] at hx
      cases hx
      exact h.sign _ _ _ _ _ hsign
    | ok r =>
      rw [hsign] at hx
      cases hx
  case signMessage =>
    obtain ⟨hcases, hfault⟩ :=
      MessageState.handleApdu_error_iff env m.nvram (L.getMessage m.union) p1 cdata
    cases hmessage : (L.getMessage m.union).handleApdu env m.nvram p1 cdata with
    | error y =>
      rw [hmessage] at hx hcases hfault
      cases hx
      obtain hreported | rfl := hcases _ rfl
      · refine .inl ⟨hreported, fun hover => ?_⟩
        rw [Except.error.inj (hfault.2 hover.2)] at hreported
        exact hreported
      · exact .inr ⟨rfl, hs, hfault.1 rfl⟩
    | ok r =>
      rw [hmessage] at hx
      cases hx
  case signMessageHash =>
    split_ifs at hx
    · exact hother (MessageHashState.throws_handleApdu _ _ _ _) (by rw [hs]; decide) hx
    · cases hx
      exact .inl ⟨hrejected, fun hover => absurd (hs.symm.trans hover.1) (by decide)⟩
  case okCallback => exact absurd (.inl hs) hnot
  case cxlCallback => exact absurd (.inr (.inl hs)) hnot
  case other => exact absurd (.inr (.inr hs)) hnot

/-- A text that overruns is not handled. -/
theorem runHandler_overruns (h : m.Overruns L instruction p1 cdata) :
    m.runHandler L env instruction p1 cdata = .error (.fault, m.io) := by
  obtain ⟨hs, hover⟩ := h
  have hfault := (MessageState.handleApdu_error_iff env m.nvram (L.getMessage m.union) p1 cdata).2.2
    hover
  unfold runHandler
  rw [hs]
  dsimp only
  rw [hfault]
  rfl

/-- What a request leads to. -/
inductive Outcome (m : Machine U) : Machine U × List Reply → Prop
  | replied (m' : Machine U) (r : Reply) (hr : r.Success ∨ r.Failure)
    (hprompt : m'.prompt = m.prompt) (hexited : m'.exited = m.exited) : Outcome m (m', [r])
  | asked (m' : Machine U) (hprompt : m'.prompt.isSome = true)
    (hcallbacks : m'.okCallback ≠ .null ∧ m'.cxlCallback ≠ .null)
    (hexited : m'.exited = m.exited) : Outcome m (m', [])
  | ended (m' : Machine U) (hexited : m'.exited = true) : Outcome m (m', [])

theorem outcome_fail (m : Machine U) (io : Io) {x : Exn} (hx : x.Reported) :
    Outcome m (({ m with io := io } : Machine U).fail L x) ∧
      (({ m with io := io } : Machine U).fail L x).1.exited = m.exited := by
  cases x with
  | code sw => exact ⟨.replied _ _ (.inr hx) rfl rfl, rfl⟩
  | fault => exact absurd hx id

/-- A handler of the table replies, or puts up a prompt, or overruns. -/
theorem callHandler_outcome (hcommit : env.commit.length ≤ 257) (h : env.Reports)
    (hi : InTable instruction) (hrunning : m.exited = false) :
    Outcome m (m.callHandler L env instruction p1 cdata) ∧
      ((m.callHandler L env instruction p1 cdata).1.exited = true ↔
        m.Overruns L instruction p1 cdata) := by
  unfold callHandler
  cases hrun : m.runHandler L env instruction p1 cdata with
  | error y =>
    obtain ⟨x, io⟩ := y
    obtain ⟨hreported, hover⟩ | ⟨rfl, hover⟩ := runHandler_error h hi hrun
    · obtain ⟨houtcome, hexited⟩ := outcome_fail (L := L) m io hreported
      exact ⟨houtcome, iff_of_false (by rw [hexited, hrunning]; decide) hover⟩
    · exact ⟨.ended _ rfl, iff_of_true rfl hover⟩
  | ok y =>
    obtain ⟨a, u, io⟩ := y
    have hover : ¬ m.Overruns L instruction p1 cdata := by
      intro hover
      rw [runHandler_overruns hover] at hrun
      cases hrun
    have hsettled := settled_runHandler hcommit hi hrun
    cases a with
    | reply r =>
      refine ⟨.replied _ _ (.inl hsettled) rfl rfl, iff_of_false ?_ hover⟩
      exact fun hexited => absurd (hrunning.symm.trans hexited) (by decide)
    | prompt p =>
      refine ⟨.asked _ rfl hsettled rfl, iff_of_false ?_ hover⟩
      exact fun hexited => absurd (hrunning.symm.trans hexited) (by decide)
    | sent r => exact absurd hsettled id

theorem Outcome.of_io {io : Io} {r : Machine U × List Reply}
    (h : Outcome ({ m with io := io } : Machine U) r) : Outcome m r := by
  cases h with
  | replied m' r hr hprompt hexited => exact .replied m' r hr hprompt hexited
  | asked m' hprompt hcallbacks hexited => exact .asked m' hprompt hcallbacks hexited
  | ended m' hexited => exact .ended m' hexited

/-- A text of a message overruns in the request. -/
def OverrunsIn (L : Overlay U) (m : Machine U) (bytes : List UInt8) : Prop :=
  ∃ r, Owner.request m.nvram bytes = some r ∧ m.Overruns L r.instruction r.p1 r.cdata

/-- What a request leads to whose instruction byte, if it is dispatched, is one of the table. -/
theorem onApdu_outcome (hcommit : env.commit.length ≤ 257) (h : env.Reports) {bytes : List UInt8}
    (hi : ∀ i, dispatched bytes = some i → InTable i) (hrunning : m.exited = false) :
    Outcome m (m.onApdu L env bytes) ∧
      ((m.onApdu L env bytes).1.exited = true ↔ m.OverrunsIn L bytes) := by
  obtain ⟨-, hlength, -, -, -, -, -, hsecurity, hcla, -⟩ := reported_constants
  have hfail {x : Exn} (hx : x.Reported) (hnone : Owner.request m.nvram bytes = none) :
      Outcome m (({ m with io := m.io.write 0 bytes } : Machine U).fail L x) ∧
        ((({ m with io := m.io.write 0 bytes } : Machine U).fail L x).1.exited = true ↔
          m.OverrunsIn L bytes) := by
    obtain ⟨houtcome, hexited⟩ := outcome_fail (L := L) m (m.io.write 0 bytes) hx
    refine ⟨houtcome, iff_of_false (by rw [hexited, hrunning]; decide) ?_⟩
    rintro ⟨r, hr, -⟩
    rw [hnone] at hr
    cases hr
  unfold onApdu
  dsimp only
  match bytes with
  | [] => exact hfail hsecurity rfl
  | [_] | [_, _] | [_, _, _] | [_, _, _, _] =>
    dsimp only
    split_ifs
    · exact hfail hcla rfl
    · exact hfail hlength rfl
  | cla :: instruction :: p1 :: p2 :: lc :: cdata =>
    dsimp only
    split_ifs with hother hwrong
    · refine hfail hcla ?_
      simp only [Owner.request]
      exact if_neg fun hok => hother hok.1
    · refine hfail hlength ?_
      simp only [Owner.request]
      exact if_neg fun hok => hwrong hok.2
    · have hpassed : cla = claNervos ∧ cdata.length = lc.toNat :=
        ⟨not_not.1 hother, not_not.1 hwrong⟩
      have hin : InTable instruction := hi instruction (by
        simp only [dispatched]
        exact if_pos hpassed)
      have hrequest : Owner.request m.nvram (cla :: instruction :: p1 :: p2 :: lc :: cdata) =
          some ⟨m.nvram, instruction, p1, cdata⟩ := by
        simp only [Owner.request]
        exact if_pos hpassed
      obtain ⟨houtcome, hexited⟩ := callHandler_outcome (L := L)
        (m := { m with io := m.io.write 0 (cla :: instruction :: p1 :: p2 :: lc :: cdata) })
        hcommit h hin hrunning
      refine ⟨houtcome.of_io, hexited.trans ?_⟩
      rw [OverrunsIn, hrequest]
      constructor
      · intro hover
        exact ⟨_, rfl, hover⟩
      · rintro ⟨r, hr, hover⟩
        cases hr
        exact hover

/-! ### The decision of the user -/

/-- The path of the key that `ok_callback` signs with, if it signs. -/
def signingPath (L : Overlay U) (m : Machine U) : Option (List UInt32) :=
  match m.okCallback with
  | .signWithoutHashOk | .signWithHashOk =>
    if (L.getSign m.union).g.tx.hashOnly then none else some (L.getSign m.union).g.signPath.used
  | .signMessageOk => some (L.getMessage m.union).key.used
  | .signMessageHashOk => some (L.getMessageHash m.union).key.used
  | .null | .pubkeyOk | .extPubkeyOk | .accountImportOk => none

/-- The key that would sign cannot be derived. -/
def KeyRefused (L : Overlay U) (env : Env) (m : Machine U) : Prop :=
  ∃ path x, m.signingPath L = some path ∧ env.derive path = .error x

/-- A callback that signs: it replies, or the key cannot be derived. -/
def Signs (env : Env) (path : Option (List UInt32)) (x : Except Exn Reply) : Prop :=
  (∃ r, x = .ok r ∧ r.Success ∧ ∀ p y, path = some p → env.derive p ≠ .error y) ∨
    ∃ p y, x = .error y ∧ path = some p ∧ env.derive p = .error y

theorem signs_signWithPath (env : Env) (path : Bip32Path) (data front : List UInt8)
    (hfront : front.length ≤ 32) :
    Signs env (some path.used) (signWithPath env path data >>= fun signature =>
      .ok (finalizeSuccessfulSend .signature (front ++ signature.1))) := by
  unfold signWithPath
  cases hkey : env.derive path.used with
  | error y => exact .inr ⟨_, y, rfl, rfl, hkey⟩
  | ok r =>
    refine .inl ⟨_, rfl, success_finalize _ ?_, ?_⟩
    · rw [List.length_append, Bytes.length]
      omega
    · rintro p y ⟨⟩
      rw [hkey]
      simp

theorem signs_performSignature (env : Env) (sendHash : Bool) (g : SignState) :
    Signs env (if g.tx.hashOnly then none else some g.signPath.used)
      (performSignature env sendHash g) := by
  unfold performSignature
  split_ifs
  · exact .inl ⟨_, rfl, success_finalize _ (by rw [Bytes.length]; decide), by simp⟩
  · exact signs_signWithPath env _ _ _ (by rw [Bytes.length])
  · exact signs_signWithPath env _ _ [] (Nat.zero_le _)

/-- The callback replies, unless the key that signs cannot be derived. -/
theorem callOk_outcome (L : Overlay U) (env : Env) (hok : m.okCallback ≠ .null) :
    (∃ r u, m.callOk L env = .ok (r, u) ∧ r.Success) ∧ ¬ m.KeyRefused L env ∨
      (∃ x, m.callOk L env = .error x) ∧ m.KeyRefused L env := by
  have hsigns {x : Except Exn Reply} {u : U} (hx : Signs env (m.signingPath L) x)
      (heq : m.callOk L env = x >>= fun r => .ok (r, u)) :
      (∃ r u, m.callOk L env = .ok (r, u) ∧ r.Success) ∧ ¬ m.KeyRefused L env ∨
        (∃ x, m.callOk L env = .error x) ∧ m.KeyRefused L env := by
    rw [heq]
    obtain ⟨r, rfl, hr, hkey⟩ | ⟨p, y, rfl, hpath, hkey⟩ := hx
    · refine .inl ⟨⟨r, u, rfl, hr⟩, ?_⟩
      rintro ⟨p, y, hpath, hrefused⟩
      exact hkey p y hpath hrefused
    · exact .inr ⟨⟨y, rfl⟩, p, y, hpath, hkey⟩
  have hsends {r : Reply} {u : U} (hr : r.Success) (heq : m.callOk L env = .ok (r, u))
      (hpath : m.signingPath L = none) :
      (∃ r u, m.callOk L env = .ok (r, u) ∧ r.Success) ∧ ¬ m.KeyRefused L env ∨
        (∃ x, m.callOk L env = .error x) ∧ m.KeyRefused L env := by
    refine .inl ⟨⟨r, u, heq, hr⟩, ?_⟩
    rintro ⟨p, y, hsome, -⟩
    rw [hpath] at hsome
    cases hsome
  have hext (key : ExtendedPublicKey) : (provideExtPubkey key).Success := by
    refine success_finalize _ ?_
    simp only [List.length_cons, List.length_append, Bytes.length]
    decide
  cases hc : m.okCallback with
  | null => exact absurd hc hok
  | signWithoutHashOk =>
    refine hsigns (x := performSignature env false (L.getSign m.union).g) (u := L.zero) ?_ ?_
    · rw [signingPath, hc]
      exact signs_performSignature _ _ _
    · rw [callOk, hc]
      rfl
  | signWithHashOk =>
    refine hsigns (x := performSignature env true (L.getSign m.union).g) (u := L.zero) ?_ ?_
    · rw [signingPath, hc]
      exact signs_performSignature _ _ _
    · rw [callOk, hc]
      rfl
  | signMessageOk =>
    refine hsigns (x := (L.getMessage m.union).performSignature env)
      (u := L.setMessage {} m.union) ?_ ?_
    · rw [signingPath, hc]
      exact signs_signWithPath env _ _ [] (Nat.zero_le _)
    · rw [callOk, hc]
      rfl
  | signMessageHashOk =>
    refine hsigns (x := (L.getMessageHash m.union).performSignature env)
      (u := L.setMessageHash {} m.union) ?_ ?_
    · rw [signingPath, hc]
      exact signs_signWithPath env _ _ [] (Nat.zero_le _)
    · rw [callOk, hc]
      rfl
  | pubkeyOk =>
    refine hsends (r := providePubkey (L.getPubkey m.union).extPublicKey.publicKey) (u := m.union)
      (success_finalize _ ?_) (by rw [callOk, hc]) (by rw [signingPath, hc])
    simp only [List.length_cons, Bytes.length]
    decide
  | extPubkeyOk | accountImportOk =>
    exact hsends (r := provideExtPubkey (L.getPubkey m.union).extPublicKey) (u := m.union) (hext _)
      (by rw [callOk, hc]) (by rw [signingPath, hc])

/-! ### Steps -/

/-- The application is at this point of the dialog. -/
def Stands (m : Machine U) : Dialog → Prop
  | .ready => m.exited = false ∧ m.prompt = none
  | .asking _ => m.exited = false ∧ m.prompt.isSome = true ∧ m.okCallback ≠ .null ∧
    m.cxlCallback ≠ .null
  | .ended => m.exited = true

/-- The application ends in this event. -/
def Ends (L : Overlay U) (env : Env) (m : Machine U) : Event → Prop
  | .apdu bytes => m.OverrunsIn L bytes
  | .accept => m.prompt.isSome = true ∧ m.KeyRefused L env
  | .reject | .switchNetwork | .switchSignHash | .switchContractData => False

/-- The host waits for the reply before it sends another request, and the instruction byte of a
request, if it is dispatched, is one of the table. -/
structure Polite (m : Machine U) (e : Event) : Prop where
  quiet : ∀ bytes, e = .apdu bytes → m.prompt = none
  inTable : ∀ bytes i, e = .apdu bytes → dispatched bytes = some i → InTable i

theorem stands_ended {d : Dialog} (h : m.Stands d) : m.exited = true ↔ d = .ended := by
  cases d with
  | ended => exact iff_of_true h rfl
  | ready => exact iff_of_false (by rw [h.1]; decide) (by simp)
  | asking b => exact iff_of_false (by rw [h.1]; decide) (by simp)

/-- A request is replied to, or the user is asked, or the application ends. -/
theorem step_ready (hcommit : env.commit.length ≤ 257) (h : env.Reports) (hm : m.Stands .ready)
    {bytes : List UInt8} (hpolite : m.Polite (.apdu bytes)) :
    ∃ d, Dialog.Step .ready (.apdu bytes, (m.step L env (.apdu bytes)).2) d ∧
      (m.step L env (.apdu bytes)).1.Stands d ∧ (d = .ended ↔ m.Ends L env (.apdu bytes)) := by
  obtain ⟨hrunning, hprompt⟩ := hm
  obtain ⟨houtcome, hexited⟩ := onApdu_outcome (L := L) hcommit h
    (hpolite.inTable bytes · rfl) hrunning
  have hstep : m.step L env (.apdu bytes) = m.onApdu L env bytes := by
    unfold step
    rw [hrunning, if_neg Bool.false_ne_true]
  rw [hstep]
  have hends : m.Ends L env (.apdu bytes) ↔ (m.onApdu L env bytes).1.exited = true := hexited.symm
  rw [hends]
  generalize m.onApdu L env bytes = r at houtcome
  cases houtcome with
  | replied m' r hr hkept hexited =>
    exact ⟨.ready, .answered bytes r hr, ⟨hexited.trans hrunning, hkept.trans hprompt⟩,
      iff_of_false (by simp) (by rw [hexited, hrunning]; decide)⟩
  | asked m' hasked hcallbacks hexited =>
    exact ⟨.asking bytes, .asked bytes, ⟨hexited.trans hrunning, hasked, hcallbacks⟩,
      iff_of_false (by simp) (by rw [hexited, hrunning]; decide)⟩
  | ended m' hexited => exact ⟨.ended, .fell _ _, hexited, iff_of_true rfl hexited⟩

/-- When the user has decided, there is a reply, or the application ends. -/
theorem step_asking {b : List UInt8} (hm : m.Stands (.asking b)) {e : Event}
    (he : e = .accept ∨ e = .reject) :
    ∃ d, Dialog.Step (.asking b) (e, (m.step L env e).2) d ∧ (m.step L env e).1.Stands d ∧
      (d = .ended ↔ m.Ends L env e) := by
  obtain ⟨hrunning, hprompt, hok, hcxl⟩ := hm
  obtain rfl | rfl := he
  · have hstep : m.step L env .accept = m.promptResponse L env true := by
      unfold step
      dsimp only
      rw [hrunning, if_neg Bool.false_ne_true, if_pos hprompt]
    rw [hstep]
    unfold promptResponse
    dsimp only
    rw [if_pos rfl]
    have hcall : ({ m with prompt := none } : Machine U).callOk L env = m.callOk L env := rfl
    rw [hcall]
    obtain ⟨⟨r, u, heq, hr⟩, hkey⟩ | ⟨⟨x, heq⟩, hkey⟩ := callOk_outcome L env hok
    · rw [heq]
      exact ⟨.ready, .accepted b r hr, ⟨hrunning, rfl⟩,
        iff_of_false (by simp) fun hends => hkey hends.2⟩
    · rw [heq]
      exact ⟨.ended, .fell _ _, rfl, iff_of_true rfl ⟨hprompt, hkey⟩⟩
  · have hstep : m.step L env .reject = m.promptResponse L env false := by
      unfold step
      dsimp only
      rw [hrunning, if_neg Bool.false_ne_true, if_pos hprompt]
    rw [hstep]
    unfold promptResponse
    dsimp only
    rw [if_neg Bool.false_ne_true]
    have hcall : ∃ u, ({ m with prompt := none } : Machine U).callCxl L =
        .ok (statusReply 0x6985, u) := by
      cases hc : m.cxlCallback with
      | null => exact absurd hc hcxl
      | signReject => exact ⟨L.zero, by simp only [callCxl]⟩
      | delayReject => exact ⟨m.union, by simp only [callCxl]⟩
    obtain ⟨u, heq⟩ := hcall
    rw [heq]
    exact ⟨.ready, .rejected b _ (by decide), ⟨hrunning, rfl⟩, iff_of_false (by simp) id⟩

/-- An event is a step of the dialog. -/
theorem step_dialog (hcommit : env.commit.length ≤ 257) (h : env.Reports) {d : Dialog}
    (hm : m.Stands d) {e : Event} (hpolite : m.Polite e) :
    ∃ d', Dialog.Step d (e, (m.step L env e).2) d' ∧ (m.step L env e).1.Stands d' ∧
      (d' = .ended ↔ d = .ended ∨ m.Ends L env e) := by
  cases d with
  | ended =>
    have hstep : m.step L env e = (m, []) := by
      unfold step
      exact if_pos hm
    rw [hstep]
    exact ⟨.ended, .fell _ _, hm, iff_of_true rfl (.inl rfl)⟩
  | ready =>
    simp only [reduceCtorEq, false_or]
    cases e with
    | apdu bytes => exact step_ready hcommit h hm hpolite
    | accept | reject =>
      have hstep {e : Event} (he : e = .accept ∨ e = .reject) : m.step L env e = (m, []) := by
        obtain rfl | rfl := he <;> simp [step, hm.1, hm.2]
      rw [hstep (by simp)]
      refine ⟨.ready, .idle _ _ (by simp), hm, iff_of_false (by simp) ?_⟩
      simp [Ends, hm.2]
    | switchNetwork | switchSignHash | switchContractData =>
      simp only [step, hm.1, hm.2, Bool.false_eq_true, if_false, Option.isSome_none]
      exact ⟨.ready, .idle _ _ (by simp), ⟨rfl, rfl⟩, iff_of_false (by simp) id⟩
  | asking b =>
    simp only [reduceCtorEq, false_or]
    cases e with
    | apdu bytes =>
      have hprompt := hm.2.1
      rw [hpolite.quiet bytes rfl] at hprompt
      cases hprompt
    | accept => exact step_asking hm (.inl rfl)
    | reject => exact step_asking hm (.inr rfl)
    | switchNetwork | switchSignHash | switchContractData =>
      simp only [step, hm.1, hm.2.1, Bool.false_eq_true, if_false, if_true]
      exact ⟨.asking b, .idle _ _ (by simp), hm, iff_of_false (by simp) id⟩

/-! ### Runs -/

/-- The events of a run, each with its replies. -/
def exchanges (L : Overlay U) (env : Env) (m : Machine U) : List Event → List Exchange
  | [] => []
  | e :: es => (e, (m.step L env e).2) :: exchanges L env (m.step L env e).1 es

/-- The host is polite throughout. -/
def PoliteRun (L : Overlay U) (env : Env) (m : Machine U) (es : List Event) : Prop :=
  ∀ before e after, es = before ++ e :: after → (m.run L env before).Polite e

/-- The application ends in one of the events. -/
def EndsWithin (L : Overlay U) (env : Env) (m : Machine U) (es : List Event) : Prop :=
  ∃ before e after, es = before ++ e :: after ∧ (m.run L env before).Ends L env e

theorem PoliteRun.head {e : Event} {es : List Event} (h : m.PoliteRun L env (e :: es)) :
    m.Polite e := h [] e es rfl

theorem PoliteRun.tail {e : Event} {es : List Event} (h : m.PoliteRun L env (e :: es)) :
    (m.step L env e).1.PoliteRun L env es := by
  rintro before e' after rfl
  exact h (e :: before) e' after rfl

theorem PoliteRun.nil : m.PoliteRun L env [] := by
  intro before e after heq
  simp at heq

theorem PoliteRun.cons {e : Event} {es : List Event} (h : m.Polite e)
    (hrest : (m.step L env e).1.PoliteRun L env es) : m.PoliteRun L env (e :: es) := by
  intro before e' after heq
  cases before with
  | nil =>
    obtain ⟨rfl, rfl⟩ := List.cons.inj heq
    exact h
  | cons _ before =>
    obtain ⟨rfl, rfl⟩ := List.cons.inj heq
    exact hrest before e' after rfl

theorem Polite.apdu {bytes : List UInt8} {i : UInt8} (hquiet : m.prompt = none)
    (hi : dispatched bytes = some i) (htable : InTable i) : m.Polite (.apdu bytes) where
  quiet _ _ := hquiet
  inTable bytes' i' heq hi' := by
    obtain rfl := Event.apdu.inj heq
    obtain rfl := Option.some.inj (hi.symm.trans hi')
    exact htable

theorem Polite.other {e : Event} (he : ∀ b, e ≠ .apdu b) : m.Polite e where
  quiet bytes heq := absurd heq (he bytes)
  inTable bytes _ heq := absurd heq (he bytes)

theorem endsWithin_cons {e : Event} {es : List Event} :
    m.EndsWithin L env (e :: es) ↔ m.Ends L env e ∨ (m.step L env e).1.EndsWithin L env es := by
  constructor
  · rintro ⟨before, e', after, heq, hends⟩
    cases before with
    | nil =>
      obtain ⟨rfl, rfl⟩ := List.cons.inj heq
      exact .inl hends
    | cons _ before =>
      obtain ⟨rfl, rfl⟩ := List.cons.inj heq
      exact .inr ⟨before, e', after, rfl, hends⟩
  · rintro (hends | ⟨before, e', after, rfl, hends⟩)
    · exact ⟨[], e, es, rfl, hends⟩
    · exact ⟨e :: before, e', after, rfl, hends⟩

/-- A run is a dialog, which is over when the application has ended in one of the events. -/
theorem run_dialog (hcommit : env.commit.length ≤ 257) (h : env.Reports) {es : List Event}
    {d : Dialog} (hm : m.Stands d) (hpolite : m.PoliteRun L env es) :
    ∃ d', Runs Dialog.Step d (m.exchanges L env es) d' ∧ (m.run L env es).Stands d' ∧
      (d' = .ended ↔ d = .ended ∨ m.EndsWithin L env es) := by
  induction es generalizing m d with
  | nil =>
    refine ⟨d, .nil d, hm, (or_iff_left ?_).symm⟩
    rintro ⟨before, e, after, heq, -⟩
    simp at heq
  | cons e es ih =>
    obtain ⟨d₁, hstep, hstands, hends⟩ := step_dialog (L := L) hcommit h hm hpolite.head
    obtain ⟨d', hruns, hlast, hended⟩ := ih hstands hpolite.tail
    exact ⟨d', .cons hstep hruns, hlast, by rw [hended, hends, endsWithin_cons, or_assoc]⟩

theorem stands_start (nd : NvramData) : (start L nd).Stands .ready := ⟨rfl, rfl⟩

end Machine

open Machine in
/-- **Requests and replies.**  In every run in which the host waits for each reply and stays within
the table, the application keeps to the dialog: there are never more replies than requests, and
until it ends, each request has been replied to, but for the one that the user is asked about. -/
theorem dialog_kept (L : Overlay U) (env : Env) (nd : NvramData) (es : List Event)
    (hcommit : env.commit.length ≤ 257) (hderive : env.Reports)
    (hpolite : (start L nd).PoliteRun L env es) :
    ∃ d, Runs Dialog.Step .ready ((start L nd).exchanges L env es) d ∧
      ((start L nd).run L env es).Stands d ∧
      (replies ((start L nd).exchanges L env es)).length ≤
        (requests ((start L nd).exchanges L env es)).length ∧
      (((start L nd).run L env es).exited = false →
        (replies ((start L nd).exchanges L env es)).length + d.pending =
          (requests ((start L nd).exchanges L env es)).length) := by
  obtain ⟨d, hruns, hstands, -⟩ := run_dialog hcommit hderive (stands_start nd) hpolite
  obtain ⟨hle, heq⟩ := Dialog.count hruns
  refine ⟨d, hruns, hstands, hle, fun hrunning => heq fun hended => ?_⟩
  rw [(stands_ended hstands).2 hended] at hrunning
  cases hrunning

/-- The device of the examples throws nothing. -/
theorem Env.reports_reference : Env.reference.Reports := by
  rintro path x ⟨⟩

open Machine in
/-- A public key is asked for, and the user accepts. -/
theorem dialog_kept_pubkey : ∃ d : Dialog,
    (replies ((start Overlay.memory {}).exchanges Overlay.memory Env.reference
      [.apdu (requestPubkey 44), .switchNetwork, .accept])).length + d.pending = 1 := by
  obtain ⟨d, -, -, -, heq⟩ := dialog_kept Overlay.memory Env.reference {}
    [.apdu (requestPubkey 44), .switchNetwork, .accept] (Nat.zero_le _) Env.reports_reference
    (.cons (.apdu rfl rfl (by decide)) (.cons (.other (by simp)) (.cons (.other (by simp)) .nil)))
  exact ⟨d, heq (by decide +kernel)⟩

open Machine in
/-- **The end of the application.**  In such a run of requests, answers and changes of settings the
machine stops just when the text of a message overruns its buffer, where the behaviour of the source
is undefined, or the user accepts to sign with a key that cannot be derived.  The entry of the menu
that quits the application is no event of the machine; it is one of the device
(`Panel.step`). -/
theorem exited_iff (L : Overlay U) (env : Env) (nd : NvramData) (es : List Event)
    (hcommit : env.commit.length ≤ 257) (hderive : env.Reports)
    (hpolite : (start L nd).PoliteRun L env es) :
    ((start L nd).run L env es).exited = true ↔ (start L nd).EndsWithin L env es := by
  obtain ⟨d, -, hstands, hended⟩ := run_dialog hcommit hderive (stands_start nd) hpolite
  rw [stands_ended hstands, hended]
  exact or_iff_right (by simp)

/-- The packets of a message whose text is the first byte of a sequence of four. -/
def leadByte : List Event :=
  [.apdu [claNervos, insSignMessage, p1First, 0, 6, 0, 1, 0x80, 0, 0, 44],
    .apdu ([claNervos, insSignMessage, p1Next ||| p1LastMarker, 0, 16] ++ nervosMagic ++ [0xf0])]

open Machine in
theorem exited_iff_leadByte :
    (start Overlay.memory {}).EndsWithin Overlay.memory Env.reference leadByte := by
  refine (exited_iff Overlay.memory Env.reference {} leadByte (Nat.zero_le _)
    Env.reports_reference (.cons (.apdu rfl rfl (by decide))
      (.cons (.apdu ?_ rfl (by decide)) .nil))).1 ?_
  · decide +kernel
  · decide +kernel

end LedgerNervos
