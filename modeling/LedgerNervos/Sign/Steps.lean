import LedgerNervos.Lts.Runs
import LedgerNervos.Sign.Handle
import LedgerNervos.Sign.Readings

/-!
# Runs of the callbacks, and sessions

The callbacks are a transition system on the session state, with the calls as labels: `Steps` are
its runs.  A call may find any settings that satisfy `P`, as the user can change the settings
between two packets, and any contents of the receive buffer.

`signSession` streams packets into the handler, up to the prompt.  `signSession_steps` takes such a
session apart: what the parser has read, however it was cut into packets, and the run of the
callbacks that this has led to.
-/

namespace LedgerNervos

variable {env : Env} {P : NvramData → Prop} {g g' : SignState}

/-- A call of a callback, under settings that satisfy `P`. -/
def SignState.Step (env : Env) (P : NvramData → Prop) (g : SignState) (e : Callback)
    (g' : SignState) : Prop :=
  ∃ nd io io', P nd ∧ dispatch env nd e (g, io) = .ok (g', io')

/-- Calls of several callbacks in turn. -/
abbrev Steps (env : Env) (P : NvramData → Prop) : SignState → List Callback → SignState → Prop :=
  Runs (SignState.Step env P)

theorem steps_of_runCallbacks {nd : NvramData} (hP : P nd) {es : List Callback} {io io' : Io}
    (h : runCallbacks env nd es (g, io) = .ok (g', io')) : Steps env P g es g' := by
  induction es generalizing g io with
  | nil =>
    simp only [runCallbacks, Except.ok.injEq, Prod.mk.injEq] at h
    exact Runs.nil_iff.2 h.1.symm
  | cons e es ih =>
    simp only [runCallbacks] at h
    cases hd : dispatch env nd e (g, io) with
    | error x => rw [hd] at h; cases h
    | ok s =>
      rw [hd] at h
      exact .cons ⟨nd, io, s.2, hP, hd⟩ (ih h)

/-! ### Nothing that is wrong becomes right again -/

/-- The marks against a transaction stay. -/
structure MaybeTransaction.Worsens (m m' : MaybeTransaction) : Prop where
  isValid : m'.isValid = m.isValid
  isUnsafe : m.isUnsafe = true → m'.isUnsafe = true
  hardReject : m.hardReject = true → m'.hardReject = true

namespace MaybeTransaction.Worsens

theorem refl (m : MaybeTransaction) : m.Worsens m := ⟨rfl, id, id⟩

theorem trans {m m₁ m' : MaybeTransaction} (h : m.Worsens m₁) (h' : m₁.Worsens m') :
    m.Worsens m' :=
  ⟨h'.isValid.trans h.isValid, h'.isUnsafe ∘ h.isUnsafe, h'.hardReject ∘ h.hardReject⟩

theorem safe {m m' : MaybeTransaction} (h : m.Worsens m') (hsafe : m'.isUnsafe = false) :
    m.isUnsafe = false := by
  cases hm : m.isUnsafe with
  | false => rfl
  | true => rw [h.isUnsafe hm] at hsafe; cases hsafe

theorem ok {m m' : MaybeTransaction} (h : m.Worsens m') (hok : m'.hardReject = false) :
    m.hardReject = false := by
  cases hm : m.hardReject with
  | false => rfl
  | true => rw [h.hardReject hm] at hok; cases hok

end MaybeTransaction.Worsens

namespace SignState

open MaybeTransaction

theorem worsens_reject (g : SignState) : g.maybe.Worsens g.reject.maybe :=
  ⟨rfl, fun _ => rfl, id⟩

theorem worsens_rejectHard (g : SignState) : g.maybe.Worsens g.rejectHard.maybe :=
  ⟨rfl, id, fun _ => rfl⟩

theorem maybe_computeNewOffsetsToHash (g : SignState) (header : List UInt32) :
    (g.computeNewOffsetsToHash header).maybe = g.maybe := by
  have hfold (xs : List UInt32) (g : SignState) :
      (xs.foldl (fun g x => g.blake2bChunk (u32le x)) g).maybe = g.maybe := by
    induction xs generalizing g with
    | nil => rfl
    | cons x xs ih => exact ih _
  exact hfold _ g

theorem worsens_inputLockArgEnd (g : SignState) :
    g.maybe.Worsens g.inputLockArgEnd.maybe := by
  unfold inputLockArgEnd
  dsimp only
  split_ifs <;> exact ⟨rfl, by simp [reject], by simp [reject]⟩

theorem maybe_scriptArgChunk (g : SignState) (buf : List UInt8) :
    (g.scriptArgChunk buf).maybe = g.maybe := by
  unfold scriptArgChunk
  dsimp only
  split_ifs
  · rfl
  · rfl
  · split <;> rfl

theorem worsens_chooseDao {m : MaybeTransaction} (h : m.Worsens g.maybe) (tag : OperationTag) :
    m.Worsens (g.chooseDao tag).maybe := by
  unfold chooseDao
  split_ifs
  · exact h.trans (worsens_reject g)
  · exact h.trans ⟨rfl, id, id⟩

theorem worsens_finishInputCellData (nd : NvramData) (g : SignState) :
    g.maybe.Worsens (g.finishInputCellData nd).maybe := by
  unfold finishInputCellData
  dsimp only
  split_ifs <;> first
    | (refine worsens_chooseDao ?_ _; exact .refl _)
    | exact ⟨rfl, by simp [reject], by simp [reject]⟩

theorem worsens_finishOutputCellData (nd : NvramData) (g : SignState) :
    g.maybe.Worsens (g.finishOutputCellData nd).maybe := by
  unfold finishOutputCellData
  split_ifs <;> first
    | (refine worsens_chooseDao ?_ _; exact .refl _)
    | exact ⟨rfl, by simp [reject], by simp [reject]⟩

theorem worsens_outputEnd (h : g.outputEnd env = .ok g') : g.maybe.Worsens g'.maybe := by
  unfold outputEnd at h
  dsimp only at h
  split_ifs at h <;> cases h <;>
    exact ⟨rfl, by simp [reject, addToOutput, newOutput, setTag],
      by simp [reject, addToOutput, newOutput, setTag]⟩

theorem worsens_outputsEnd (h : g.outputsEnd = .ok g') : g.maybe.Worsens g'.maybe := by
  unfold outputsEnd at h
  dsimp only at h
  split_ifs at h <;> cases h <;> exact ⟨rfl, id, id⟩

theorem worsens_finalizeRawTransaction (g : SignState) :
    g.maybe.Worsens (g.finalizeRawTransaction env).maybe := by
  unfold finalizeRawTransaction
  dsimp only
  split <;> (try split_ifs) <;> exact ⟨rfl, by simp [reject, finishTransaction, setTag],
    by simp [reject, finishTransaction, setTag]⟩

theorem worsens_witnessDispatch (e : WitnessCallback) (s : SignState × Io) :
    s.1.maybe.Worsens (witnessDispatch e s).1.maybe := by
  obtain ⟨g, io⟩ := s
  cases e with
  | witnessOffsets header =>
    simp only [witnessDispatch, witnessOffsets]
    split_ifs <;> exact .refl _
  | witnessLockArgSize size =>
    simp only [witnessDispatch, witnessLockArgSize]
    split_ifs <;>
      exact ⟨rfl, by simp [rejectHard, blake2bChunk], by simp [rejectHard, blake2bChunk]⟩
  | witnessLockArgBodyChunk c =>
    simp only [witnessDispatch, witnessLockArgBodyChunk]
    split_ifs <;> exact ⟨rfl, by simp [reject, blake2bChunk], by simp [reject, blake2bChunk]⟩
  | blake2bChunk bs => exact .refl _

theorem worsens_witnessDispatches (es : List WitnessCallback) (s : SignState × Io) :
    s.1.maybe.Worsens (es.foldl (fun s e => witnessDispatch e s) s).1.maybe := by
  induction es generalizing s with
  | nil => exact .refl _
  | cons e es ih => exact (worsens_witnessDispatch e s).trans (ih _)

theorem worsens_processWitness (g : SignState) (io : Io) (c : Chunk) :
    g.maybe.Worsens (g.processWitness io c).1.maybe := by
  unfold processWitness
  dsimp only
  split_ifs
  · exact worsens_witnessDispatches _ (g, io)
  · exact worsens_witnessDispatches _ (g, io)
  · exact .refl _

end SignState

open SignState in
theorem SignState.Step.worsens {e : Callback} (h : g.Step env P e g') :
    g.maybe.Worsens g'.maybe := by
  obtain ⟨nd, io, io', -, h⟩ := h
  cases e <;> simp only [dispatch, Except.ok.injEq, Prod.mk.injEq] at h
  case outputEnd =>
    cases ho : g.outputEnd env <;> rw [ho] at h <;> cases h
    exact worsens_outputEnd ho
  case outputsEnd =>
    cases ho : g.outputsEnd <;> rw [ho] at h <;> cases h
    exact worsens_outputsEnd ho
  case setSignPath =>
    cases hk : prepLockArg env g.tempKey <;> simp only [setSignPath, hk] at h <;> cases h
    exact .refl _
  case setChangePath =>
    cases hk : prepLockArg env g.tempKey <;> simp only [setChangePath, hk] at h <;> cases h
    exact .refl _
  case processWitness c =>
    have hw := worsens_processWitness g io c
    rwa [h] at hw
  all_goals obtain ⟨rfl, -⟩ := h
  case inputLockArgEnd => exact worsens_inputLockArgEnd g
  case scriptArgChunk bs => rw [maybe_scriptArgChunk]; exact .refl _
  case finishInputCellData => exact worsens_finishInputCellData nd g
  case finishOutputCellData => exact worsens_finishOutputCellData nd g
  case finalizeRawTransaction => exact worsens_finalizeRawTransaction g
  case blake2bInputCount length =>
    unfold blake2bInputCount
    split_ifs
    · exact worsens_rejectHard g
    · exact .refl _
  case initBip32 size =>
    unfold initBip32
    split_ifs
    · exact .refl _
    · exact worsens_rejectHard g
  case setCellDataSize size =>
    unfold setCellDataSize
    split_ifs
    · exact worsens_rejectHard g
    · exact .refl _
  case cellCapacity bs => unfold cellCapacity; split_ifs <;> exact .refl _
  case cellLockCodeHash bs =>
    unfold cellLockCodeHash
    split_ifs <;> first | exact worsens_reject g | exact .refl _
  case cellScriptHashType b =>
    unfold cellScriptHashType
    split_ifs <;> first | exact worsens_reject g | exact .refl _
  case scriptArgStartInput => unfold scriptArgStartInput; split_ifs <;> exact .refl _
  case cellTypeCodeHash bs =>
    unfold cellTypeCodeHash
    split_ifs <;> first | exact worsens_reject g | exact .refl _
  case cellTypeArgLength n =>
    unfold cellTypeArgLength
    split_ifs <;> first | exact worsens_reject g | exact .refl _
  case checkCellDataDataChunk bs => unfold checkCellDataDataChunk; split_ifs <;> exact .refl _
  case beginWitness index => unfold beginWitness; dsimp only; split_ifs <;> exact .refl _
  case hashWitnessLength size => unfold hashWitnessLength; split_ifs <;> exact .refl _
  case processWitnessEnd => unfold processWitnessEnd; split_ifs <;> exact .refl _
  case computeNewOffsetsToHash header => rw [maybe_computeNewOffsetsToHash]; exact .refl _
  all_goals exact .refl _

/-! ### Sessions -/

/-- A packet of a session, with the settings and the receive buffer at the time it arrives. -/
structure Packet where
  cdata : List UInt8
  nd : NvramData := {}
  io : Io := []
  /-- The flag `P1_NO_FALLBACK`. -/
  noFallback : Bool := false
deriving DecidableEq

/-- What the parser gets of a packet. -/
def Packet.chunk (p : Packet) : Chunk := ⟨offsetCdata, p.cdata⟩

/-- The `P1` of a packet, by its place in the session. -/
def packetP1 (first last noFallback : Bool) : UInt8 :=
  (if first then p1First else p1Next) ||| (if last then p1LastMarker else 0) |||
    (if noFallback then p1NoFallback else 0)

/-- Stream packets into the handler, up to the prompt: the prompt and the state it leaves. -/
def signPackets (env : Env) (instruction : UInt8) :
    Bool → ApduSignState → List Packet → Option (Prompt × SignState)
  | _, _, [] => none
  | first, s, p :: ps =>
    match s.handleApdu env p.nd instruction (packetP1 first ps.isEmpty p.noFallback) p.cdata
      p.io with
    | .ok (.prompt prompt, s, _) => some (prompt, s.g)
    | .ok (.reply _, s, _) => signPackets env instruction false s ps
    | .ok (.sent _, _) | .error _ => none

/-- A whole session, from its first packet. -/
def signSession (env : Env) (instruction : UInt8) (ps : List Packet) :
    Option (Prompt × SignState) := signPackets env instruction true {} ps

theorem packetP1_mask (first last noFallback : Bool) :
    packetP1 first last noFallback &&& p1Mask = if first then p1First else p1Next := by
  cases first <;> cases last <;> cases noFallback <;> rfl

theorem packetP1_last (first last noFallback : Bool) :
    decide (packetP1 first last noFallback &&& p1LastMarker ≠ 0) = last := by
  cases first <;> cases last <;> cases noFallback <;> rfl

theorem packetP1_noFallback (first last noFallback : Bool) :
    decide (packetP1 first last noFallback &&& p1NoFallback ≠ 0) = noFallback := by
  cases first <;> cases last <;> cases noFallback <;> rfl

/-- The state a packet is parsed in: the first packet of a session starts from zero. -/
def ApduSignState.restart (first : Bool) (s : ApduSignState) : ApduSignState :=
  if first then {} else s

/-- What an accepted packet has led to. -/
theorem ApduSignState.handleApdu_ok {s s' : ApduSignState} {nd : NvramData}
    {instruction : UInt8} {first last noFallback : Bool} {cdata : List UInt8} {io io' : Io}
    {a : Answer}
    (h : s.handleApdu env nd instruction (packetP1 first last noFallback) cdata io =
      .ok (a, s', io')) :
    ∃ g₁ g₂, runCallbacks env nd
        (transactionReader.parse molNumMax (s.restart first).transactionStack
          ⟨offsetCdata, cdata⟩).evs ((s.restart first).g, io) = .ok (g₁, io') ∧
      g₁.afterParse last noFallback (transactionReader.parse molNumMax
        (s.restart first).transactionStack ⟨offsetCdata, cdata⟩).rv = .ok g₂ ∧
      s' = ⟨g₂, (transactionReader.parse molNumMax (s.restart first).transactionStack
        ⟨offsetCdata, cdata⟩).st⟩ ∧
      s'.answer nd instruction last io' = .ok (a, s', io') := by
  simp only [handleApdu, packetP1_mask, packetP1_last, packetP1_noFallback] at h
  by_cases hlen : maxApduSize < cdata.length
  · rw [if_pos hlen] at h; cases h
  have hparse : ((s.restart first).parsePacket env nd last noFallback cdata io >>= fun r =>
      r.1.answer nd instruction last r.2) = .ok (a, s', io') := by
    rw [if_neg hlen] at h
    cases first
    · exact h
    · exact h
  cases hp : (s.restart first).parsePacket env nd last noFallback cdata io with
  | error x => rw [hp] at hparse; cases hparse
  | ok r =>
    obtain ⟨s₂, io₂⟩ := r
    rw [hp] at hparse
    change s₂.answer nd instruction last io₂ = _ at hparse
    simp only [parsePacket] at hp
    by_cases hhard : (s.restart first).g.maybe.hardReject = true
    · rw [if_pos hhard] at hp; cases hp
    rw [if_neg hhard] at hp
    cases hr : runCallbacks env nd (transactionReader.parse molNumMax
        (s.restart first).transactionStack ⟨offsetCdata, cdata⟩).evs
        ((s.restart first).g, io) with
    | error x => rw [hr] at hp; cases hp
    | ok r =>
      obtain ⟨g₁, io₁⟩ := r
      rw [hr] at hp
      cases ha : g₁.afterParse last noFallback (transactionReader.parse molNumMax
        (s.restart first).transactionStack ⟨offsetCdata, cdata⟩).rv with
      | error x => simp only [ha] at hp; cases hp
      | ok g₂ =>
        simp only [ha, Except.ok.injEq, Prod.mk.injEq] at hp
        obtain ⟨rfl, rfl⟩ := hp
        have hsame : s' = ⟨g₂, (transactionReader.parse molNumMax
            (s.restart first).transactionStack ⟨offsetCdata, cdata⟩).st⟩ ∧ io' = io₁ := by
          unfold answer at hparse
          split_ifs at hparse
          · split at hparse <;> cases hparse
            exact ⟨rfl, rfl⟩
          · cases hparse
            exact ⟨rfl, rfl⟩
        obtain ⟨rfl, rfl⟩ := hsame
        exact ⟨g₁, g₂, rfl, ha, rfl, hparse⟩

/-- Before the last packet, an accepted packet only asks for more. -/
theorem SignState.afterParse_more {g : SignState} {secureOnly : Bool} {rv : Rv}
    (h : g.afterParse false secureOnly rv = .ok g') : rv = .incomplete ∧ g' = g := by
  simp only [afterParse, Bool.false_eq_true, if_false] at h
  split_ifs at h with hrv
  cases h
  exact ⟨by simpa using hrv, rfl⟩

/-- With the last packet, the transaction is complete. -/
theorem SignState.afterParse_last {g : SignState} {secureOnly : Bool} {rv : Rv}
    (h : g.afterParse true secureOnly rv = .ok g') :
    rv = .complete ∧ g.maybe.hardReject = false ∧
      (g.maybe.isUnsafe = true ∧ g'.maybe.v.tag = .none ∨
        g.maybe.isUnsafe = false ∧ g' = { g with maybe.isValid := true }) := by
  simp only [afterParse, if_true] at h
  split_ifs at h with hrv hsec hmark <;> cases h
  all_goals
    rw [not_or] at hrv
    refine ⟨by simpa using hrv.1, by simpa using hrv.2, ?_⟩
  · exact .inl ⟨hmark, rfl⟩
  · exact .inr ⟨by simpa using hmark, rfl⟩

/-- The prompt is put up for the last packet of a valid transaction. -/
theorem ApduSignState.answer_prompt {s s' : ApduSignState} {nd : NvramData} {instruction : UInt8}
    {last : Bool} {io io' : Io} {prompt : Prompt}
    (h : s.answer nd instruction last io = .ok (.prompt prompt, s', io')) :
    last = true ∧ s.g.signComplete nd instruction = .ok prompt := by
  unfold answer at h
  split_ifs at h with hl
  · split at h
    · cases h
    · rename_i p hp
      cases h
      exact ⟨hl.1, hp⟩
  · cases h

theorem SignState.signComplete_screens {g : SignState} {nd : NvramData} {instruction : UInt8}
    {prompt : Prompt} (h : g.signComplete nd instruction = .ok prompt) :
    g.screens nd = some prompt.screens := by
  unfold signComplete at h
  cases hs : g.screens nd with
  | none => rw [hs] at h; cases h
  | some screens =>
    simp only [hs, bind_eq_ok_iff] at h
    obtain ⟨shown, hu, h⟩ := h
    cases h
    rw [uiPrompt_ok hu]

/-- What is left of a session that ended with a prompt. -/
structure SessionEnd (env : Env) (P : NvramData → Prop) (instruction : UInt8) (g : SignState)
    (evs : List Callback) (prompt : Prompt) (g' : SignState) : Prop where
  /-- The state at the end is that of the callbacks, marked as valid. -/
  steps : ∃ g₁, Steps env P g evs g₁ ∧ g' = { g₁ with maybe.isValid := true }
  isUnsafe : g'.maybe.isUnsafe = false
  hardReject : g'.maybe.hardReject = false
  complete : ∃ nd, P nd ∧ g'.signComplete nd instruction = .ok prompt

/-- **Packets.**  When the packets are accepted and lead to a prompt, the parser has read a whole
transaction from them, and the callbacks have been run on it. -/
theorem signPackets_steps {instruction : UInt8} {first : Bool} {s : ApduSignState}
    {ps : List Packet} {prompt : Prompt} (hP : ∀ p ∈ ps, P p.nd)
    (h : signPackets env instruction first s ps = some (prompt, g')) :
    ∃ evs rest, runWith (transactionReader.parse molNumMax) (s.restart first).transactionStack
        (ps.map Packet.chunk) = .done evs rest ∧
      SessionEnd env P instruction (s.restart first).g evs prompt g' := by
  induction ps generalizing first s with
  | nil => cases h
  | cons p ps ih =>
    simp only [signPackets] at h
    have hPp : P p.nd := hP p (List.mem_cons_self ..)
    cases ha : s.handleApdu env p.nd instruction (packetP1 first ps.isEmpty p.noFallback) p.cdata
        p.io with
    | error x => rw [ha] at h; cases h
    | ok r =>
      obtain ⟨a, s', io'⟩ := r
      obtain ⟨g₁, g₂, hrun, hafter, rfl, hanswer⟩ := ApduSignState.handleApdu_ok ha
      have hsteps := steps_of_runCallbacks hPp hrun
      rw [ha] at h
      rw [List.map_cons, runWith_cons, resume]
      cases a with
      | prompt prompt' =>
        simp only [Option.some.injEq, Prod.mk.injEq] at h
        obtain ⟨rfl, rfl⟩ := h
        obtain ⟨hlast, hcomplete⟩ := ApduSignState.answer_prompt hanswer
        rw [hlast] at hafter
        obtain ⟨hrv, hhard, hmark⟩ := SignState.afterParse_last hafter
        have hscreens := SignState.signComplete_screens hcomplete
        obtain ⟨-, htag⟩ | ⟨hsafe, rfl⟩ := hmark
        · simp [SignState.screens, htag] at hscreens
        · rw [show (transactionReader.parse molNumMax _ p.chunk).rv = .complete from hrv]
          exact ⟨_, _, rfl, ⟨g₁, hsteps, rfl⟩, hsafe, hhard, p.nd, hPp, hcomplete⟩
      | sent r => cases h
      | reply r =>
        simp only at h
        have hmore : ps.isEmpty = false := by
          cases ps with
          | nil => cases h
          | cons _ _ => rfl
        rw [hmore] at hafter
        obtain ⟨hrv, rfl⟩ := SignState.afterParse_more hafter
        obtain ⟨evs, rest, hev, hend⟩ := ih (fun q hq => hP q (List.mem_cons_of_mem _ hq)) h
        obtain ⟨g₃, hsteps₃, rfl⟩ := hend.steps
        rw [show (transactionReader.parse molNumMax _ p.chunk).rv = .incomplete from hrv]
        refine ⟨_, rest, ?_, ⟨g₃, hsteps.append hsteps₃, rfl⟩, hend.isUnsafe, hend.hardReject,
          hend.complete⟩
        exact congrArg (RunRes.after _) hev

/-- **Sessions.**  When a session leads to a prompt, the parser has read a value from the bytes of
the packets, and the callbacks have been run on the events that this value allows. -/
theorem signSession_steps {instruction : UInt8} {ps : List Packet} {prompt : Prompt}
    (hP : ∀ p ∈ ps, P p.nd) (h : signSession env instruction ps = some (prompt, g')) :
    ∃ v rest evs, (MolSpec.annotatedTransaction Callback.annotatedTransactionCallbacks).sem
        molNumMax (joined (ps.map Packet.chunk)) = .done v rest ∧
      (MolSpec.annotatedTransaction Callback.annotatedTransactionCallbacks).Tr v
        (takeC ((MolSpec.annotatedTransaction Callback.annotatedTransactionCallbacks).len v)
          (ps.map Packet.chunk)) evs ∧
      SessionEnd env P instruction {} evs prompt g' := by
  obtain ⟨evs, rest, hrun, hend⟩ := signPackets_steps hP h
  have hne : ps.map Packet.chunk ≠ [] := by
    rintro hnil
    rw [hnil] at hrun
    cases hrun
  have hlawful := MolReader.annotatedTransaction_lawful Callback.annotatedTransactionCallbacks
    molNumMax _ hne
  change Agrees (runWith (transactionReader.parse molNumMax) transactionReader.init _) _ _ _ _
    at hlawful
  change runWith (transactionReader.parse molNumMax) transactionReader.init _ = _ at hrun
  rw [hrun] at hlawful
  cases hsem : (MolSpec.annotatedTransaction Callback.annotatedTransactionCallbacks).sem
      molNumMax (joined (ps.map Packet.chunk)) with
  | more => rw [hsem] at hlawful; cases hlawful
  | fail => rw [hsem] at hlawful; cases hlawful
  | done v bs =>
    rw [hsem] at hlawful
    exact ⟨v, bs, evs, rfl, hlawful.2.2.2, hend⟩

end LedgerNervos
