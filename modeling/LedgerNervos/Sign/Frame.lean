import LedgerNervos.Sign.Events
import LedgerNervos.Sign.HashView
import LedgerNervos.Sign.Steps

/-!
# What a call leaves alone

A callback is called for one part of the transaction, and most of the state belongs to other
parts: the paths are only written while the paths are read, what is shown is not written any more
while the witnesses are read, and so on.  `SignState.Framed` says this for one call.
-/

namespace LedgerNervos

variable {env : Env} {P : NvramData → Prop} {g g' : SignState}

namespace SignState

/-- What the paths have led to. -/
def keys (g : SignState) : StandardLockArg × StandardLockArg × List UInt32 × UInt8 :=
  (g.currentLockArg, g.changeLockArg, g.keyPathComponents, g.keyLength)

/-- What the screens are made from. -/
def shown (g : SignState) :
    ParsedTransaction × List Output × ℕ × StandardLockArg × StandardLockArg :=
  (g.maybe.v, g.tx.outputs, g.tx.outputCount, g.currentLockArg, g.daoCellOwner)

/-- What a call leaves alone, by the part it is made for. -/
structure Framed (e : Callback) (g g' : SignState) : Prop where
  keys : e.part ≠ .path → g'.keys = g.keys
  tempKey : e.part ≠ .path → g'.tempKey = g.tempKey ∨ g'.tempKey = .zero
  inputCount : e.part ≠ .count → g'.inputCount = g.inputCount
  hashOnly : g.tx.hashOnly = false → g'.tx.hashOnly = false
  /-- No witness has been done before the witnesses. -/
  firstWitnessDone : e.part ≠ .witnesses → g.tx.firstWitnessDone = false →
    g'.tx.firstWitnessDone = false
  transactionHash : e.part = .witnesses → g'.tx.transactionHash = g.tx.transactionHash
  signingMultisigInput : e.part = .witnesses → g'.signingMultisigInput = g.signingMultisigInput
  shown : e.part = .witnesses → g'.shown = g.shown

namespace Framed

variable {e : Callback}

theorem refl (e : Callback) (g : SignState) : Framed e g g :=
  ⟨fun _ => rfl, fun _ => .inl rfl, fun _ => rfl, id, fun _ => id, fun _ => rfl, fun _ => rfl,
    fun _ => rfl⟩

end Framed

/-! ### The raw transaction -/

/-- What is not written while the raw transaction is read. -/
def untouched (g : SignState) : (StandardLockArg × StandardLockArg × List UInt32 × UInt8) ×
    Bip32Path × UInt32 × Bool × Bool :=
  (g.keys, g.tempKey, g.inputCount, g.tx.hashOnly, g.tx.firstWitnessDone)

/-- Outside the witnesses, nothing is asked of what only they must leave alone. -/
theorem Framed.of_not_witnesses {e : Callback} (hpart : e.part ≠ .witnesses)
    (hkeys : e.part ≠ .path → g'.keys = g.keys)
    (htemp : e.part ≠ .path → g'.tempKey = g.tempKey ∨ g'.tempKey = .zero)
    (hcount : e.part ≠ .count → g'.inputCount = g.inputCount)
    (hhash : g.tx.hashOnly = false → g'.tx.hashOnly = false)
    (hdone : g.tx.firstWitnessDone = false → g'.tx.firstWitnessDone = false) :
    Framed e g g' := by
  refine ⟨hkeys, htemp, hcount, hhash, fun _ => hdone, ?_, ?_, ?_⟩
  all_goals
    intro h
    exact absurd h hpart

theorem Framed.of_untouched {e : Callback} (h : g'.untouched = g.untouched)
    (hpart : e.part ≠ .witnesses) : Framed e g g' := by
  simp only [untouched, Prod.mk.injEq] at h
  obtain ⟨hkeys, htemp, hcount, hhash, hdone⟩ := h
  exact .of_not_witnesses hpart (fun _ => hkeys) (fun _ => .inl htemp) (fun _ => hcount)
    (fun h => hhash.trans h) fun h => hdone.trans h

/-- What callbacks that hash nothing leave alone, too. -/
def still (g : SignState) : ((StandardLockArg × StandardLockArg × List UInt32 × UInt8) ×
    Bip32Path × UInt32 × Bool × Bool) × HashView :=
  (g.untouched, g.hashView)

theorem Framed.of_still {e : Callback} (h : g'.still = g.still) (hpart : e.part ≠ .witnesses) :
    Framed e g g' := .of_untouched (congrArg Prod.fst h) hpart

theorem untouched_computeNewOffsetsToHash (g : SignState) (header : List UInt32) :
    (g.computeNewOffsetsToHash header).untouched = g.untouched := by
  have hfold (xs : List UInt32) (g : SignState) :
      (xs.foldl (fun g x => g.blake2bChunk (u32le x)) g).untouched = g.untouched := by
    induction xs generalizing g with
    | nil => rfl
    | cons x xs ih => exact ih _
  exact hfold _ g

theorem still_chooseDao (g : SignState) (tag : OperationTag) :
    (g.chooseDao tag).still = g.still := by
  unfold chooseDao
  split_ifs <;> rfl

theorem still_finishInputCellData (nd : NvramData) (g : SignState) :
    (g.finishInputCellData nd).still = g.still := by
  unfold finishInputCellData
  dsimp only
  split_ifs <;> first | rfl | exact still_chooseDao _ _

theorem still_finishOutputCellData (nd : NvramData) (g : SignState) :
    (g.finishOutputCellData nd).still = g.still := by
  unfold finishOutputCellData
  split_ifs <;> first | rfl | exact still_chooseDao _ _

theorem still_inputLockArgEnd (g : SignState) : g.inputLockArgEnd.still = g.still := by
  unfold inputLockArgEnd
  dsimp only
  split_ifs <;> rfl

theorem still_scriptArgChunk (g : SignState) (buf : List UInt8) :
    (g.scriptArgChunk buf).still = g.still := by
  unfold scriptArgChunk
  dsimp only
  split_ifs
  · rfl
  · rfl
  · split <;> rfl

theorem still_outputEnd (h : g.outputEnd env = .ok g') : g'.still = g.still := by
  unfold outputEnd at h
  dsimp only at h
  split_ifs at h <;> cases h <;> rfl

theorem still_outputsEnd (h : g.outputsEnd = .ok g') : g'.still = g.still := by
  unfold outputsEnd at h
  dsimp only at h
  split_ifs at h <;> cases h <;> rfl

theorem untouched_finalizeRawTransaction (g : SignState) :
    (g.finalizeRawTransaction env).untouched = g.untouched := by
  unfold finalizeRawTransaction
  dsimp only
  split <;> (try split_ifs) <;> rfl

/-! ### The witnesses -/

/-- What is not written while the witnesses are read. -/
def settled (g : SignState) : (StandardLockArg × StandardLockArg × List UInt32 × UInt8) ×
    Bip32Path × UInt32 × Bool × Bytes 32 × Bool ×
    ParsedTransaction × List Output × ℕ × StandardLockArg × StandardLockArg :=
  (g.keys, g.tempKey, g.inputCount, g.tx.hashOnly, g.tx.transactionHash, g.signingMultisigInput,
    g.shown)

/-- The state without what the witnesses change: the hash, the state of their parser, and the marks
against the transaction. -/
def unwitnessed (g : SignState) : SignState :=
  { g with
    hashState := {}
    maybe.isUnsafe := false
    maybe.hardReject := false
    tx.witnessMultisigLockArgConsumed := 0
    tx.witnessStack := witnessReader.init
    tx.finalHash := .zero 32
    tx.witnessMultisigThreshold := 0
    tx.witnessMultisigPubkeysCnt := 0
    tx.isFirstWitness := false
    tx.firstWitnessDone := false }

theorem unwitnessed_witnessDispatch (e : WitnessCallback) (s : SignState × Io) :
    (witnessDispatch e s).1.unwitnessed = s.1.unwitnessed := by
  obtain ⟨g, io⟩ := s
  cases e with
  | witnessOffsets header =>
    simp only [witnessDispatch, witnessOffsets]
    split_ifs <;> rfl
  | witnessLockArgSize size =>
    simp only [witnessDispatch, witnessLockArgSize]
    split_ifs <;> rfl
  | witnessLockArgBodyChunk c =>
    simp only [witnessDispatch, witnessLockArgBodyChunk]
    split_ifs <;> rfl
  | blake2bChunk bs => rfl

theorem unwitnessed_witnessDispatches (es : List WitnessCallback) (s : SignState × Io) :
    (es.foldl (fun s e => witnessDispatch e s) s).1.unwitnessed = s.1.unwitnessed := by
  induction es generalizing s with
  | nil => rfl
  | cons e es ih => exact (ih _).trans (unwitnessed_witnessDispatch e s)

theorem unwitnessed_processWitness (g : SignState) (io : Io) (c : Chunk) :
    (g.processWitness io c).1.unwitnessed = g.unwitnessed := by
  have hdispatches (es : List WitnessCallback) (f : SignState → SignState)
      (hf : ∀ s : SignState, (f s).unwitnessed = s.unwitnessed) :
      (f (es.foldl (fun s e => witnessDispatch e s) (g, io)).1).unwitnessed = g.unwitnessed :=
    (hf _).trans (unwitnessed_witnessDispatches es (g, io))
  unfold processWitness
  dsimp only
  split_ifs
  · exact hdispatches _ (fun s => { s with tx.witnessStack := _, tx.firstWitnessDone := true })
      fun _ => rfl
  · exact hdispatches _ (fun s => { s with tx.witnessStack := _ }) fun _ => rfl
  · rfl

/-- A call for the witnesses. -/
theorem Step.unwitnessed {e : Callback} (h : g.Step env P e g') (hpart : e.part = .witnesses) :
    g'.unwitnessed = g.unwitnessed := by
  obtain ⟨nd, io, io', -, h⟩ := h
  cases e <;> simp only [dispatch, Except.ok.injEq, Prod.mk.injEq] at h
  case processWitness c =>
    have hsame := unwitnessed_processWitness g io c
    rwa [h] at hsame
  case beginWitness index =>
    obtain ⟨rfl, -⟩ := h
    unfold beginWitness
    dsimp only
    split_ifs <;> rfl
  case hashWitnessLength size =>
    obtain ⟨rfl, -⟩ := h
    unfold hashWitnessLength
    split_ifs <;> rfl
  case processWitnessEnd =>
    obtain ⟨rfl, -⟩ := h
    unfold processWitnessEnd
    split_ifs <;> rfl
  case finalizeWitnesses =>
    obtain ⟨rfl, -⟩ := h
    rfl
  all_goals exact Part.noConfusion hpart

theorem Framed.of_unwitnessed {e : Callback} (h : g'.unwitnessed = g.unwitnessed)
    (hpart : e.part = .witnesses) : Framed e g g' := by
  have hsettled : g'.unwitnessed.settled = g.unwitnessed.settled := congrArg settled h
  change g'.settled = g.settled at hsettled
  simp only [settled, Prod.mk.injEq] at hsettled
  obtain ⟨hkeys, htemp, hcount, hhash, htx, hmulti, hshown⟩ := hsettled
  exact ⟨fun _ => hkeys, fun _ => .inl htemp, fun _ => hcount, fun h => hhash.trans h,
    fun hne => absurd hpart hne, fun _ => htx, fun _ => hmulti, fun _ => hshown⟩

end SignState

open SignState in
/-- **Frame.**  What a call leaves alone. -/
theorem SignState.Step.framed {e : Callback} (h : g.Step env P e g') : Framed e g g' := by
  by_cases hpart : e.part = .witnesses
  · exact .of_unwitnessed (h.unwitnessed hpart) hpart
  obtain ⟨nd, io, io', -, h⟩ := h
  cases e <;> simp only [dispatch, Except.ok.injEq, Prod.mk.injEq] at h
  case outputEnd =>
    cases ho : g.outputEnd env <;> rw [ho] at h <;> cases h
    exact .of_still (still_outputEnd ho) hpart
  case outputsEnd =>
    cases ho : g.outputsEnd <;> rw [ho] at h <;> cases h
    exact .of_still (still_outputsEnd ho) hpart
  case setSignPath =>
    cases hk : prepLockArg env g.tempKey <;> simp only [setSignPath, hk] at h <;> cases h
    exact .of_not_witnesses hpart (fun h => absurd rfl h) (fun h => absurd rfl h) (fun _ => rfl)
      id id
  case setChangePath =>
    cases hk : prepLockArg env g.tempKey <;> simp only [setChangePath, hk] at h <;> cases h
    exact .of_not_witnesses hpart (fun h => absurd rfl h) (fun h => absurd rfl h) (fun _ => rfl)
      id id
  case processWitness c => exact absurd rfl hpart
  all_goals obtain ⟨rfl, -⟩ := h
  case beginWitness index => exact absurd rfl hpart
  case hashWitnessLength size => exact absurd rfl hpart
  case processWitnessEnd => exact absurd rfl hpart
  case finalizeWitnesses => exact absurd rfl hpart
  case finishInputs =>
    exact .of_not_witnesses hpart (fun _ => rfl) (fun _ => .inr rfl) (fun _ => rfl)
      (fun _ => rfl) fun _ => rfl
  case initBip32 size =>
    unfold initBip32
    split_ifs <;> exact .of_not_witnesses hpart (fun h => absurd rfl h)
      (fun h => absurd rfl h) (fun _ => rfl) id id
  case bip32Component bs =>
    exact .of_not_witnesses hpart (fun h => absurd rfl h) (fun h => absurd rfl h) (fun _ => rfl)
      id id
  case setInputCount bs =>
    exact .of_not_witnesses hpart (fun _ => rfl) (fun _ => .inl rfl) (fun h => absurd rfl h)
      id id
  case computeNewOffsetsToHash header =>
    exact .of_untouched (untouched_computeNewOffsetsToHash g header) hpart
  case finishInputCellData => exact .of_still (still_finishInputCellData nd g) hpart
  case finishOutputCellData => exact .of_still (still_finishOutputCellData nd g) hpart
  case inputLockArgEnd => exact .of_still (still_inputLockArgEnd g) hpart
  case scriptArgChunk bs => exact .of_still (still_scriptArgChunk g bs) hpart
  case finalizeRawTransaction => exact .of_untouched (untouched_finalizeRawTransaction g) hpart
  all_goals refine .of_untouched ?_ hpart
  all_goals
    try simp only [blake2bInputCount, setCellDataSize, cellCapacity, cellLockCodeHash,
      cellScriptHashType, scriptArgStartInput, cellTypeCodeHash, cellTypeArgLength,
      checkCellDataDataChunk]
  all_goals try split_ifs
  all_goals rfl

open SignState in
/-- **What is hashed.**  Up to the end of the raw transaction, the callbacks act on the hashes by
themselves, unless the transaction is refused for good. -/
theorem SignState.Step.hashView {e : Callback} (h : g.Step env P e g')
    (hpart : e.part ≠ .witnesses) (hend : e.part ≠ .final)
    (hok : g'.maybe.hardReject = false) : g'.hashView = g.hashView.act env e := by
  obtain ⟨nd, io, io', -, h⟩ := h
  cases e <;> simp only [dispatch, Except.ok.injEq, Prod.mk.injEq] at h
  case outputEnd =>
    cases ho : g.outputEnd env <;> rw [ho] at h <;> cases h
    exact congrArg Prod.snd (still_outputEnd ho)
  case outputsEnd =>
    cases ho : g.outputsEnd <;> rw [ho] at h <;> cases h
    exact congrArg Prod.snd (still_outputsEnd ho)
  case setSignPath =>
    cases hk : prepLockArg env g.tempKey <;> simp only [setSignPath, hk] at h <;> cases h
    rfl
  case setChangePath =>
    cases hk : prepLockArg env g.tempKey <;> simp only [setChangePath, hk] at h <;> cases h
    rfl
  case processWitness c => exact absurd rfl hpart
  case finalizeRawTransaction => exact absurd rfl hend
  all_goals obtain ⟨rfl, -⟩ := h
  case beginWitness index => exact absurd rfl hpart
  case hashWitnessLength size => exact absurd rfl hpart
  case processWitnessEnd => exact absurd rfl hpart
  case finalizeWitnesses => exact absurd rfl hpart
  case computeNewOffsetsToHash header => exact hashView_computeNewOffsetsToHash g header
  case finishContextTxn => exact hashView_finishContextTxn env g
  case finishInputCellData => exact congrArg Prod.snd (still_finishInputCellData nd g)
  case finishOutputCellData => exact congrArg Prod.snd (still_finishOutputCellData nd g)
  case inputLockArgEnd => exact congrArg Prod.snd (still_inputLockArgEnd g)
  case scriptArgChunk bs => exact congrArg Prod.snd (still_scriptArgChunk g bs)
  case blake2bInputCount length =>
    unfold blake2bInputCount at hok ⊢
    split_ifs at hok ⊢
    · cases hok
    · rfl
  case initBip32 size =>
    unfold initBip32
    split_ifs <;> rfl
  all_goals
    try simp only [setCellDataSize, cellCapacity, cellLockCodeHash, cellScriptHashType,
      scriptArgStartInput, cellTypeCodeHash, cellTypeArgLength, checkCellDataDataChunk]
  all_goals try split_ifs
  all_goals rfl

end LedgerNervos
