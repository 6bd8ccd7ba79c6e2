import LedgerNervos.Sign.Transcript

/-!
# The ledger

What the signing code finds out about a transaction, apart from its hashes: the amounts, the
destinations, the kind of operation.  `LedgerStep` is the transition system of the callbacks
without the hash contexts.  The callbacks that only hash do nothing there, so that the calls which
hand over the bytes in pieces can be left out of a run, wherever they are.
-/

namespace LedgerNervos

variable {env : Env} {P : NvramData → Prop} {g g' : SignState}

/-- The state without the hash contexts. -/
def SignState.hashless (g : SignState) : SignState :=
  { g with hashState := {}, inp.inputState.hashState := {} }

/-- The callbacks that only hash, as long as they do not refuse the transaction. -/
def Callback.hashes : Callback → Bool
  | blake2bChunk _ | contextBlake2bChunk _ | computeNewOffsetsToHash _ | blake2bInputCount _ => true
  | _ => false

/-- A call, without the hash contexts. -/
inductive LedgerStep (env : Env) (P : NvramData → Prop) (g : SignState) :
    Callback → SignState → Prop
  | call {e : Callback} {g' : SignState} (hashes : e.hashes = false)
      (finish : e ≠ .finishContextTxn) (step : g.Step env P e g') : LedgerStep env P g e g'
  | hash {e : Callback} (hashes : e.hashes = true) : LedgerStep env P g e g
  | finish : LedgerStep env P g .finishContextTxn { g with inp.inputState := {} }

namespace LedgerStep

/-- A callback that only hashes does nothing. -/
theorem eq_of_hashes {e : Callback} (h : LedgerStep env P g e g') (he : e.hashes = true) :
    g' = g := by
  cases h with
  | call hashes _ _ => rw [hashes] at he; cases he
  | hash _ => rfl
  | finish => cases he

/-- The other callbacks do what they do. -/
theorem step {e : Callback} (h : LedgerStep env P g e g') (he : e.hashes = false)
    (hfinish : e ≠ .finishContextTxn) : g.Step env P e g' := by
  cases h with
  | call _ _ step => exact step
  | hash hashes => rw [hashes] at he; cases he
  | finish => exact absurd rfl hfinish

theorem finishContextTxn (h : LedgerStep env P g .finishContextTxn g') :
    g' = { g with inp.inputState := {} } := by
  cases h with
  | call _ finish _ => exact absurd rfl finish
  | hash hashes => cases hashes
  | finish => rfl

end LedgerStep

namespace SignState

theorem hashless_computeNewOffsetsToHash (g : SignState) (header : List UInt32) :
    (g.computeNewOffsetsToHash header).hashless = g.hashless := by
  have hfold (xs : List UInt32) (g : SignState) :
      (xs.foldl (fun g x => g.blake2bChunk (u32le x)) g).hashless = g.hashless := by
    induction xs generalizing g with
    | nil => rfl
    | cons x xs ih => exact ih _
  exact hfold _ g

theorem hashless_chooseDao (g : SignState) (tag : OperationTag) :
    g.hashless.chooseDao tag = (g.chooseDao tag).hashless := by
  simp only [chooseDao, show g.hashless.maybe = g.maybe from rfl]
  split_ifs <;> rfl

theorem hashless_outputEnd (g : SignState) :
    g.hashless.outputEnd env = (g.outputEnd env).map hashless := by
  simp only [outputEnd, apply_ite (Except.map hashless)]
  rfl

theorem hashless_outputsEnd (g : SignState) :
    g.hashless.outputsEnd = g.outputsEnd.map hashless := by
  simp only [outputsEnd, apply_ite (Except.map hashless)]
  rfl

theorem hashless_scriptArgChunk (g : SignState) (buf : List UInt8) :
    g.hashless.scriptArgChunk buf = (g.scriptArgChunk buf).hashless := by
  cases g
  rename LockArgCmp => which
  cases which
  all_goals
    simp only [scriptArgChunk, apply_ite hashless]
    rfl

end SignState

open SignState in
/-- A call for the raw transaction, as the ledger sees it. -/
theorem SignState.Step.ledger {e : Callback} (h : g.Step env P e g') (hraw : e.OfRaw)
    (hfinal : e.part ≠ .final) (hok : g'.maybe.hardReject = false) :
    LedgerStep env P g.hashless e g'.hashless := by
  have hstep := h
  obtain ⟨nd, io, io', hnd, h⟩ := h
  have hcall (hhashes : e.hashes = false) (hfinish : e ≠ .finishContextTxn)
      (hd : dispatch env nd e (g.hashless, io) = .ok (g'.hashless, io')) :
      LedgerStep env P g.hashless e g'.hashless :=
    .call hhashes hfinish ⟨nd, io, io', hnd, hd⟩
  cases e <;> simp only [dispatch, Except.ok.injEq, Prod.mk.injEq] at h
  case outputEnd =>
    refine hcall rfl (by simp) ?_
    cases ho : g.outputEnd env <;> rw [ho] at h <;> cases h
    simp only [dispatch, hashless_outputEnd, ho]
    rfl
  case outputsEnd =>
    refine hcall rfl (by simp) ?_
    cases ho : g.outputsEnd <;> rw [ho] at h <;> cases h
    simp only [dispatch, hashless_outputsEnd, ho]
    rfl
  case setSignPath => exact absurd rfl hraw.1
  case setChangePath => exact absurd rfl hraw.1
  case initBip32 => exact absurd rfl hraw.1
  case bip32Component => exact absurd rfl hraw.1
  case setInputCount => exact absurd rfl hraw.2.1
  case processWitness => exact absurd rfl hraw.2.2
  case beginWitness => exact absurd rfl hraw.2.2
  case hashWitnessLength => exact absurd rfl hraw.2.2
  case processWitnessEnd => exact absurd rfl hraw.2.2
  case finalizeWitnesses => exact absurd rfl hraw.2.2
  case finalizeRawTransaction => exact absurd rfl hfinal
  all_goals obtain ⟨rfl, rfl⟩ := h
  case blake2bChunk => exact .hash rfl
  case contextBlake2bChunk => exact .hash rfl
  case computeNewOffsetsToHash =>
    rw [hashless_computeNewOffsetsToHash]
    exact .hash rfl
  case blake2bInputCount length =>
    unfold blake2bInputCount at hok ⊢
    split_ifs at hok ⊢
    · cases hok
    · exact .hash rfl
  case finishContextTxn => exact .finish
  case scriptArgChunk bs =>
    refine hcall rfl (by simp) ?_
    simp only [dispatch, hashless_scriptArgChunk]
  all_goals
    refine hcall rfl (by simp) ?_
    simp only [dispatch, Except.ok.injEq, Prod.mk.injEq, and_true]
  case finishInputCellData =>
    simp only [finishInputCellData, apply_ite hashless, ← hashless_chooseDao]
    rfl
  case finishOutputCellData =>
    simp only [finishOutputCellData, apply_ite hashless, ← hashless_chooseDao]
    rfl
  case inputLockArgEnd =>
    simp only [inputLockArgEnd, apply_ite hashless]
    rfl
  all_goals
    try simp only [setCellDataSize, cellCapacity, cellLockCodeHash, cellScriptHashType,
      scriptArgStartInput, cellTypeCodeHash, cellTypeArgLength, checkCellDataDataChunk,
      apply_ite hashless]
    rfl

/-- A run of the callbacks for the raw transaction, as the ledger sees it. -/
theorem Runs.ledger {es : List Callback} (h : Steps env P g es g')
    (hes : ∀ e ∈ es, e.OfRaw ∧ e.part ≠ .final) (hok : g'.maybe.hardReject = false) :
    Runs (LedgerStep env P) g.hashless es g'.hashless :=
  h.view (I := fun s => s.maybe.hardReject = false) SignState.hashless hok
    (fun _ _ _ hstep => (Runs.single_iff.2 hstep).hardReject)
    fun _ e _ he hstep hok' => hstep.ledger (hes e he).1 (hes e he).2 hok'

/-- The steps of such a run, as the ledger sees them. -/
theorem Visits.ledger {tr : List (SignState × Callback)}
    (h : Visits (SignState.Step env P) g tr g')
    (hes : ∀ e ∈ tr.map Prod.snd, e.OfRaw ∧ e.part ≠ .final)
    (hok : g'.maybe.hardReject = false) :
    Visits (LedgerStep env P) g.hashless (tr.map fun x => (x.1.hashless, x.2)) g'.hashless :=
  h.view (I := fun s => s.maybe.hardReject = false) SignState.hashless hok
    (fun _ _ _ hstep => (Runs.single_iff.2 hstep).hardReject)
    fun _ e _ he hstep hok' =>
      have he := hes e (List.mem_map_of_mem (f := Prod.snd) he)
      hstep.ledger he.1 he.2 hok'

/-- No call has found the transaction unsafe. -/
theorem Runs.ledger_isUnsafe {es : List Callback} (h : Runs (LedgerStep env P) g es g')
    (hok : g'.maybe.isUnsafe = false) : g.maybe.isUnsafe = false :=
  h.backward (I := fun s => s.maybe.isUnsafe = false) hok fun _ _ _ hstep hok' => by
    cases hstep with
    | call _ _ step => exact (Runs.single_iff.2 step).isUnsafe hok'
    | hash _ => exact hok'
    | finish => exact hok'

/-- A run of the ledger over callbacks that do not hash is one of the callbacks. -/
theorem Runs.steps {es : List Callback} (h : Runs (LedgerStep env P) g es g')
    (hes : ∀ e ∈ es, e.hashes = false ∧ e ≠ .finishContextTxn) : Steps env P g es g' :=
  h.mono fun _ e _ he hstep => hstep.step (hes e he).1 (hes e he).2

/-- The bytes that are handed over to be hashed can be left out of a run. -/
theorem Tapped.ledger {chunk : Chunk → List Callback} {es evs : List Callback} {bs : List UInt8}
    (h : Tapped chunk es bs evs) (hchunk : ∀ c, ∀ e ∈ chunk c, e.hashes = true)
    (hs : Runs (LedgerStep env P) g evs g') : Runs (LedgerStep env P) g es g' :=
  h.runs (fun c e he _ _ hstep => hstep.eq_of_hashes (hchunk c e he)) hs

end LedgerNervos
