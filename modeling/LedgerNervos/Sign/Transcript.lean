import LedgerNervos.Sign.Encoding
import LedgerNervos.Sign.Frame

/-!
# Sessions, part by part

`Transcript` records the run of the callbacks over an annotated transaction: the calls for each
part, in their order, and the states between the parts.  Every session that leads to a prompt has
one (`signSession_transcript`).
-/

namespace LedgerNervos

variable {env : Env} {P : NvramData → Prop} {g : SignState}

/-! ### The parts of what has been read -/

namespace AnnotatedTransactionVal

def signPath (v : AnnotatedTransactionVal) : List (List UInt8) := v.2.1

def changePath (v : AnnotatedTransactionVal) : List (List UInt8) := v.2.2.1

/-- The declared number of inputs. -/
def inputCount (v : AnnotatedTransactionVal) : UInt32 := molUnpackNumber v.2.2.2.1

def raw (v : AnnotatedTransactionVal) : AnnotatedRawTransactionVal := v.2.2.2.2.1

/-- The inputs; none at all when their vector is declared to be empty. -/
def inputs (v : AnnotatedTransactionVal) : Option (List AnnotatedCellInputVal) :=
  v.raw.2.2.2.2.1

def outputs (v : AnnotatedTransactionVal) : Option (List CellOutputVal) := v.raw.2.2.2.2.2.1

def outputsData (v : AnnotatedTransactionVal) : Option (List (List UInt8)) :=
  v.raw.2.2.2.2.2.2.1

def witnesses (v : AnnotatedTransactionVal) : Option (List (List UInt8)) := v.2.2.2.2.2.1

end AnnotatedTransactionVal

open Callback (annotatedRawTransactionCallbacks annotatedTransactionCallbacks)

/-! ### The calls for each part -/

/-- The calls up to the number of inputs. -/
def PathCalls (v : AnnotatedTransactionVal) (es : List Callback) : Prop :=
  ∃ e₁ e₂, Bip32Events annotatedTransactionCallbacks.signPath v.signPath e₁ ∧
    Bip32Events annotatedTransactionCallbacks.changePath v.changePath e₂ ∧
    es = e₁ ++ e₂ ++ [.setInputCount v.2.2.2.1]

/-- The calls for the raw transaction up to its header dependencies. -/
def HeaderCalls (v : AnnotatedTransactionVal) (es : List Callback) : Prop :=
  ∃ e₁ e₂ c₁ c₂, Tapped annotatedRawTransactionCallbacks.cellDeps.chunk [] (joined c₁) e₁ ∧
    Tapped annotatedRawTransactionCallbacks.headerDeps.chunk [] (joined c₂) e₂ ∧
    es = [.computeNewOffsetsToHash v.raw.1, .blake2bChunk v.raw.2.1] ++ e₁ ++ e₂

/-- The calls for the inputs. -/
def InputCalls (v : AnnotatedTransactionVal) (es : List Callback) : Prop :=
  ∃ cs e, (MolSpec.annotatedCellInputVec annotatedRawTransactionCallbacks.inputs).Tr v.inputs
    cs e ∧ es = .inputsStart :: e

/-- The calls for the outputs. -/
def OutputCalls (v : AnnotatedTransactionVal) (es : List Callback) : Prop :=
  ∃ cs, (MolSpec.cellOutputVec annotatedRawTransactionCallbacks.outputs).Tr v.outputs cs es

/-- The calls for the data of the outputs. -/
def DataCalls (v : AnnotatedTransactionVal) (es : List Callback) : Prop :=
  ∃ cs, (MolSpec.bytesVec annotatedRawTransactionCallbacks.outputsData).Tr v.outputsData cs es

/-- The calls for the witnesses. -/
def WitnessCalls (v : AnnotatedTransactionVal) (es : List Callback) : Prop :=
  ∃ cs, (MolSpec.bytesVec annotatedTransactionCallbacks.witnesses).Tr v.witnesses cs es

theorem HeaderCalls.part {v : AnnotatedTransactionVal} {es : List Callback}
    (h : HeaderCalls v es) :
    ∀ e ∈ es, e.part = .raw := by
  obtain ⟨e₁, e₂, c₁, c₂, h₁, h₂, rfl⟩ := h
  intro e he
  simp only [List.mem_append, List.mem_cons, List.not_mem_nil, or_false] at he
  rcases he with ((rfl | rfl) | he) | he
  · rfl
  · rfl
  · refine h₁.forall_mem (p := fun e => e.part = .raw) (List.forall_mem_nil _) (fun c e he => ?_)
      e he
    rw [List.mem_singleton.1 he]
    rfl
  · refine h₂.forall_mem (p := fun e => e.part = .raw) (List.forall_mem_nil _) (fun c e he => ?_)
      e he
    rw [List.mem_singleton.1 he]
    rfl

theorem PathCalls.part {v : AnnotatedTransactionVal} {es : List Callback} (h : PathCalls v es) :
    ∀ e ∈ es, e.part = .path ∨ e.part = .count := by
  obtain ⟨e₁, e₂, h₁, h₂, rfl⟩ := h
  intro e he
  rw [h₁.events, h₂.events] at he
  simp only [annotatedTransactionCallbacks, Callback.bip32Callbacks, List.mem_append,
    List.mem_flatMap, List.mem_singleton] at he
  rcases he with (((rfl | ⟨_, -, rfl⟩) | rfl) | ((rfl | ⟨_, -, rfl⟩) | rfl)) | rfl
  all_goals first
    | exact .inl rfl
    | exact .inr rfl

theorem InputCalls.part {v : AnnotatedTransactionVal} {es : List Callback} (h : InputCalls v es) :
    ∀ e ∈ es, e.part = .inputs ∨ e.part = .raw := by
  obtain ⟨cs, e, h, rfl⟩ := h
  exact List.forall_mem_cons.2
    ⟨.inl rfl, Callback.emits_inputs (p := fun e => e.part = .inputs ∨ e.part = .raw)
      (fun _ => id) _ _ _ h⟩

theorem OutputCalls.part {v : AnnotatedTransactionVal} {es : List Callback}
    (h : OutputCalls v es) : ∀ e ∈ es, e.part = .outputs ∨ e.part = .raw := by
  obtain ⟨cs, h⟩ := h
  exact Callback.emits_outputs (p := fun e => e.part = .outputs ∨ e.part = .raw) (fun _ => id)
    _ _ _ h

theorem DataCalls.part {v : AnnotatedTransactionVal} {es : List Callback}
    (h : DataCalls v es) : ∀ e ∈ es, e.part = .outputsData ∨ e.part = .raw := by
  obtain ⟨cs, h⟩ := h
  exact Callback.emits_outputsData (p := fun e => e.part = .outputsData ∨ e.part = .raw)
    (fun _ => id) _ _ _ h

theorem WitnessCalls.part {v : AnnotatedTransactionVal} {es : List Callback}
    (h : WitnessCalls v es) : ∀ e ∈ es, e.part = .witnesses := by
  obtain ⟨cs, h⟩ := h
  exact Callback.emits_witnesses _ _ _ h

/-- The run of the callbacks over a transaction: for each part the calls and the states that they
find. -/
structure Transcript (env : Env) (P : NvramData → Prop) (v : AnnotatedTransactionVal) where
  pathTrace : List (SignState × Callback)
  /-- The state behind the paths and the number of inputs. -/
  counted : SignState
  headerTrace : List (SignState × Callback)
  /-- The state before the inputs. -/
  opened : SignState
  inputTrace : List (SignState × Callback)
  /-- The state behind the inputs. -/
  spent : SignState
  outputTrace : List (SignState × Callback)
  /-- The state behind the outputs. -/
  paid : SignState
  dataTrace : List (SignState × Callback)
  /-- The state behind the data of the outputs. -/
  stored : SignState
  /-- The state behind the raw transaction. -/
  finalized : SignState
  witnessTrace : List (SignState × Callback)
  /-- The state behind the witnesses. -/
  last : SignState
  paths : PathCalls v (pathTrace.map Prod.snd) ∧
    Visits (SignState.Step env P) {} pathTrace counted
  header : HeaderCalls v (headerTrace.map Prod.snd) ∧
    Visits (SignState.Step env P) counted headerTrace opened
  inputs : InputCalls v (inputTrace.map Prod.snd) ∧
    Visits (SignState.Step env P) opened inputTrace spent
  outputs : OutputCalls v (outputTrace.map Prod.snd) ∧
    Visits (SignState.Step env P) spent outputTrace paid
  outputsData : DataCalls v (dataTrace.map Prod.snd) ∧
    Visits (SignState.Step env P) paid dataTrace stored
  finalize : stored.Step env P .finalizeRawTransaction finalized
  witnesses : WitnessCalls v (witnessTrace.map Prod.snd) ∧
    Visits (SignState.Step env P) finalized witnessTrace last

namespace AnnotatedTransactionVal

/-- The pieces of the raw transaction, among those of the whole. -/
def rawPieces (v : AnnotatedTransactionVal) (cs : List Chunk) : List Chunk :=
  fieldPieces 24 (annotatedTransactionCallbacks.lens v) 3 cs

/-- The pieces of a field of the raw transaction. -/
def rawFieldPieces (v : AnnotatedTransactionVal) (i : ℕ) (cs : List Chunk) : List Chunk :=
  fieldPieces 28 (annotatedRawTransactionCallbacks.lens v.raw) i (v.rawPieces cs)

/-- The pieces of the witnesses. -/
def witnessPieces (v : AnnotatedTransactionVal) (cs : List Chunk) : List Chunk :=
  fieldPieces 24 (annotatedTransactionCallbacks.lens v) 4 cs

end AnnotatedTransactionVal

/-- The transaction has arrived in the pieces `cs`: the calls for its parts are those for their
pieces. -/
structure Transcript.Cut {v : AnnotatedTransactionVal} (t : Transcript env P v)
    (cs : List Chunk) : Prop where
  header : ∃ e₁ e₂,
    Tapped annotatedRawTransactionCallbacks.cellDeps.chunk [] (joined (v.rawFieldPieces 1 cs)) e₁ ∧
    Tapped annotatedRawTransactionCallbacks.headerDeps.chunk [] (joined (v.rawFieldPieces 2 cs))
      e₂ ∧
    t.headerTrace.map Prod.snd =
      [.computeNewOffsetsToHash v.raw.1, .blake2bChunk v.raw.2.1] ++ e₁ ++ e₂
  inputs : ∃ e, (MolSpec.annotatedCellInputVec annotatedRawTransactionCallbacks.inputs).Tr v.inputs
    (v.rawFieldPieces 3 cs) e ∧ t.inputTrace.map Prod.snd = .inputsStart :: e
  outputs : (MolSpec.cellOutputVec annotatedRawTransactionCallbacks.outputs).Tr v.outputs
    (v.rawFieldPieces 4 cs) (t.outputTrace.map Prod.snd)
  outputsData : (MolSpec.bytesVec annotatedRawTransactionCallbacks.outputsData).Tr v.outputsData
    (v.rawFieldPieces 5 cs) (t.dataTrace.map Prod.snd)
  witnesses : (MolSpec.bytesVec annotatedTransactionCallbacks.witnesses).Tr v.witnesses
    (v.witnessPieces cs) (t.witnessTrace.map Prod.snd)

/-- A run over the events of a transaction, taken apart. -/
theorem Steps.transcript {v : AnnotatedTransactionVal} {cs : List Chunk} {evs : List Callback}
    (hv : (MolSpec.annotatedTransaction annotatedTransactionCallbacks).Tr v cs evs)
    (h : Steps env P {} evs g) : ∃ t : Transcript env P v, t.last = g ∧ t.Cut cs := by
  obtain ⟨-, e₁, e₂, e₃, e₄, hsign, hchange, hraw, hwit, rfl⟩ := tr_annotatedTransaction hv
  obtain ⟨-, d₁, d₂, d₃, d₄, d₅, hdeps, hheaders, hinputs, houtputs, hdata, rfl⟩ :=
    tr_annotatedRawTransaction hraw
  obtain ⟨finalized, h, hwitnesses⟩ := Runs.append_iff.1 h
  obtain ⟨counted, hpaths, h⟩ := Runs.append_iff.1 h
  obtain ⟨stored, h, hfinalize⟩ := Runs.append_iff.1 h
  obtain ⟨paid, h, hstored⟩ := Runs.append_iff.1 h
  obtain ⟨spent, h, hpaid⟩ := Runs.append_iff.1 h
  rw [List.append_assoc _ _ d₃] at h
  obtain ⟨opened, hheader, hspent⟩ := Runs.append_iff.1 h
  obtain ⟨pathTrace, hpathCalls, hpaths⟩ := Visits.of_runs hpaths
  obtain ⟨headerTrace, hheaderCalls, hheader⟩ := Visits.of_runs hheader
  obtain ⟨inputTrace, hinputCalls, hspent⟩ := Visits.of_runs hspent
  obtain ⟨outputTrace, houtputCalls, hpaid⟩ := Visits.of_runs hpaid
  obtain ⟨dataTrace, hdataCalls, hstored⟩ := Visits.of_runs hstored
  obtain ⟨witnessTrace, hwitnessCalls, hwitnesses⟩ := Visits.of_runs hwitnesses
  have hdeps := events_cellDepVec hdeps
  have hheaders := events_byte32Vec hheaders
  exact ⟨{
    pathTrace := pathTrace
    counted := counted
    headerTrace := headerTrace
    opened := opened
    inputTrace := inputTrace
    spent := spent
    outputTrace := outputTrace
    paid := paid
    dataTrace := dataTrace
    stored := stored
    finalized := finalized
    witnessTrace := witnessTrace
    last := g
    paths := ⟨⟨e₁, e₂, hsign, hchange, hpathCalls⟩, hpaths⟩
    header := ⟨⟨d₁, d₂, _, _, hdeps, hheaders, hheaderCalls⟩, hheader⟩
    inputs := ⟨⟨_, d₃, hinputs, hinputCalls⟩, hspent⟩
    outputs := ⟨⟨_, houtputCalls ▸ houtputs⟩, hpaid⟩
    outputsData := ⟨⟨_, hdataCalls ▸ hdata⟩, hstored⟩
    finalize := Runs.single_iff.1 hfinalize
    witnesses := ⟨⟨_, hwitnessCalls ▸ hwit⟩, hwitnesses⟩ }, rfl, {
    header := ⟨d₁, d₂, hdeps, hheaders, hheaderCalls⟩
    inputs := ⟨d₃, hinputs, hinputCalls⟩
    outputs := houtputCalls ▸ houtputs
    outputsData := hdataCalls ▸ hdata
    witnesses := hwitnessCalls ▸ hwit }⟩

/-- What a session that has led to a prompt has read, and how. -/
structure Accepted (env : Env) (P : NvramData → Prop) (instruction : UInt8) (ps : List Packet)
    (prompt : Prompt) (g : SignState) (v : AnnotatedTransactionVal) (t : Transcript env P v) :
    Prop where
  /-- The packets begin with the encoding of `v`. -/
  reads : ∃ rest, (MolSpec.annotatedTransaction annotatedTransactionCallbacks).sem molNumMax
    (joined (ps.map Packet.chunk)) = .done v rest
  /-- The state at the end is that of the callbacks, marked as valid. -/
  last : g = { t.last with maybe.isValid := true }
  isUnsafe : t.last.maybe.isUnsafe = false
  hardReject : t.last.maybe.hardReject = false
  complete : ∃ nd, P nd ∧ g.signComplete nd instruction = .ok prompt

/-- What has been read takes this many bytes of the packets. -/
def AnnotatedTransactionVal.len (v : AnnotatedTransactionVal) : ℕ :=
  (MolSpec.annotatedTransaction annotatedTransactionCallbacks).len v

/-- **Sessions.**  A session that leads to a prompt has a transcript. -/
theorem signSession_cut {instruction : UInt8} {ps : List Packet} {prompt : Prompt}
    (hP : ∀ p ∈ ps, P p.nd) (h : signSession env instruction ps = some (prompt, g)) :
    ∃ v t, Accepted env P instruction ps prompt g v t ∧
      t.Cut (takeC v.len (ps.map Packet.chunk)) := by
  obtain ⟨v, rest, evs, hsem, htr, hend⟩ := signSession_steps hP h
  obtain ⟨g₁, hsteps, rfl⟩ := hend.steps
  obtain ⟨t, rfl, hcut⟩ := hsteps.transcript htr
  exact ⟨v, t, ⟨⟨rest, hsem⟩, rfl, hend.isUnsafe, hend.hardReject, hend.complete⟩, hcut⟩

theorem signSession_transcript {instruction : UInt8} {ps : List Packet} {prompt : Prompt}
    (hP : ∀ p ∈ ps, P p.nd) (h : signSession env instruction ps = some (prompt, g)) :
    ∃ v t, Accepted env P instruction ps prompt g v t := by
  obtain ⟨v, t, haccepted, -⟩ := signSession_cut hP h
  exact ⟨v, t, haccepted⟩

/-! ### Canonical encodings -/

theorem Callback.accepts : annotatedTransactionCallbacks.Accepts := by
  have hsize (f : UInt32 → Callback) : ({ size := sizeCallback f } : BytesCb Callback).Accepts := by
    intro n hn
    refine decide_eq_true ?_
    simp only [UInt32.le_iff_toNat_le, UInt32.toNat_add, UInt32.toNat_ofNat', UInt32.reduceToNat]
    omega
  exact ⟨⟨⟨fun _ _ => rfl, fun _ _ => rfl⟩, hsize setCellDataSize⟩,
    ⟨fun _ _ => rfl, fun _ _ => rfl⟩, hsize setCellDataSize, hsize hashWitnessLength⟩

/-- Paths of at most five components are accepted. -/
theorem Callback.initBip32Ok_of_le {n : ℕ} (hn : n ≤ maxBip32Path) :
    initBip32Ok (UInt32.ofNat n * 4 + 4) = true := by
  have hall : ∀ n ≤ maxBip32Path, initBip32Ok (UInt32.ofNat n * 4 + 4) = true := by decide
  exact hall n hn

/-- The parser reads back the encoding of a transaction. -/
theorem reads_transaction {t : AnnotatedTransaction} (hlen : t.encode.length < 2 ^ 32)
    (hsign : t.signPath.length ≤ maxBip32Path) (hchange : t.changePath.length ≤ maxBip32Path) :
    Reads (MolSpec.annotatedTransaction annotatedTransactionCallbacks) molNumMax t.encode t.value :=
  reads_annotatedTransaction _ Callback.accepts t hlen (Callback.initBip32Ok_of_le hsign)
    (Callback.initBip32Ok_of_le hchange)

/-- What has been read from packets that hold the encoding of a transaction. -/
theorem Accepted.value_eq {instruction : UInt8} {ps : List Packet} {prompt : Prompt}
    {v : AnnotatedTransactionVal} {t : Transcript env P v}
    (h : Accepted env P instruction ps prompt g v t) {a : AnnotatedTransaction}
    (hcut : joined (ps.map Packet.chunk) = a.encode) (hlen : a.encode.length < 2 ^ 32)
    (hsign : a.signPath.length ≤ maxBip32Path) (hchange : a.changePath.length ≤ maxBip32Path) :
    v = a.value := by
  obtain ⟨rest, hsem⟩ := h.reads
  have hreads := reads_transaction hlen hsign hchange []
  rw [List.append_nil, ← hcut, hsem] at hreads
  cases hreads
  rfl

/-! ### Nothing has been refused -/

/-- No call has refused the transaction for good. -/
theorem Runs.hardReject {g g' : SignState} {es : List Callback} (h : Steps env P g es g')
    (hok : g'.maybe.hardReject = false) : g.maybe.hardReject = false :=
  h.backward (I := fun s => s.maybe.hardReject = false) hok fun _ _ _ hstep hok' => by
    by_contra hbad
    rw [hstep.worsens.hardReject (by simpa using hbad)] at hok'
    cases hok'

/-- No call has found the transaction unsafe. -/
theorem Runs.isUnsafe {g g' : SignState} {es : List Callback} (h : Steps env P g es g')
    (hok : g'.maybe.isUnsafe = false) : g.maybe.isUnsafe = false :=
  h.backward (I := fun s => s.maybe.isUnsafe = false) hok fun _ _ _ hstep hok' => by
    by_contra hbad
    rw [hstep.worsens.isUnsafe (by simpa using hbad)] at hok'
    cases hok'

/-- What is hashed by calls for the raw transaction. -/
theorem Runs.hashView {g g' : SignState} {es : List Callback} (h : Steps env P g es g')
    (hes : ∀ e ∈ es, e.part ≠ .witnesses ∧ e.part ≠ .final)
    (hok : g'.maybe.hardReject = false) : g'.hashView = es.foldl (HashView.act env) g.hashView :=
  h.project (I := fun s => s.maybe.hardReject = false) hok
    (fun _ _ _ hstep => (Runs.single_iff.2 hstep).hardReject)
    fun _ e _ he hstep hok' => hstep.hashView (hes e he).1 (hes e he).2 hok'

/-- The number of inputs is only declared once. -/
theorem Runs.inputCount {g g' : SignState} {es : List Callback} (h : Steps env P g es g')
    (hes : ∀ e ∈ es, e.part ≠ .count) : g'.inputCount = g.inputCount :=
  h.frame (f := SignState.inputCount) fun _ e _ he hstep => hstep.framed.inputCount (hes e he)

namespace Transcript

variable {v : AnnotatedTransactionVal}

theorem inputCount_counted (t : Transcript env P v) : t.counted.inputCount = v.inputCount := by
  obtain ⟨⟨e₁, e₂, -, -, hcalls⟩, h⟩ := t.paths
  have h := hcalls ▸ h.runs
  obtain ⟨s, -, h⟩ := Runs.append_iff.1 h
  obtain ⟨nd, io, io', -, hd⟩ := Runs.single_iff.1 h
  simp only [dispatch, Except.ok.injEq, Prod.mk.injEq] at hd
  rw [← hd.1]
  rfl

/-- What follows the inputs has not refused the transaction for good. -/
theorem hardReject_spent (t : Transcript env P v) (hok : t.last.maybe.hardReject = false) :
    t.spent.maybe.hardReject = false := by
  have hrest := (t.outputs.2.append t.outputsData.2).append (.cons t.finalize t.witnesses.2)
  exact hrest.runs.hardReject hok

/-- The calls up to the end of the raw transaction. -/
def beforeTrace (t : Transcript env P v) : List (SignState × Callback) :=
  t.pathTrace ++ t.headerTrace ++ t.inputTrace ++ t.outputTrace ++ t.dataTrace

/-- All calls. -/
def trace (t : Transcript env P v) : List (SignState × Callback) :=
  t.beforeTrace ++ (t.stored, .finalizeRawTransaction) :: t.witnessTrace

theorem visits_before (t : Transcript env P v) :
    Visits (SignState.Step env P) {} t.beforeTrace t.stored :=
  (((t.paths.2.append t.header.2).append t.inputs.2).append t.outputs.2).append t.outputsData.2

theorem visits (t : Transcript env P v) : Visits (SignState.Step env P) {} t.trace t.last :=
  t.visits_before.append (.cons t.finalize t.witnesses.2)

theorem part_before (t : Transcript env P v) :
    ∀ e ∈ t.beforeTrace.map Prod.snd, e.part ≠ .witnesses ∧ e.part ≠ .final := by
  simp only [beforeTrace, List.map_append, List.forall_mem_append]
  refine ⟨⟨⟨⟨fun e he => ?_, fun e he => ?_⟩, fun e he => ?_⟩, fun e he => ?_⟩, fun e he => ?_⟩
  · rcases t.paths.1.part e he with h | h <;> rw [h] <;> decide
  · rw [t.header.1.part e he]
    decide
  · rcases t.inputs.1.part e he with h | h <;> rw [h] <;> decide
  · rcases t.outputs.1.part e he with h | h <;> rw [h] <;> decide
  · rcases t.outputsData.1.part e he with h | h <;> rw [h] <;> decide

end Transcript

end LedgerNervos
