import LedgerNervos.Sign.Inputs
import LedgerNervos.Sign.Pieces
import LedgerNervos.Sign.Witnesses

/-!
# The transaction hash

The encoding of the raw transaction is not among the bytes that arrive: there the inputs come with
the transactions that they refer to, and what is hashed of them is shorter.  So the header that has
arrived is corrected before it is hashed, by what the inputs are expected to take.  Here it is
shown that the bytes hashed are the encoding of the transaction.
-/

namespace LedgerNervos

variable {env : Env} {P : NvramData → Prop} {g : SignState}

open Callback (annotatedCellInputCallbacks annotatedRawTransactionCallbacks
  annotatedTransactionCallbacks)

/-! ### The transaction -/

/-- The input as it stands in the transaction: it refers to the output of a transaction by the hash
of this transaction. -/
def AnnotatedCellInput.cellInput (env : Env) (i : AnnotatedCellInput) : CellInput where
  since := i.input.since
  previousOutput := {
    txHash := env.blake2b i.source.encode
    index := i.input.previousOutput.index }

/-- The transaction without annotations. -/
def AnnotatedRawTransaction.transaction (env : Env) (t : AnnotatedRawTransaction) :
    RawTransaction where
  version := t.version
  cellDeps := t.cellDeps
  headerDeps := t.headerDeps
  inputs := t.inputs.map fun i => i.cellInput env
  outputs := t.outputs
  outputsData := t.outputsData

/-! ### The header -/

theorem u32le_ofNat (x : ℕ) : u32le (UInt32.ofNat x) = num x := by
  have hmod (n x : ℕ) : leBytes n (x % 256 ^ n) = leBytes n x := by
    induction n generalizing x with
    | zero => rfl
    | succ n ih =>
      rw [leBytes, leBytes, Nat.pow_succ', ← ih (x / 256), Nat.mod_mul_right_div_self]
      congr 1
      apply UInt8.toNat_inj.1
      rw [UInt8.toNat_ofNat', UInt8.toNat_ofNat', Nat.mod_mul_right_mod]
  rw [u32le, num, UInt32.toNat_ofNat', ← hmod 4 x]
  rfl

/-- The header of an encoding is made up of its words. -/
theorem encodeParts_eq (ps : List (List UInt8)) :
    encodeParts ps = (headerWords ps).flatMap u32le ++ ps.flatten := by
  have hwords (xs : List ℕ) : (xs.map UInt32.ofNat).flatMap u32le = xs.flatMap num := by
    rw [List.flatMap_map]
    exact congrArg (xs.flatMap ·) (funext u32le_ofNat)
  rw [encodeParts, headerWords, List.flatMap_cons, u32le_ofNat, hwords, List.append_assoc]

theorem length_headerWords (ps : List (List UInt8)) : (headerWords ps).length = 1 + ps.length := by
  rw [headerWords, List.length_cons, List.length_map, length_offsetsFrom, Nat.add_comm]

theorem length_flatMap_u32le (ws : List UInt32) : (ws.flatMap u32le).length = 4 * ws.length := by
  induction ws with
  | nil => rfl
  | cons w ws ih =>
    rw [List.flatMap_cons, List.length_append, ih, u32le, length_leBytes, List.length_cons]
    omega

/-- The header that is hashed is that of the parts with `ins'` for `ins`: the sizes and offsets are
taken modulo `2 ^ 32`, and so is the difference. -/
theorem hashedHeader_eq {n : ℕ} {version deps hdeps ins outs data ins' : List UInt8}
    (h : ins'.length = 4 + 44 * n) :
    hashedHeader (UInt32.ofNat n) (headerWords [version, deps, hdeps, ins, outs, data]) =
      (headerWords [version, deps, hdeps, ins', outs, data]).flatMap u32le := by
  refine congrArg (List.flatMap u32le) ?_
  have hsub (x y z : UInt32) : x + y - x - z = y - z := by grind
  simp only [headerWords, offsetsFrom, List.map_cons, List.map_nil, List.getD_cons_zero,
    List.getD_cons_succ, List.length_cons, List.length_nil, List.flatten_cons, List.flatten_nil,
    List.length_append, h, UInt32.ofNat_add, UInt32.ofNat_mul, hsub, List.cons.injEq, and_true,
    true_and]
  -- the total size, and the offsets of the two fields behind the inputs
  refine ⟨?_, ?_, ?_⟩
  · grind
  · grind
  · grind

/-! ### What is hashed, part by part -/

namespace HashView

/-- The calls for the paths hash nothing. -/
theorem act_of_path {e : Callback} (h : e.part = .path) (x : HashView) : act env x e = x := by
  cases e
  all_goals first
    | rfl
    | cases h

theorem foldl_paths {v : AnnotatedTransactionVal} {es : List Callback} (h : PathCalls v es)
    (x : HashView) : es.foldl (act env) x = { x with inputCount := v.inputCount } := by
  obtain ⟨e₁, e₂, h₁, h₂, rfl⟩ := h
  have hidle : ∀ e ∈ e₁ ++ e₂, ∀ x, act env x e = x := by
    intro e he
    refine act_of_path ?_
    rw [h₁.events, h₂.events] at he
    simp only [annotatedTransactionCallbacks, Callback.bip32Callbacks, List.mem_append,
      List.mem_flatMap, List.mem_singleton] at he
    rcases he with ((rfl | ⟨_, -, rfl⟩) | rfl) | ((rfl | ⟨_, -, rfl⟩) | rfl)
    all_goals rfl
  rw [List.foldl_append, foldl_of_idle hidle]
  rfl

/-- The pieces are hashed that come with calls that hash nothing. -/
theorem foldl_tapped (env : Env) {chunk : Chunk → List Callback} {es evs : List Callback}
    {bs : List UInt8} (hchunk : ∀ c, chunk c = [.blake2bChunk c.bytes])
    (hidle : ∀ e ∈ es, ∀ x, act env x e = x) (h : Tapped chunk es bs evs) (x : HashView) :
    evs.foldl (act env) x = { x with fed := x.fed ++ bs } := by
  have hfold := h.foldl (act env) (fun x bs => { x with fed := x.fed ++ bs })
    (fun c x => by rw [hchunk]; rfl) (fun x => by simp) (fun x bs bs' => by simp)
    (fun e he x bs => by rw [hidle e he, hidle e he]) x
  rwa [foldl_of_idle hidle] at hfold

theorem foldl_outputs {v : Option (List CellOutputVal)} {cs : List Chunk} {evs : List Callback}
    (h : (MolSpec.cellOutputVec annotatedRawTransactionCallbacks.outputs).Tr v cs evs)
    (x : HashView) : evs.foldl (act env) x = { x with fed := x.fed ++ joined cs } := by
  obtain ⟨e₀, e₁, h₀, htap, rfl⟩ := h
  have hidle : ∀ e ∈ e₀, ∀ x, act env x e = x := by
    refine Spec.Emits.dynVec (p := fun e => ∀ x, act env x e = x) ?_ ?_ ?_ (emits_cellOutput ?_
      (emits_script ?_ ?_ ?_ (emits_bytes ?_ ?_ ?_) ?_)
      (emits_script ?_ ?_ ?_ (emits_bytes ?_ ?_ ?_) ?_) ?_) _ _ _ h₀
    all_goals
      simp only [annotatedRawTransactionCallbacks, List.mem_singleton, List.not_mem_nil,
        false_implies, implies_true, forall_eq]
    all_goals intros; rfl
  rw [List.foldl_append, foldl_tapped env (fun _ => rfl) hidle htap]
  rfl

theorem foldl_outputsData {v : Option (List (List UInt8))} {cs : List Chunk} {evs : List Callback}
    (h : (MolSpec.bytesVec annotatedRawTransactionCallbacks.outputsData).Tr v cs evs)
    (x : HashView) : evs.foldl (act env) x = { x with fed := x.fed ++ joined cs } := by
  obtain ⟨e₀, e₁, h₀, htap, rfl⟩ := h
  have hidle : ∀ e ∈ e₀, ∀ x, act env x e = x := by
    refine Spec.Emits.dynVec (p := fun e => ∀ x, act env x e = x) ?_ ?_ ?_ (emits_bytes ?_ ?_ ?_)
      _ _ _ h₀
    all_goals
      simp only [annotatedRawTransactionCallbacks, MolReader.bytes, Reader.close, Reader.bytes,
        sizeCallback, List.append_nil, List.mem_singleton, List.not_mem_nil, false_implies,
        implies_true, forall_eq]
    all_goals intros; rfl
  rw [List.foldl_append, foldl_tapped env (fun _ => rfl) hidle htap]
  rfl

end HashView

namespace Transcript.Cut

variable {v : AnnotatedTransactionVal} {t : Transcript env P v} {cs : List Chunk}

/-- What is hashed before the inputs. -/
theorem fed_opened (h : t.Cut cs) (hok : t.opened.maybe.hardReject = false) :
    t.opened.hashView.fed = hashedHeader v.inputCount v.raw.1 ++
      (v.raw.2.1 ++ (joined (v.rawFieldPieces 1 cs) ++ joined (v.rawFieldPieces 2 cs))) := by
  have hcounted := t.header.2.runs.hardReject hok
  have hpaths := t.paths.2.runs.hashView (fun e he => by
    rcases t.paths.1.part e he with h | h <;> rw [h] <;> decide) hcounted
  have hheader := t.header.2.runs.hashView (fun e he => by
    rw [t.header.1.part e he]
    decide) hok
  obtain ⟨e₁, e₂, h₁, h₂, hcalls⟩ := h.header
  have hfold₁ := HashView.foldl_tapped env (fun _ => rfl) (List.forall_mem_nil _) h₁
  have hfold₂ := HashView.foldl_tapped env (fun _ => rfl) (List.forall_mem_nil _) h₂
  rw [HashView.foldl_paths t.paths.1] at hpaths
  have hfed : t.counted.hashView.fed = [] := by
    rw [hpaths]
    rfl
  have hcount : t.counted.hashView.inputCount = v.inputCount := by rw [hpaths]
  rw [hcalls, List.foldl_append, List.foldl_append, hfold₁, hfold₂, List.foldl_cons,
    List.foldl_cons, List.foldl_nil] at hheader
  have hwords (x : HashView) : (x.act env (.computeNewOffsetsToHash v.raw.1)).act env
      (.blake2bChunk v.raw.2.1) =
        { x with fed := x.fed ++ hashedHeader x.inputCount v.raw.1 ++ v.raw.2.1 } := rfl
  rw [hheader, hwords, hfed, hcount, List.nil_append]
  simp only [List.append_assoc]

/-- What is hashed of the raw transaction, by the pieces in which it has arrived; each input takes
44 bytes. -/
theorem fed_stored (h : t.Cut cs) (hok : t.stored.maybe.hardReject = false)
    {vs : List AnnotatedCellInputVal} (hvs : v.inputs = some vs) :
    vs.length = v.inputCount.toNat ∧ (∀ r ∈ inputRecords env vs
      ((joined (v.rawFieldPieces 3 cs)).drop (8 + 4 * (vs.length - 1))), r.length = 44) ∧
      t.stored.hashState.fed =
      hashedHeader v.inputCount v.raw.1 ++ [v.raw.2.1, joined (v.rawFieldPieces 1 cs),
        joined (v.rawFieldPieces 2 cs), u32le v.inputCount ++ (inputRecords env vs
          ((joined (v.rawFieldPieces 3 cs)).drop (8 + 4 * (vs.length - 1)))).flatten,
        joined (v.rawFieldPieces 4 cs), joined (v.rawFieldPieces 5 cs)].flatten := by
  have hpaid := t.outputsData.2.runs.hardReject hok
  have hspent := t.outputs.2.runs.hardReject hpaid
  have hopened := t.inputs.2.runs.hardReject hspent
  have hdata := t.outputsData.2.runs.hashView (fun e he => by
    rcases t.outputsData.1.part e he with h | h <;> rw [h] <;> decide) hok
  have houtputs := t.outputs.2.runs.hashView (fun e he => by
    rcases t.outputs.1.part e he with h | h <;> rw [h] <;> decide) hpaid
  rw [HashView.foldl_outputsData h.outputsData] at hdata
  rw [HashView.foldl_outputs h.outputs] at houtputs
  -- the vector of inputs, behind its header
  obtain ⟨e, hinputs, hcalls⟩ := h.inputs
  rw [hvs] at hinputs
  obtain ⟨_, ⟨hlen, items, hitems, rfl⟩, rfl⟩ := hinputs
  obtain ⟨hn, hlength, hview⟩ := t.hashView_items hspent hlen hitems hcalls
  rw [joined_dropC] at hlength hview
  refine ⟨hn, hlength, ?_⟩
  change t.stored.hashView.fed = _
  rw [hdata, houtputs, hview]
  change t.opened.hashView.fed ++ _ ++ _ ++ _ = _
  rw [h.fed_opened hopened]
  simp only [List.flatten_cons, List.flatten_nil, List.append_nil, List.append_assoc]

end Transcript.Cut

/-! ### Inputs -/

/-- What is hashed of an input is its encoding. -/
theorem inputRecord_value (env : Env) {i : AnnotatedCellInput} (hlen : i.encode.length < 2 ^ 32) :
    inputRecord env i.value i.encode = (i.cellInput env).encode := by
  have hsource : i.source.encode.length < 2 ^ 32 :=
    length_lt_of_mem (by simp [AnnotatedCellInput.parts]) hlen
  have hlen' := (reads_rawTransaction _ Callback.accepts.source _ hsource).len
    (MolReader.rawTransaction_lawful _)
  have hdrop : (i.encode.drop 12).drop 44 = i.source.encode := by
    have hheader : ((headerWords i.parts).flatMap u32le).length = 12 := by
      rw [length_flatMap_u32le, length_headerWords]
      rfl
    rw [AnnotatedCellInput.encode, encodeParts_eq, List.drop_left' hheader]
    simp only [AnnotatedCellInput.parts, List.flatten_cons, List.flatten_nil, List.append_nil]
    rw [List.drop_left' i.input.length_encode]
  have htake : (i.source.encode.take ((MolSpec.rawTransaction
      annotatedCellInputCallbacks.source).len i.source.value)) = i.source.encode :=
    List.take_of_length_le (Nat.le_of_eq hlen'.symm)
  have hindex : molUnpackNumber (num i.input.previousOutput.index.toNat) =
      i.input.previousOutput.index := by
    rw [num, molUnpackNumber_leBytes, UInt32.ofNat_toNat]
  rw [inputRecord, hdrop]
  simp only [AnnotatedCellInput.value, CellInput.value, OutPoint.value, htake, hindex]
  simp only [AnnotatedCellInput.cellInput, CellInput.encode, CellInput.parts, OutPoint.encode,
    OutPoint.parts, List.flatten_cons, List.flatten_nil, List.append_nil]
  rfl

theorem inputRecords_value (env : Env) {is : List AnnotatedCellInput}
    (hlen : ∀ i ∈ is, i.encode.length < 2 ^ 32) :
    inputRecords env (is.map AnnotatedCellInput.value) (is.map AnnotatedCellInput.encode).flatten =
      is.map fun i => (i.cellInput env).encode := by
  induction is with
  | nil => rfl
  | cons i is ih =>
    obtain ⟨hi, his⟩ := List.forall_mem_cons.1 hlen
    have hitem := (reads_annotatedCellInput annotatedCellInputCallbacks Callback.accepts.source i hi
      (.max _)).len (MolReader.annotatedCellInput_lawful _)
    rw [List.map_cons, List.map_cons, List.flatten_cons, inputRecords, hitem, List.take_left,
      List.drop_left, inputRecord_value env hi, ih his]
    rfl

/-! ### The hash -/

theorem Canonical.fed_stored {a : AnnotatedTransaction} {v : AnnotatedTransactionVal}
    {t : Transcript env P v} {cs : List Chunk} (h : Canonical a t cs)
    (hlen : a.encode.length < 2 ^ 32) (hinputs : a.raw.inputs ≠ [])
    (hok : t.stored.maybe.hardReject = false) :
    t.stored.hashState.fed = (a.raw.transaction env).encode := by
  have hraw : a.raw.encode.length < 2 ^ 32 :=
    length_lt_of_mem (by simp [AnnotatedTransaction.parts]) hlen
  have hitem : ∀ i ∈ a.raw.inputs, i.encode.length < 2 ^ 32 := by
    intro i hi
    have hvec : (encodeParts (a.raw.inputs.map AnnotatedCellInput.encode)).length < 2 ^ 32 :=
      length_lt_of_mem (by simp [AnnotatedRawTransaction.parts]) hraw
    exact length_lt_of_mem (List.mem_map_of_mem hi) hvec
  have hvs : v.inputs = some (a.raw.inputs.map AnnotatedCellInput.value) := by
    rw [h.value]
    exact if_neg (by simpa using hinputs)
  obtain ⟨hn, -, hfed⟩ := h.cut.fed_stored hok hvs
  rw [List.length_map] at hn hfed
  have hcount : v.inputCount = UInt32.ofNat a.raw.inputs.length := by
    rw [hn, UInt32.ofNat_toNat]
  -- the items of the vector of inputs, behind its header
  have hitems : (encodeParts (a.raw.inputs.map AnnotatedCellInput.encode)).drop
      (8 + 4 * (a.raw.inputs.length - 1)) =
        (a.raw.inputs.map AnnotatedCellInput.encode).flatten := by
    have hpos := List.length_pos_iff.2 hinputs
    rw [encodeParts_eq, List.drop_left']
    rw [length_flatMap_u32le, length_headerWords, List.length_map]
    omega
  have hsize : (encodeInputs (a.raw.transaction env).inputs).length =
      4 + 44 * a.raw.inputs.length := by
    rw [encodeInputs, length_encodeFixVec, length_flatten_map CellInput.length_encode,
      AnnotatedRawTransaction.transaction, List.length_map, Nat.mul_comm]
  have hheader : hashedHeader (UInt32.ofNat a.raw.inputs.length) (headerWords a.raw.parts) =
      (headerWords (a.raw.transaction env).parts).flatMap u32le := hashedHeader_eq hsize
  have hrecords : u32le (UInt32.ofNat a.raw.inputs.length) ++
      (a.raw.inputs.map fun i => (i.cellInput env).encode).flatten =
        encodeInputs (a.raw.transaction env).inputs := by
    rw [encodeInputs, encodeFixVec, u32le_ofNat, AnnotatedRawTransaction.transaction,
      List.map_map, List.length_map]
    rfl
  have hparts : v.raw.1 = headerWords a.raw.parts ∧ v.raw.2.1 = a.raw.version.1 := by
    rw [h.value]
    exact ⟨rfl, rfl⟩
  rw [hfed, h.raw 1, h.raw 2, h.raw 3, h.raw 4, h.raw 5, hparts.1, hparts.2, hcount, hheader]
  have hrec := inputRecords_value env hitem
  rw [← hitems] at hrec
  change _ ++ [_, _, _, _ ++ (inputRecords env _ ((encodeParts _).drop _)).flatten, _, _].flatten =
    _
  rw [hrec, hrecords, RawTransaction.encode, encodeParts_eq]
  rfl

/-- **Transaction hash.**  When the packets hold the encoding of a transaction that has inputs, the
transaction hash is that of the encoding of the transaction without its annotations. -/
theorem transaction_hash (env : Env) (instruction : UInt8) (ps : List Packet) (prompt : Prompt)
    (g : SignState) (a : AnnotatedTransaction) (hlen : a.encode.length < 2 ^ 32)
    (hcut : joined (ps.map Packet.chunk) = a.encode) (hinputs : a.raw.inputs ≠ [])
    (h : signSession env instruction ps = some (prompt, g)) :
    g.tx.transactionHash = env.blake2b (a.raw.transaction env).encode := by
  obtain ⟨v, t, haccepted, hcanonical⟩ :=
    signSession_canonical (P := fun _ => True) (fun _ _ => trivial) hlen hcut h
  have hstored : t.stored.maybe.hardReject = false :=
    (Visits.cons t.finalize t.witnesses.2).runs.hardReject haccepted.hardReject
  have hhash := (t.finalized_hash haccepted.hardReject haccepted.isUnsafe).1
  rw [hcanonical.fed_stored hlen hinputs hstored, ← t.transactionHash_last] at hhash
  rw [haccepted.last]
  exact hhash

theorem transaction_hash_payment :
    ∃ prompt g, signSession Env.reference 0x03 (cutPackets 3 payment.encode) = some (prompt, g) ∧
      g.tx.transactionHash =
        Env.reference.blake2b (payment.raw.transaction Env.reference).encode := by
  have hsome : (signSession Env.reference 0x03 (cutPackets 3 payment.encode)).isSome = true := by
    decide +kernel
  obtain ⟨⟨prompt, g⟩, h⟩ := Option.isSome_iff_exists.1 hsome
  exact ⟨prompt, g, h, transaction_hash Env.reference 0x03 _ prompt g payment (by decide +kernel)
    (joined_cutPackets 3 (by decide +kernel)) (by decide) h⟩

end LedgerNervos
