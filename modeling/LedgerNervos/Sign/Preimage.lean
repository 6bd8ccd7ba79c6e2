import LedgerNervos.Molecule.Holds
import LedgerNervos.Sign.ActiveCell
import LedgerNervos.Sign.Decoding
import LedgerNervos.Sign.TransactionHash

/-!
# What is checked is what is hashed

The device reads a transaction from front to back and ignores the offsets of fields and items; a
node decodes the bytes that have been hashed by these offsets.  The two cannot differ on bytes
that the node accepts: what decodes is the encoding of what it is decoded to
(`RawTransaction.decodes`), and from an encoding the reader reads what has been encoded
(`Spec.AnySize.eq_of_reads`).

What is left to show is that the bytes that are hashed are the bytes that the reader reads.  For the
transaction that an input refers to, they are.  Of the transaction itself the header and
the inputs are hashed in another form, so the parts before the outputs are peeled off: the
vectors of items of a fixed size begin with their number, and so their ends are found.
-/

namespace LedgerNervos

variable {env : Env} {P : NvramData → Prop} {g : SignState}

open Callback (annotatedCellInputCallbacks annotatedRawTransactionCallbacks
  annotatedTransactionCallbacks)

/-! ### The pieces of what has been read -/

/-- The pieces that a session has read hold what it has read. -/
theorem Accepted.holds {instruction : UInt8} {ps : List Packet} {prompt : Prompt}
    {v : AnnotatedTransactionVal} {t : Transcript env P v}
    (h : Accepted env P instruction ps prompt g v t) :
    ∃ rest, (MolSpec.annotatedTransaction annotatedTransactionCallbacks).Holds molNumMax v
      (takeC v.len (ps.map Packet.chunk)) rest := by
  obtain ⟨rest, hsem⟩ := h.reads
  obtain ⟨-, hrest⟩ := (MolReader.annotatedTransaction_lawful _).rest hsem
  refine ⟨rest, ?_⟩
  rw [Spec.Holds, joined_takeC, hrest]
  change Spec.sem _ _ (List.take v.len _ ++ List.drop v.len _) = _
  rw [List.take_append_drop, hsem, hrest]

/-- The raw transaction. -/
theorem holds_raw {v : AnnotatedTransactionVal} {cs : List Chunk} {rest : List UInt8}
    (h : (MolSpec.annotatedTransaction annotatedTransactionCallbacks).Holds molNumMax v cs rest) :
    ∃ size rest', (MolSpec.annotatedRawTransaction annotatedRawTransactionCallbacks).Holds size
      v.raw (v.rawPieces cs) rest' := by
  have hwit := LawfulFields.cons (MolReader.bytesVec_lawful annotatedTransactionCallbacks.witnesses)
    LawfulFields.nil
  have hraw := LawfulFields.cons
    (MolReader.annotatedRawTransaction_lawful annotatedRawTransactionCallbacks) hwit
  have hcount := LawfulFields.cons (Lawful.array 4 annotatedTransactionCallbacks.inputCount) hraw
  have hchange := LawfulFields.cons
    (MolReader.bip32_lawful annotatedTransactionCallbacks.changePath) hcount
  have hsign := LawfulFields.cons
    (MolReader.bip32_lawful annotatedTransactionCallbacks.signPath) hchange
  have h := Spec.Holds.table hsign h
  have h := (FieldsSpec.Holds.cons (MolReader.bip32_lawful _) hchange h).2
  have h := (FieldsSpec.Holds.cons (MolReader.bip32_lawful _) hcount h).2
  have h := (FieldsSpec.Holds.cons (Lawful.array _ _) hraw h).2
  have h := (FieldsSpec.Holds.cons (MolReader.annotatedRawTransaction_lawful _) hwit h).1
  simp only [dropC_dropC] at h
  simp only [AnnotatedTransactionVal.rawPieces, fieldPieces, AnnotatedTransactionCb.lens,
    List.take_succ_cons, List.take_zero, List.sum_cons, List.sum_nil, Nat.add_zero,
    ← Nat.add_assoc]
  exact ⟨_, _, h⟩

/-- The fields of the raw transaction, as their pieces hold them. -/
structure HoldsRaw (v : AnnotatedTransactionVal) (cs : List Chunk) : Prop where
  version : v.raw.2.1.length = 4
  cellDeps : ∃ size rest, (MolSpec.cellDepVec annotatedRawTransactionCallbacks.cellDeps).Holds size
    v.raw.2.2.1 (v.rawFieldPieces 1 cs) rest
  headerDeps : ∃ size rest,
    (MolSpec.byte32Vec annotatedRawTransactionCallbacks.headerDeps).Holds size v.raw.2.2.2.1
      (v.rawFieldPieces 2 cs) rest
  inputs : ∃ size rest,
    (MolSpec.annotatedCellInputVec annotatedRawTransactionCallbacks.inputs).Holds size v.inputs
      (v.rawFieldPieces 3 cs) rest
  outputs : ∃ size size' rest,
    (MolSpec.cellOutputVec annotatedRawTransactionCallbacks.outputs).Holds size v.outputs
      (v.rawFieldPieces 4 cs) (joined (v.rawFieldPieces 5 cs) ++ rest) ∧
    (MolSpec.bytesVec annotatedRawTransactionCallbacks.outputsData).Holds size' v.outputsData
      (v.rawFieldPieces 5 cs) rest

theorem holdsRaw {v : AnnotatedTransactionVal} {cs : List Chunk} {size : UInt32}
    {rest : List UInt8}
    (h : (MolSpec.annotatedRawTransaction annotatedRawTransactionCallbacks).Holds size v.raw
      (v.rawPieces cs) rest) : HoldsRaw v cs := by
  have hdata := LawfulFields.cons
    (MolReader.bytesVec_lawful annotatedRawTransactionCallbacks.outputsData) LawfulFields.nil
  have houtputs := LawfulFields.cons
    (MolReader.cellOutputVec_lawful annotatedRawTransactionCallbacks.outputs) hdata
  have hinputs := LawfulFields.cons
    (MolReader.annotatedCellInputVec_lawful annotatedRawTransactionCallbacks.inputs) houtputs
  have hheaders := LawfulFields.cons
    (MolReader.byte32Vec_lawful annotatedRawTransactionCallbacks.headerDeps) hinputs
  have hdeps := LawfulFields.cons
    (MolReader.cellDepVec_lawful annotatedRawTransactionCallbacks.cellDeps) hheaders
  have hversion := LawfulFields.cons (Lawful.array 4 annotatedRawTransactionCallbacks.version) hdeps
  have h := Spec.Holds.table hversion (Spec.Holds.of_closePlain h)
  obtain ⟨h₀, h⟩ := FieldsSpec.Holds.cons (Lawful.array _ _) hdeps h
  obtain ⟨h₁, h⟩ := FieldsSpec.Holds.cons (MolReader.cellDepVec_lawful _) hheaders h
  obtain ⟨h₂, h⟩ := FieldsSpec.Holds.cons (MolReader.byte32Vec_lawful _) hinputs h
  obtain ⟨h₃, h⟩ := FieldsSpec.Holds.cons (MolReader.annotatedCellInputVec_lawful _) houtputs h
  obtain ⟨h₄, h⟩ := FieldsSpec.Holds.cons (MolReader.cellOutputVec_lawful _) hdata h
  obtain ⟨h₅, -⟩ := FieldsSpec.Holds.cons (MolReader.bytesVec_lawful _) LawfulFields.nil h
  -- behind the pieces of the outputs come those of the data
  have hsplit (n : ℕ) (ds : List Chunk) :
      joined ds = joined (takeC n ds) ++ joined (dropC n ds) := by
    rw [joined_takeC, joined_dropC, List.take_append_drop]
  rw [hsplit ((MolSpec.bytesVec annotatedRawTransactionCallbacks.outputsData).len v.outputsData)
    (dropC _ (dropC _ _)), List.append_assoc] at h₄
  simp only [dropC_dropC] at h₁ h₂ h₃ h₄ h₅
  refine ⟨?_, ?_, ?_, ?_, ?_⟩
  · obtain ⟨hle, hversion, -⟩ := readN_done h₀
    exact (congrArg List.length hversion).trans (List.length_take_of_le hle)
  all_goals
    simp only [AnnotatedTransactionVal.rawFieldPieces, fieldPieces, AnnotatedRawTransactionCb.lens,
      List.take_succ_cons, List.take_zero, List.sum_cons, List.sum_nil, Nat.add_zero,
      ← Nat.add_assoc]
  · exact ⟨_, _, h₁⟩
  · exact ⟨_, _, h₂⟩
  · exact ⟨_, _, h₃⟩
  · exact ⟨_, _, _, h₄, h₅⟩

/-! ### What a node decodes -/

/-- What an output is handed over as. -/
def CellOutput.handed (o : CellOutput) : CellParts where
  capacity := leBytes 8 o.capacity.toNat
  lockCodeHash := o.lock.codeHash.1
  hashTypes := o.lock.hashType :: (o.type_.map Script.hashType).toList
  lockArgs := o.lock.args
  typeCodeHash := (o.type_.map fun s => s.codeHash.1).getD []
  typeArgLengths := (o.type_.map fun s => UInt32.ofNat s.args.length + 4).toList

theorem CellOutput.handed_value (o : CellOutput) : o.value.handed = o.handed := by
  obtain ⟨capacity, lock, type_⟩ := o
  cases type_ <;> rfl

/-- What the cell with this index and its data are handed over as, as far as they are there. -/
def RawTransaction.cellHanded (t : RawTransaction) (index : UInt32) : CellParts :=
  ((t.outputs[index.toNat]?).map CellOutput.handed).getD {} ++
    ((t.outputsData[index.toNat]?).map dataHanded).getD {}

theorem getD_vecValue {α : Type} (as : List α) : (vecValue as).getD [] = as := by
  cases as <;> rfl

theorem RawTransaction.cellHanded_value (t : RawTransaction) (index : UInt32) :
    t.value.cellHanded index = t.cellHanded index := by
  change (((vecValue (t.outputs.map CellOutput.value)).getD [])[index.toNat]?.map
    CellOutputVal.handed).getD {} ++
      (((vecValue t.outputsData).getD [])[index.toNat]?.map dataHanded).getD {} = _
  rw [getD_vecValue, getD_vecValue, List.getElem?_map, Option.map_map]
  congr 2
  refine congrArg (Option.map · _) (funext fun o => o.handed_value)

/-! ### The transactions that inputs refer to -/

/-- If what an input has hashed decodes, its active cell is the output with the index, and its
data. -/
def ActiveCell.Faithful (c : ActiveCell) : Prop :=
  ∀ r, RawTransaction.decode c.hashed = some r → c.parts = r.cellHanded c.index

/-- What is read from a transaction that decodes is what it is decoded to. -/
theorem rawTransaction_eq_value {size : UInt32} {s : RawTransactionVal} {cs : List Chunk}
    {rest : List UInt8}
    (h : (MolSpec.rawTransaction annotatedCellInputCallbacks.source).Holds size s cs rest)
    {r : RawTransaction} (hdec : RawTransaction.decode (joined cs) = some r) : s = r.value := by
  obtain ⟨heq, hlen⟩ := RawTransaction.eq_encode hdec
  rw [heq] at hlen
  have hany : (MolSpec.rawTransaction annotatedCellInputCallbacks.source).AnySize := .close .table
  have hsem : (MolSpec.rawTransaction annotatedCellInputCallbacks.source).sem size
      (r.encode ++ rest) = .done s rest := by
    rw [← heq]
    exact h
  exact (hany.eq_of_reads (reads_rawTransaction _ Callback.accepts.source r hlen) hsem).1

theorem faithful_activeCell {v : AnnotatedCellInputVal} {size : UInt32} {cs : List Chunk}
    {rest : List UInt8}
    (h : (MolSpec.annotatedCellInput annotatedCellInputCallbacks).Holds size v cs rest) :
    (v.activeCell cs).Faithful := by
  have hsource := LawfulFields.cons
    (MolReader.rawTransaction_lawful annotatedCellInputCallbacks.source) LawfulFields.nil
  have hinput := LawfulFields.cons
    (MolReader.cellInput_lawful annotatedCellInputCallbacks.input) hsource
  have h := Spec.Holds.table hinput (Spec.Holds.of_closePlain h)
  have h := (FieldsSpec.Holds.cons (MolReader.cellInput_lawful _) hsource h).2
  have h := (FieldsSpec.Holds.cons (MolReader.rawTransaction_lawful _) LawfulFields.nil h).1
  intro r hdec
  have hvalue : v.2.2.1 = r.value := rawTransaction_eq_value h hdec
  change v.2.2.1.cellHanded v.sourceIndex = _
  rw [hvalue, RawTransaction.cellHanded_value]
  rfl

theorem faithful_activeCellsOf {vs : List AnnotatedCellInputVal} {size : UInt32} {cs : List Chunk}
    {rest : List UInt8} (h : (MolSpec.annotatedCellInput annotatedCellInputCallbacks).HoldsItems
      size vs cs rest) : ∀ c ∈ activeCellsOf vs cs, c.Faithful := by
  induction vs generalizing cs with
  | nil => exact List.forall_mem_nil _
  | cons v vs ih =>
    obtain ⟨hv, hvs⟩ := Spec.HoldsItems.cons (MolReader.annotatedCellInput_lawful _) h
    exact List.forall_mem_cons.2 ⟨faithful_activeCell hv, ih hvs⟩

/-! ### The transaction itself -/

theorem length_hashedHeader (count : UInt32) (header : List UInt32) :
    (hashedHeader count header).length = 28 := length_flatMap_u32le _

/-- What is hashed of the transaction, when it decodes, is made up of the same parts. -/
theorem Transcript.Cut.parts_eq {v : AnnotatedTransactionVal} {t : Transcript env P v}
    {cs : List Chunk} (h : t.Cut cs) (hok : t.stored.maybe.hardReject = false)
    {vs : List AnnotatedCellInputVal} (hvs : v.inputs = some vs) (hraw : HoldsRaw v cs)
    {r : RawTransaction} (hdec : RawTransaction.decode t.stored.hashState.fed = some r) :
    joined (v.rawFieldPieces 4 cs) ++ joined (v.rawFieldPieces 5 cs) =
      encodeOutputs r.outputs ++ encodeData r.outputsData := by
  obtain ⟨heq, hlen⟩ := RawTransaction.eq_encode hdec
  obtain ⟨hn, hlength, hfed⟩ := h.fed_stored hok hvs
  have hcount (bs : List UInt8) : (inputRecords env vs bs).length = v.inputCount.toNat := by
    rw [length_inputRecords, hn]
  generalize hrecords : inputRecords env vs _ = records at hlength hfed
  have hcount : records.length = v.inputCount.toNat := hrecords ▸ hcount _
  rw [heq] at hlen
  rw [heq, RawTransaction.encode, encodeParts_eq] at hfed
  -- the headers
  have hheader : ((headerWords r.parts).flatMap u32le).length =
      (hashedHeader v.inputCount v.raw.1).length := by
    rw [length_flatMap_u32le, length_headerWords, length_hashedHeader]
    rfl
  obtain ⟨-, hfed⟩ := List.append_inj hfed hheader
  simp only [RawTransaction.parts, List.flatten_cons, List.flatten_nil, List.append_nil] at hfed
  obtain ⟨-, hfed⟩ := List.append_inj hfed (r.version.2.trans hraw.version.symm)
  have hpart : ∀ p ∈ r.parts, p.length < 2 ^ 32 := fun p hp => length_lt_of_mem hp hlen
  simp only [RawTransaction.parts, List.mem_cons, List.not_mem_nil, or_false, forall_eq_or_imp,
    forall_eq] at hpart
  obtain ⟨-, hdeps, hheaders, hinputs, -, -⟩ := hpart
  -- the cell dependencies
  obtain ⟨_, _, hcells⟩ := hraw.cellDeps
  have hcells : Counted 37 (joined (v.rawFieldPieces 1 cs)) :=
    Spec.Holds.fixVec MolReader.cellDep_lawful (fun _ => rfl) (Spec.Holds.of_close hcells)
  obtain ⟨-, hfed⟩ := Counted.append_inj
    (counted_encode (by decide) CellDep.length_encode hdeps) hcells hfed
  -- the header dependencies
  obtain ⟨_, _, hhashes⟩ := hraw.headerDeps
  have hhashes : Counted 32 (joined (v.rawFieldPieces 2 cs)) :=
    Spec.Holds.fixVec (Lawful.array _ _) (fun _ => rfl) (Spec.Holds.of_close hhashes)
  obtain ⟨-, hfed⟩ := Counted.append_inj
    (counted_encode (by decide) (fun d => d.2) hheaders) hhashes hfed
  -- the inputs
  have hcounted : Counted 44 (u32le v.inputCount ++ records.flatten) := by
    have hvec := counted_encodeFixVec hlength (hcount ▸ v.inputCount.toNat_lt)
    rwa [encodeFixVec, hcount] at hvec
  obtain ⟨-, hfed⟩ := Counted.append_inj
    (counted_encode (by decide) CellInput.length_encode hinputs) hcounted hfed
  exact hfed.symm

/-- The outputs that the reader has found are those that a node decodes from what is hashed. -/
theorem Transcript.Cut.outputs_eq {v : AnnotatedTransactionVal} {t : Transcript env P v}
    {cs : List Chunk} (h : t.Cut cs) (hok : t.stored.maybe.hardReject = false)
    {vs : List AnnotatedCellInputVal} (hvs : v.inputs = some vs) (hraw : HoldsRaw v cs)
    {r : RawTransaction} (hdec : RawTransaction.decode t.stored.hashState.fed = some r) :
    v.outputs = vecValue (r.outputs.map CellOutput.value) ∧
      v.outputsData = vecValue r.outputsData := by
  have hbytes := h.parts_eq hok hvs hraw hdec
  obtain ⟨heq, hlen⟩ := RawTransaction.eq_encode hdec
  rw [heq] at hlen
  have houtputs : (encodeOutputs r.outputs).length < 2 ^ 32 :=
    length_lt_of_mem (by simp [RawTransaction.parts]) hlen
  have hdata : (encodeData r.outputsData).length < 2 ^ 32 :=
    length_lt_of_mem (by simp [RawTransaction.parts]) hlen
  obtain ⟨size, size', rest, h₄, h₅⟩ := hraw.outputs
  rw [Spec.Holds, ← List.append_assoc, hbytes, List.append_assoc] at h₄
  -- the outputs, and where they end
  have hanyOutputs : (MolSpec.cellOutputVec annotatedRawTransactionCallbacks.outputs).AnySize :=
    .close .dynVec
  obtain ⟨hv, hrest⟩ := hanyOutputs.eq_of_reads
    (reads_cellOutputVec _ Callback.accepts.outputs r.outputs houtputs) h₄
  rw [Spec.Holds, hrest] at h₅
  have hanyData : (MolSpec.bytesVec annotatedRawTransactionCallbacks.outputsData).AnySize :=
    .close .dynVec
  exact ⟨hv, (hanyData.eq_of_reads
    (reads_bytesVec _ Callback.accepts.outputsData r.outputsData hdata) h₅).1⟩

/-- What is checked of a transaction is what is hashed of it. -/
structure Transcript.ChecksHashed {v : AnnotatedTransactionVal} (t : Transcript env P v) :
    Prop where
  /-- If what is hashed of the transaction decodes, the calls have handed over its outputs and their
  data, and nothing else. -/
  outputs : ∀ r, RawTransaction.decode t.stored.hashState.fed = some r →
    t.handedOutputs = (r.outputs.map CellOutput.handed, {}) ∧
      t.handedData = (r.outputsData.map dataHanded, {})
  /-- There is an active cell for each input, chosen by its index. -/
  indices : t.activeCells.map ActiveCell.index =
    (v.inputs.getD []).map AnnotatedCellInputVal.sourceIndex
  /-- If what an input has hashed decodes, its active cell is the output with the index. -/
  cells : ∀ c ∈ t.activeCells, c.Faithful

theorem Accepted.checksHashed {instruction : UInt8} {ps : List Packet} {prompt : Prompt}
    {v : AnnotatedTransactionVal} {t : Transcript env P v}
    (h : Accepted env P instruction ps prompt g v t)
    (hcut : t.Cut (takeC v.len (ps.map Packet.chunk))) (hinputs : v.inputs.getD [] ≠ []) :
    t.ChecksHashed := by
  obtain ⟨vs, hvs⟩ : ∃ vs, v.inputs = some vs :=
    Option.ne_none_iff_exists'.1 fun hnone => hinputs (by rw [hnone]; rfl)
  obtain ⟨_, hholds⟩ := h.holds
  obtain ⟨_, _, hholds⟩ := holds_raw hholds
  have hraw := holdsRaw hholds
  have hspent := t.hardReject_spent h.hardReject
  have hstored : t.stored.maybe.hardReject = false :=
    (Visits.cons t.finalize t.witnesses.2).runs.hardReject h.hardReject
  have hcells := hcut.activeCells_eq hspent hvs
  refine ⟨?_, ?_, ?_⟩
  · intro r hdec
    obtain ⟨houtputs, hdata⟩ := hcut.outputs_eq hstored hvs hraw hdec
    rw [t.handedOutputs_eq, t.handedData_eq, houtputs, hdata, getD_vecValue, getD_vecValue,
      List.map_map]
    exact ⟨congrArg (·, _) (List.map_congr_left fun o _ => o.handed_value), rfl⟩
  · rw [hcells, map_index_activeCellsOf, hvs]
    rfl
  · obtain ⟨_, _, hvec⟩ := hraw.inputs
    rw [hvs] at hvec
    rw [hcells]
    exact faithful_activeCellsOf (Spec.Holds.dynVec (MolReader.annotatedCellInput_lawful _)
      (Spec.Holds.of_closePlain hvec))

/-- **What is checked is what is hashed.**  In every session that leads to the prompt and has an
input, whatever bytes it has got: if the bytes that are hashed as the raw transaction decode, then
the callbacks for the outputs have been handed exactly the outputs and the data that they decode to;
and if the bytes that are hashed for an input decode, then what has been processed as its active
cell is the cell with the index there, and its data. -/
theorem checked_is_hashed (env : Env) (instruction : UInt8) (ps : List Packet) (prompt : Prompt)
    (g : SignState) (h : signSession env instruction ps = some (prompt, g)) :
    (∃ v, ∃ t : Transcript env (fun _ => True) v,
      Accepted env (fun _ => True) instruction ps prompt g v t ∧
        t.Cut (takeC v.len (ps.map Packet.chunk))) ∧
    ∀ v (t : Transcript env (fun _ => True) v),
      Accepted env (fun _ => True) instruction ps prompt g v t →
        t.Cut (takeC v.len (ps.map Packet.chunk)) → v.inputs.getD [] ≠ [] → t.ChecksHashed := by
  refine ⟨signSession_cut (fun _ _ => trivial) h, fun v t haccepted hcut hinputs => ?_⟩
  exact haccepted.checksHashed hcut hinputs

theorem checked_is_hashed_payment :
    ∃ prompt g v, ∃ t : Transcript Env.reference (fun _ => True) v,
      signSession Env.reference 0x03 (cutPackets 3 payment.encode) = some (prompt, g) ∧
        RawTransaction.decode t.stored.hashState.fed =
          some (payment.raw.transaction Env.reference) ∧
        t.handedOutputs = (payment.raw.outputs.map CellOutput.handed, {}) ∧ t.ChecksHashed := by
  have hsome : (signSession Env.reference 0x03 (cutPackets 3 payment.encode)).isSome = true := by
    decide +kernel
  obtain ⟨⟨prompt, g⟩, h⟩ := Option.isSome_iff_exists.1 hsome
  obtain ⟨⟨v, t, haccepted, hcut⟩, hall⟩ :=
    checked_is_hashed Env.reference 0x03 _ prompt g h
  have hcanonical := haccepted.canonical hcut (a := payment) (by decide +kernel)
    (joined_cutPackets 3 (by decide +kernel))
  have hstored : t.stored.maybe.hardReject = false :=
    (Visits.cons t.finalize t.witnesses.2).runs.hardReject haccepted.hardReject
  have hchecks : t.ChecksHashed := by
    refine hall v t haccepted hcut ?_
    rw [hcanonical.value]
    decide
  have hfed := hcanonical.fed_stored (by decide +kernel) (by decide) hstored
  have hdec : RawTransaction.decode t.stored.hashState.fed =
      some (payment.raw.transaction Env.reference) := by
    refine (RawTransaction.decodes _ _ ?_).2 hfed
    rw [hfed]
    decide +kernel
  exact ⟨prompt, g, v, t, h, hdec, (hchecks.outputs _ hdec).1, hchecks⟩

end LedgerNervos
