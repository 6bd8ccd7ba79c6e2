import LedgerNervos.Sign.Readings
import LedgerNervos.Device.Types
import Mathlib.Data.List.Forall2

/-!
# The data of a transaction and its encoding

Scripts, cells, transactions and annotated transactions as values, their canonical Molecule
encodings, and what the readers make of these: `value` is what a reader finds in an encoding.
-/

namespace LedgerNervos

variable {ε : Type}

structure Script where
  codeHash : Bytes 32
  hashType : UInt8
  args : List UInt8
deriving DecidableEq

structure OutPoint where
  txHash : Bytes 32
  index : UInt32
deriving DecidableEq

structure CellInput where
  since : Bytes 8
  previousOutput : OutPoint
deriving DecidableEq

structure CellDep where
  outPoint : OutPoint
  depType : UInt8
deriving DecidableEq

structure CellOutput where
  capacity : UInt64
  lock : Script
  type_ : Option Script
deriving DecidableEq

structure RawTransaction where
  version : Bytes 4
  cellDeps : List CellDep
  headerDeps : List (Bytes 32)
  inputs : List CellInput
  outputs : List CellOutput
  outputsData : List (List UInt8)
deriving DecidableEq

structure WitnessArgs where
  lock : Option (List UInt8)
  inputType : Option (List UInt8)
  outputType : Option (List UInt8)
deriving DecidableEq

/-- An input, and the transaction it refers to. -/
structure AnnotatedCellInput where
  input : CellInput
  source : RawTransaction
deriving DecidableEq

structure AnnotatedRawTransaction where
  version : Bytes 4
  cellDeps : List CellDep
  headerDeps : List (Bytes 32)
  inputs : List AnnotatedCellInput
  outputs : List CellOutput
  outputsData : List (List UInt8)
deriving DecidableEq

structure AnnotatedTransaction where
  signPath : List UInt32
  changePath : List UInt32
  inputCount : UInt32
  raw : AnnotatedRawTransaction
  witnesses : List (List UInt8)
deriving DecidableEq

/-! ### Encodings -/

/-- The fields of a script. -/
def Script.parts (s : Script) : List (List UInt8) :=
  [s.codeHash.1, [s.hashType], encodeBytes s.args]

def Script.encode (s : Script) : List UInt8 := encodeParts s.parts

/-- Encoding of an option: nothing when it is absent. -/
def encodeOption {α : Type} (encode : α → List UInt8) (a : Option α) : List UInt8 :=
  (a.map encode).getD []

def OutPoint.parts (p : OutPoint) : List (List UInt8) := [p.txHash.1, num p.index.toNat]

def OutPoint.encode (p : OutPoint) : List UInt8 := p.parts.flatten

def CellInput.parts (i : CellInput) : List (List UInt8) := [i.since.1, i.previousOutput.encode]

def CellInput.encode (i : CellInput) : List UInt8 := i.parts.flatten

def CellDep.parts (d : CellDep) : List (List UInt8) := [d.outPoint.encode, [d.depType]]

def CellDep.encode (d : CellDep) : List UInt8 := d.parts.flatten

def CellOutput.parts (o : CellOutput) : List (List UInt8) :=
  [leBytes 8 o.capacity.toNat, o.lock.encode, encodeOption Script.encode o.type_]

def CellOutput.encode (o : CellOutput) : List UInt8 := encodeParts o.parts

def encodeOutputs (os : List CellOutput) : List UInt8 := encodeParts (os.map CellOutput.encode)

def encodeData (ds : List (List UInt8)) : List UInt8 := encodeParts (ds.map encodeBytes)

def encodeCellDeps (ds : List CellDep) : List UInt8 := encodeFixVec (ds.map CellDep.encode)

def encodeHeaderDeps (ds : List (Bytes 32)) : List UInt8 := encodeFixVec (ds.map (·.1))

def encodeInputs (is : List CellInput) : List UInt8 := encodeFixVec (is.map CellInput.encode)

def RawTransaction.parts (t : RawTransaction) : List (List UInt8) :=
  [t.version.1, encodeCellDeps t.cellDeps, encodeHeaderDeps t.headerDeps, encodeInputs t.inputs,
    encodeOutputs t.outputs, encodeData t.outputsData]

def RawTransaction.encode (t : RawTransaction) : List UInt8 := encodeParts t.parts

def WitnessArgs.parts (w : WitnessArgs) : List (List UInt8) :=
  [encodeOption encodeBytes w.lock, encodeOption encodeBytes w.inputType,
    encodeOption encodeBytes w.outputType]

def WitnessArgs.encode (w : WitnessArgs) : List UInt8 := encodeParts w.parts

def AnnotatedCellInput.parts (i : AnnotatedCellInput) : List (List UInt8) :=
  [i.input.encode, i.source.encode]

def AnnotatedCellInput.encode (i : AnnotatedCellInput) : List UInt8 := encodeParts i.parts

def AnnotatedRawTransaction.parts (t : AnnotatedRawTransaction) : List (List UInt8) :=
  [t.version.1, encodeCellDeps t.cellDeps, encodeHeaderDeps t.headerDeps,
    encodeParts (t.inputs.map AnnotatedCellInput.encode), encodeOutputs t.outputs,
    encodeData t.outputsData]

def AnnotatedRawTransaction.encode (t : AnnotatedRawTransaction) : List UInt8 :=
  encodeParts t.parts

def encodeBip32 (path : List UInt32) : List UInt8 :=
  encodeFixVec (path.map fun c => num c.toNat)

def AnnotatedTransaction.parts (t : AnnotatedTransaction) : List (List UInt8) :=
  [encodeBip32 t.signPath, encodeBip32 t.changePath, num t.inputCount.toNat, t.raw.encode,
    encodeData t.witnesses]

def AnnotatedTransaction.encode (t : AnnotatedTransaction) : List UInt8 := encodeParts t.parts

/-! ### What the readers find -/

def Script.value (s : Script) : ScriptVal :=
  (headerWords s.parts, s.codeHash.1, s.hashType, s.args, ())

def OutPoint.value (p : OutPoint) : OutPointVal := (p.txHash.1, num p.index.toNat, ())

def CellInput.value (i : CellInput) : CellInputVal := (i.since.1, i.previousOutput.value, ())

def CellDep.value (d : CellDep) : CellDepVal := (d.outPoint.value, d.depType, ())

def CellOutput.value (o : CellOutput) : CellOutputVal :=
  (headerWords o.parts, leBytes 8 o.capacity.toNat, o.lock.value, o.type_.map Script.value, ())

def RawTransaction.value (t : RawTransaction) : RawTransactionVal :=
  (headerWords t.parts, t.version.1, t.cellDeps.map CellDep.value, t.headerDeps.map (·.1),
    t.inputs.map CellInput.value, vecValue (t.outputs.map CellOutput.value),
    vecValue t.outputsData, ())

def WitnessArgs.value (w : WitnessArgs) : WitnessArgsVal :=
  (headerWords w.parts, w.lock, w.inputType, w.outputType, ())

def AnnotatedCellInput.value (i : AnnotatedCellInput) : AnnotatedCellInputVal :=
  (headerWords i.parts, i.input.value, i.source.value, ())

def AnnotatedRawTransaction.value (t : AnnotatedRawTransaction) : AnnotatedRawTransactionVal :=
  (headerWords t.parts, t.version.1, t.cellDeps.map CellDep.value, t.headerDeps.map (·.1),
    vecValue (t.inputs.map AnnotatedCellInput.value), vecValue (t.outputs.map CellOutput.value),
    vecValue t.outputsData, ())

def AnnotatedTransaction.value (t : AnnotatedTransaction) : AnnotatedTransactionVal :=
  (headerWords t.parts, t.signPath.map (fun c => num c.toNat),
    t.changePath.map (fun c => num c.toNat), num t.inputCount.toNat, t.raw.value,
    vecValue t.witnesses, ())

/-! ### Reading -/

/-- The sizes of byte strings are accepted, as none is too small for its length prefix. -/
def BytesCb.Accepts (cb : BytesCb ε) : Prop :=
  ∀ n, n + 4 < 2 ^ 32 → (cb.size (UInt32.ofNat n + 4)).2 = true

theorem reads_bytes (cb : BytesCb ε) (hcb : cb.Accepts) {size : UInt32} {bs : List UInt8}
    (hlen : (encodeBytes bs).length < 2 ^ 32) (hsize : SizeFor size (encodeBytes bs).length) :
    Reads (MolSpec.bytes cb) size (encodeBytes bs) bs := by
  have hlen' : bs.length + 4 < 2 ^ 32 := by rwa [length_encodeBytes, Nat.add_comm] at hlen
  exact .closePlain (.bytes hlen' hsize (hcb _ hlen'))

theorem reads_script (cb : ScriptCb ε) (hcb : cb.args.Accepts) {size : UInt32} (s : Script)
    (hlen : s.encode.length < 2 ^ 32) (hsize : SizeFor size s.encode.length) :
    Reads (MolSpec.script cb) size s.encode s.value := by
  have hargs : (encodeBytes s.args).length < 2 ^ 32 :=
    length_lt_of_mem (by simp [Script.parts]) hlen
  exact .closePlain (.table rfl hsize (.cons (.array s.codeHash.2) (.cons (.byte _)
    (.cons (reads_bytes cb.args hcb hargs (.exact _)) .nil))))

/-- The encoding of a value is not empty. -/
theorem ofNat_length_ne_zero {bs : List UInt8} (hpos : 0 < bs.length) (hlt : bs.length < 2 ^ 32) :
    UInt32.ofNat bs.length ≠ 0 := by
  intro h
  have := congrArg UInt32.toNat h
  rw [UInt32.toNat_ofNat', Nat.mod_eq_of_lt hlt] at this
  exact absurd this (Nat.ne_of_gt hpos)

theorem encodeParts_pos (ps : List (List UInt8)) : 0 < (encodeParts ps).length := by
  rw [length_encodeParts]; omega

theorem reads_scriptOpt (cb : ScriptCb ε) (hcb : cb.args.Accepts) (s : Option Script)
    (hlen : (encodeOption Script.encode s).length < 2 ^ 32) :
    Reads (Spec.option (MolSpec.script cb))
      (UInt32.ofNat (encodeOption Script.encode s).length) (encodeOption Script.encode s)
      (s.map Script.value) := by
  cases s with
  | none => exact .option_none
  | some s =>
    exact .option_some (ofNat_length_ne_zero (encodeParts_pos _) hlen)
      (reads_script cb hcb s hlen (.exact _))

theorem reads_bytesOpt (cb : BytesOptCb ε) (hcb : cb.item.Accepts) (bs : Option (List UInt8))
    (hlen : (encodeOption encodeBytes bs).length < 2 ^ 32) :
    Reads (MolSpec.bytesOpt cb) (UInt32.ofNat (encodeOption encodeBytes bs).length)
      (encodeOption encodeBytes bs) bs := by
  cases bs with
  | none => exact .close .option_none
  | some bs =>
    have hpos : 0 < (encodeBytes bs).length := by
      rw [length_encodeBytes]
      omega
    exact .close (.option_some (ofNat_length_ne_zero hpos hlen)
      (reads_bytes cb.item hcb hlen (.exact _)))

theorem reads_outPoint (cb : OutPointCb ε) {size : UInt32} (p : OutPoint)
    (hsize : sizeOk size 36 = true) : Reads (MolSpec.outPoint cb) size p.encode p.value :=
  .struct (by simp [OutPoint.parts]) hsize
    (.cons (.array p.txHash.2) (.cons (.array (length_num _)) .nil))

@[simp] theorem OutPoint.length_encode (p : OutPoint) : p.encode.length = 36 := by
  simp [OutPoint.encode, OutPoint.parts]

@[simp] theorem CellInput.length_encode (i : CellInput) : i.encode.length = 44 := by
  simp [CellInput.encode, CellInput.parts]

@[simp] theorem CellDep.length_encode (d : CellDep) : d.encode.length = 37 := by
  simp [CellDep.encode, CellDep.parts]

theorem reads_cellInput (cb : CellInputCb ε) {size : UInt32} (i : CellInput)
    (hsize : sizeOk size 44 = true) : Reads (MolSpec.cellInput cb) size i.encode i.value :=
  .struct (by simp [CellInput.parts]) hsize
    (.cons (.array i.since.2) (.cons (reads_outPoint _ _ (by simp [sizeOk])) .nil))

theorem reads_cellDep {size : UInt32} (d : CellDep) (hsize : sizeOk size 37 = true) :
    Reads (ε := ε) MolSpec.cellDep size d.encode d.value :=
  .struct (by simp [CellDep.parts]) hsize
    (.cons (reads_outPoint _ _ (by simp [sizeOk])) (.cons (.byte _) .nil))

/-- Bytes that items of `n` bytes each take. -/
theorem length_flatten_map {α : Type} {encode : α → List UInt8} {n : ℕ}
    (h : ∀ a, (encode a).length = n) (as : List α) :
    (as.map encode).flatten.length = as.length * n := by
  induction as with
  | nil => simp
  | cons a as ih =>
    rw [List.map_cons, List.flatten_cons, List.length_append, ih, h, List.length_cons,
      Nat.add_mul, Nat.one_mul, Nat.add_comm]

/-- Reading a vector of items of fixed size. -/
theorem reads_fixVec {α β : Type} {sp : Spec ε β} {itemSize : UInt32}
    {accept : UInt32 → List ε × Bool} {start : List ε} {index : UInt32 → List ε}
    {encode : α → List UInt8} {value : α → β} {size : UInt32} (as : List α)
    (hitem : ∀ a, (encode a).length = itemSize.toNat) (hpos : 0 < itemSize.toNat)
    (hlen : (encodeFixVec (as.map encode)).length < 2 ^ 32)
    (hsize : SizeFor size (encodeFixVec (as.map encode)).length)
    (haccept : (accept (UInt32.ofNat as.length * itemSize + 4)).2 = true)
    (h : ∀ a, Reads sp itemSize (encode a) (value a)) :
    Reads (Spec.fixVec itemSize accept start index sp) size (encodeFixVec (as.map encode))
      (as.map value) := by
  rw [length_encodeFixVec, length_flatten_map hitem] at hlen hsize
  refine .fixVec (by rw [List.length_map]; omega) hpos (by rwa [List.length_map])
    (by rwa [List.length_map]) ?_
  rw [List.forall₂_map_left_iff, List.forall₂_map_right_iff]
  exact List.forall₂_same.2 fun a _ => h a

theorem reads_cellDepVec (cb : ChunkCb ε) (ds : List CellDep)
    (hlen : (encodeCellDeps ds).length < 2 ^ 32) :
    Reads (MolSpec.cellDepVec cb) (UInt32.ofNat (encodeCellDeps ds).length) (encodeCellDeps ds)
      (ds.map CellDep.value) :=
  .close (reads_fixVec ds CellDep.length_encode (by simp) hlen (.exact _) rfl fun d =>
    reads_cellDep d (by simp [sizeOk]))

theorem reads_byte32Vec (cb : ChunkCb ε) (ds : List (Bytes 32))
    (hlen : (encodeHeaderDeps ds).length < 2 ^ 32) :
    Reads (MolSpec.byte32Vec cb) (UInt32.ofNat (encodeHeaderDeps ds).length)
      (encodeHeaderDeps ds) (ds.map (·.1)) :=
  .close (reads_fixVec ds (fun d => d.2) (by simp) hlen (.exact _) rfl fun d => .array d.2)

theorem reads_cellInputVec (is : List CellInput) (hlen : (encodeInputs is).length < 2 ^ 32) :
    Reads (ε := ε) MolSpec.cellInputVec (UInt32.ofNat (encodeInputs is).length)
      (encodeInputs is) (is.map CellInput.value) :=
  reads_fixVec is CellInput.length_encode (by simp) hlen (.exact _) rfl fun i =>
    reads_cellInput {} i (by simp [sizeOk])

theorem reads_bip32 (cb : Bip32Cb ε) (path : List UInt32)
    (hlen : (encodeBip32 path).length < 2 ^ 32)
    (haccept : (cb.size (UInt32.ofNat path.length * 4 + 4)).2 = true) :
    Reads (MolSpec.bip32 cb) (UInt32.ofNat (encodeBip32 path).length) (encodeBip32 path)
      (path.map fun c => num c.toNat) :=
  .closePlain (reads_fixVec path (fun _ => length_num _) (by simp) hlen (.exact _) haccept
    fun _ => .array (length_num _))

/-- Reading a vector of items of any size. -/
theorem reads_dynVec {α β : Type} {sp : Spec ε β} {start : List ε}
    {length index : UInt32 → List ε} (encode : α → List UInt8) (value : α → β) {size : UInt32}
    (as : List α) (hlen : (encodeParts (as.map encode)).length < 2 ^ 32)
    (hsize : SizeFor size (encodeParts (as.map encode)).length)
    (h : ∀ a ∈ as, (encode a).length < 2 ^ 32 → Reads sp molNumMax (encode a) (value a)) :
    Reads (Spec.dynVec start length index sp) size (encodeParts (as.map encode))
      (vecValue (as.map value)) := by
  refine .dynVec hlen hsize ?_
  rw [List.forall₂_map_left_iff, List.forall₂_map_right_iff]
  exact List.forall₂_same.2 fun a ha =>
    h a ha (length_lt_of_mem (List.mem_map_of_mem ha) hlen)

theorem reads_bytesVec (cb : BytesVecCb ε) (hcb : cb.item.Accepts) (ds : List (List UInt8))
    (hlen : (encodeData ds).length < 2 ^ 32) :
    Reads (MolSpec.bytesVec cb) (UInt32.ofNat (encodeData ds).length) (encodeData ds)
      (vecValue ds) := by
  have h : Reads (Spec.dynVec (MolReader.bytes cb.item).start (fun _ => []) cb.index
      (MolSpec.bytes cb.item)) (UInt32.ofNat (encodeData ds).length) (encodeData ds)
      (vecValue (ds.map id)) :=
    reads_dynVec encodeBytes id ds hlen (.exact _) fun d _ hd => reads_bytes cb.item hcb hd (.max _)
  rw [List.map_id] at h
  exact .close h

/-- The callbacks for the size of a lock's and of a type's args go on with the parser. -/
structure CellOutputCb.Accepts (cb : CellOutputCb ε) : Prop where
  lock : cb.lock.args.Accepts
  type_ : cb.type_.args.Accepts

theorem reads_cellOutput (cb : CellOutputCb ε) (hcb : cb.Accepts) {size : UInt32}
    (o : CellOutput) (hlen : o.encode.length < 2 ^ 32) (hsize : SizeFor size o.encode.length) :
    Reads (MolSpec.cellOutput cb) size o.encode o.value := by
  have hlock : o.lock.encode.length < 2 ^ 32 :=
    length_lt_of_mem (by simp [CellOutput.parts]) hlen
  have htype : (encodeOption Script.encode o.type_).length < 2 ^ 32 :=
    length_lt_of_mem (by simp [CellOutput.parts]) hlen
  exact .closePlain (.table rfl hsize (.cons (.array (length_leBytes _ _))
    (.cons (reads_script _ hcb.lock _ hlock (.exact _))
      (.cons (reads_scriptOpt _ hcb.type_ _ htype) .nil))))

theorem reads_cellOutputVec (cb : CellOutputVecCb ε) (hcb : cb.item.Accepts)
    (os : List CellOutput) (hlen : (encodeOutputs os).length < 2 ^ 32) :
    Reads (MolSpec.cellOutputVec cb) (UInt32.ofNat (encodeOutputs os).length) (encodeOutputs os)
      (vecValue (os.map CellOutput.value)) :=
  .close (reads_dynVec _ _ os hlen (.exact _) fun o _ ho =>
    reads_cellOutput cb.item hcb o ho (.max _))

/-- The callbacks for sizes in a raw transaction go on with the parser. -/
structure RawTransactionCb.Accepts (cb : RawTransactionCb ε) : Prop where
  outputs : cb.outputs.item.Accepts
  outputsData : cb.outputsData.item.Accepts

theorem reads_rawTransaction (cb : RawTransactionCb ε) (hcb : cb.Accepts) (t : RawTransaction)
    (hlen : t.encode.length < 2 ^ 32) :
    Reads (MolSpec.rawTransaction cb) (UInt32.ofNat t.encode.length) t.encode t.value := by
  have hpart : ∀ p ∈ t.parts, p.length < 2 ^ 32 := fun p hp => length_lt_of_mem hp hlen
  simp only [RawTransaction.parts, List.mem_cons, List.not_mem_nil, or_false, forall_eq_or_imp,
    forall_eq] at hpart
  obtain ⟨-, hcell, hheader, hin, hout, hdata⟩ := hpart
  exact .close (.table rfl (.exact _) (.cons (.array t.version.2)
    (.cons (reads_cellDepVec _ _ hcell) (.cons (reads_byte32Vec _ _ hheader)
      (.cons (reads_cellInputVec _ hin) (.cons (reads_cellOutputVec _ hcb.outputs _ hout)
        (.cons (reads_bytesVec _ hcb.outputsData _ hdata) .nil)))))))

/-- The callbacks for the sizes of the three fields of the arguments of a witness. -/
structure WitnessArgsCb.Accepts (cb : WitnessArgsCb ε) : Prop where
  lock : cb.lock.item.Accepts
  inputType : cb.inputType.item.Accepts
  outputType : cb.outputType.item.Accepts

theorem reads_witnessArgs (cb : WitnessArgsCb ε) (hcb : cb.Accepts) {size : UInt32}
    (w : WitnessArgs) (hlen : w.encode.length < 2 ^ 32) (hsize : SizeFor size w.encode.length) :
    Reads (MolSpec.witnessArgs cb) size w.encode w.value := by
  have hpart : ∀ p ∈ w.parts, p.length < 2 ^ 32 := fun p hp => length_lt_of_mem hp hlen
  simp only [WitnessArgs.parts, List.mem_cons, List.not_mem_nil, or_false, forall_eq_or_imp,
    forall_eq] at hpart
  obtain ⟨hlock, hin, hout⟩ := hpart
  exact .table rfl hsize (.cons (reads_bytesOpt _ hcb.lock _ hlock)
    (.cons (reads_bytesOpt _ hcb.inputType _ hin)
      (.cons (reads_bytesOpt _ hcb.outputType _ hout) .nil)))

theorem reads_annotatedCellInput (cb : AnnotatedCellInputCb ε) (hcb : cb.source.Accepts)
    {size : UInt32} (i : AnnotatedCellInput) (hlen : i.encode.length < 2 ^ 32)
    (hsize : SizeFor size i.encode.length) :
    Reads (MolSpec.annotatedCellInput cb) size i.encode i.value := by
  have hsource : i.source.encode.length < 2 ^ 32 :=
    length_lt_of_mem (by simp [AnnotatedCellInput.parts]) hlen
  exact .closePlain (.table rfl hsize (.cons (reads_cellInput _ _ (by simp [sizeOk]))
    (.cons (reads_rawTransaction _ hcb _ hsource) .nil)))

/-- The callbacks for sizes in an annotated transaction. -/
structure AnnotatedTransactionCb.Accepts (cb : AnnotatedTransactionCb ε) : Prop where
  source : cb.raw.inputs.item.source.Accepts
  outputs : cb.raw.outputs.item.Accepts
  outputsData : cb.raw.outputsData.item.Accepts
  witnesses : cb.witnesses.item.Accepts

theorem reads_annotatedCellInputVec (cb : AnnotatedCellInputVecCb ε) (hcb : cb.item.source.Accepts)
    (is : List AnnotatedCellInput)
    (hlen : (encodeParts (is.map AnnotatedCellInput.encode)).length < 2 ^ 32) :
    Reads (MolSpec.annotatedCellInputVec cb)
      (UInt32.ofNat (encodeParts (is.map AnnotatedCellInput.encode)).length)
      (encodeParts (is.map AnnotatedCellInput.encode))
      (vecValue (is.map AnnotatedCellInput.value)) :=
  .closePlain (reads_dynVec _ _ is hlen (.exact _)
    fun i _ hi => reads_annotatedCellInput _ hcb i hi (.max _))

theorem reads_annotatedRawTransaction (cb : AnnotatedTransactionCb ε) (hcb : cb.Accepts)
    (t : AnnotatedRawTransaction) (hlen : t.encode.length < 2 ^ 32) :
    Reads (MolSpec.annotatedRawTransaction cb.raw) (UInt32.ofNat t.encode.length) t.encode
      t.value := by
  have hpart : ∀ p ∈ t.parts, p.length < 2 ^ 32 := fun p hp => length_lt_of_mem hp hlen
  simp only [AnnotatedRawTransaction.parts, List.mem_cons, List.not_mem_nil, or_false,
    forall_eq_or_imp, forall_eq] at hpart
  obtain ⟨-, hcell, hheader, hin, hout, hdata⟩ := hpart
  exact .closePlain (.table rfl (.exact _) (.cons (.array t.version.2)
    (.cons (reads_cellDepVec _ _ hcell) (.cons (reads_byte32Vec _ _ hheader)
      (.cons (reads_annotatedCellInputVec _ hcb.source _ hin)
        (.cons (reads_cellOutputVec _ hcb.outputs _ hout)
          (.cons (reads_bytesVec _ hcb.outputsData _ hdata) .nil)))))))

/-- The parser reads the encoding of an annotated transaction, when the callbacks for the sizes
of the two paths let it. -/
theorem reads_annotatedTransaction (cb : AnnotatedTransactionCb ε) (hcb : cb.Accepts)
    (t : AnnotatedTransaction) (hlen : t.encode.length < 2 ^ 32)
    (hsign : (cb.signPath.size (UInt32.ofNat t.signPath.length * 4 + 4)).2 = true)
    (hchange : (cb.changePath.size (UInt32.ofNat t.changePath.length * 4 + 4)).2 = true) :
    Reads (MolSpec.annotatedTransaction cb) molNumMax t.encode t.value := by
  have hpart : ∀ p ∈ t.parts, p.length < 2 ^ 32 := fun p hp => length_lt_of_mem hp hlen
  simp only [AnnotatedTransaction.parts, List.mem_cons, List.not_mem_nil, or_false,
    forall_eq_or_imp, forall_eq] at hpart
  obtain ⟨hpath, hpath', -, hraw, hwit⟩ := hpart
  exact .table rfl (.max _) (.cons (reads_bip32 _ _ hpath hsign)
    (.cons (reads_bip32 _ _ hpath' hchange) (.cons (.array (length_num _))
      (.cons (reads_annotatedRawTransaction cb hcb _ hraw)
        (.cons (reads_bytesVec _ hcb.witnesses _ hwit) .nil)))))

end LedgerNervos
