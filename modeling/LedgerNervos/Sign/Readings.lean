import LedgerNervos.Molecule.Codec
import LedgerNervos.Sign.Annotated

/-!
# What the readers of the schema read

The specification of each reader of `LedgerNervos.Sign.Blockchain` and
`LedgerNervos.Sign.Annotated`, put together like the reader itself, and its lawfulness: the
reader reads what the specification says, however the packets cut the input.
-/

namespace LedgerNervos

variable {ε : Type}

/-- What a script is read as: header, code hash, hash type, args. -/
abbrev ScriptVal := List UInt32 × List UInt8 × UInt8 × List UInt8 × Unit

/-- What an out point is read as: transaction hash, index. -/
abbrev OutPointVal := List UInt8 × List UInt8 × Unit

/-- What an input is read as: since, previous output. -/
abbrev CellInputVal := List UInt8 × OutPointVal × Unit

/-- What a cell dependency is read as: out point, kind. -/
abbrev CellDepVal := OutPointVal × UInt8 × Unit

/-- What an output is read as: header, capacity, lock, type. -/
abbrev CellOutputVal := List UInt32 × List UInt8 × ScriptVal × Option ScriptVal × Unit

/-- What a raw transaction is read as: header, version, cell dependencies, header dependencies,
inputs, outputs, data of the outputs. -/
abbrev RawTransactionVal := List UInt32 × List UInt8 × List CellDepVal × List (List UInt8) ×
  List CellInputVal × Option (List CellOutputVal) × Option (List (List UInt8)) × Unit

/-- What the arguments of a witness are read as: header, lock, input type, output type. -/
abbrev WitnessArgsVal := List UInt32 × Option (List UInt8) × Option (List UInt8) ×
  Option (List UInt8) × Unit

/-- What an annotated input is read as: header, input, source. -/
abbrev AnnotatedCellInputVal := List UInt32 × CellInputVal × RawTransactionVal × Unit

/-- What an annotated raw transaction is read as, in the order of a raw transaction. -/
abbrev AnnotatedRawTransactionVal := List UInt32 × List UInt8 × List CellDepVal ×
  List (List UInt8) × Option (List AnnotatedCellInputVal) × Option (List CellOutputVal) ×
  Option (List (List UInt8)) × Unit

/-- What an annotated transaction is read as: header, path of the key, path of the change, number
of inputs, raw transaction, witnesses. -/
abbrev AnnotatedTransactionVal := List UInt32 × List (List UInt8) × List (List UInt8) ×
  List UInt8 × AnnotatedRawTransactionVal × Option (List (List UInt8)) × Unit

namespace MolSpec

open Reader (startFields)

def bytes (cb : BytesCb ε) : Spec ε (List UInt8) :=
  .closePlain cb.finish (.bytes cb.size cb.bodyChunk)

def bytesOpt (cb : BytesOptCb ε) : Spec ε (Option (List UInt8)) :=
  .close { chunk := cb.chunk } (.option (bytes cb.item))

def bytesVec (cb : BytesVecCb ε) : Spec ε (Option (List (List UInt8))) :=
  .close { chunk := cb.chunk, finish := cb.finish }
    (.dynVec (MolReader.bytes cb.item).start (fun _ => []) cb.index (bytes cb.item))

def byte32Vec (cb : ChunkCb ε) : Spec ε (List (List UInt8)) :=
  .close { chunk := cb.chunk }
    (.fixVec 32 (fun _ => ([], true)) [] (fun _ => []) (.array 32 fun _ => []))

def outPoint (cb : OutPointCb ε) : Spec ε OutPointVal :=
  .struct 36 [32, 4] (.cons (.array 32 fun _ => []) [] (.cons (.array 4 cb.index) [] .nil))

def cellInput (cb : CellInputCb ε) : Spec ε CellInputVal :=
  .struct 44 [8, 36] (.cons (.array 8 cb.since) []
    (.cons (outPoint cb.previousOutput) [] .nil))

def cellInputVec : Spec ε (List CellInputVal) :=
  .fixVec 44 (fun _ => ([], true)) [] (fun _ => []) (cellInput {})

def cellDep : Spec ε CellDepVal :=
  .struct 37 [36, 1] (.cons (outPoint {}) [] (.cons (.byte fun _ => []) [] .nil))

def cellDepVec (cb : ChunkCb ε) : Spec ε (List CellDepVal) :=
  .close { chunk := cb.chunk } (.fixVec 37 (fun _ => ([], true)) [] (fun _ => []) cellDep)

/-- The fields of a script. -/
def scriptFields (cb : ScriptCb ε) : FieldsSpec ε (List UInt8 × UInt8 × List UInt8 × Unit) :=
  .cons (.array 32 cb.codeHash) [] (.cons (.byte cb.hashType) (MolReader.bytes cb.args).start
    (.cons (bytes cb.args) [] .nil))

def script (cb : ScriptCb ε) : Spec ε ScriptVal :=
  .closePlain cb.finish (.table 3 [] (fun _ => []) (scriptFields cb))

/-- The fields of an output. -/
def cellOutputFields (cb : CellOutputCb ε) :
    FieldsSpec ε (List UInt8 × ScriptVal × Option ScriptVal × Unit) :=
  .cons (.array 8 cb.capacity) [] (.cons (script cb.lock) []
    (.cons (.option (script cb.type_)) [] .nil))

def cellOutput (cb : CellOutputCb ε) : Spec ε CellOutputVal :=
  .closePlain cb.finish (.table 3 [] (fun _ => []) (cellOutputFields cb))

def cellOutputVec (cb : CellOutputVecCb ε) : Spec ε (Option (List CellOutputVal)) :=
  .close { chunk := cb.chunk, finish := cb.finish }
    (.dynVec [] (fun _ => []) cb.index (cellOutput cb.item))

/-- The fields of a raw transaction. -/
def rawTransactionFields (cb : RawTransactionCb ε) : FieldsSpec ε (List UInt8 ×
    List CellDepVal × List (List UInt8) × List CellInputVal × Option (List CellOutputVal) ×
    Option (List (List UInt8)) × Unit) :=
  .cons (.array 4 fun _ => []) [] (.cons (cellDepVec {}) [] (.cons (byte32Vec {}) []
    (.cons cellInputVec [] (.cons (cellOutputVec cb.outputs) []
      (.cons (bytesVec cb.outputsData) [] .nil)))))

def rawTransaction (cb : RawTransactionCb ε) : Spec ε RawTransactionVal :=
  .close { chunk := cb.chunk, finish := cb.finish }
    (.table 6 [] (fun _ => []) (rawTransactionFields cb))

/-- The fields of the arguments of a witness. -/
def witnessArgsFields (cb : WitnessArgsCb ε) : FieldsSpec ε
    (Option (List UInt8) × Option (List UInt8) × Option (List UInt8) × Unit) :=
  .cons (bytesOpt cb.lock) (startFields [MolReader.bytesOpt cb.inputType])
    (.cons (bytesOpt cb.inputType) (startFields [MolReader.bytesOpt cb.outputType])
      (.cons (bytesOpt cb.outputType) [] .nil))

def witnessArgs (cb : WitnessArgsCb ε) : Spec ε WitnessArgsVal :=
  .table 3 (startFields [MolReader.bytesOpt cb.lock]) cb.offsets (witnessArgsFields cb)

/-- The fields of an annotated input. -/
def annotatedCellInputFields (cb : AnnotatedCellInputCb ε) :
    FieldsSpec ε (CellInputVal × RawTransactionVal × Unit) :=
  .cons (cellInput cb.input) [] (.cons (rawTransaction cb.source) [] .nil)

def annotatedCellInput (cb : AnnotatedCellInputCb ε) : Spec ε AnnotatedCellInputVal :=
  .closePlain [] (.table 2 [] (fun _ => []) (annotatedCellInputFields cb))

def annotatedCellInputVec (cb : AnnotatedCellInputVecCb ε) :
    Spec ε (Option (List AnnotatedCellInputVal)) :=
  .closePlain cb.finish (.dynVec (MolReader.annotatedCellInput cb.item).start cb.length
    (fun _ => []) (annotatedCellInput cb.item))

/-- The fields of an annotated raw transaction. -/
def annotatedRawTransactionFields (cb : AnnotatedRawTransactionCb ε) : FieldsSpec ε
    (List UInt8 × List CellDepVal × List (List UInt8) × Option (List AnnotatedCellInputVal) ×
      Option (List CellOutputVal) × Option (List (List UInt8)) × Unit) :=
  .cons (.array 4 cb.version) [] (.cons (cellDepVec cb.cellDeps) []
    (.cons (byte32Vec cb.headerDeps) (MolReader.annotatedCellInputVec cb.inputs).start
      (.cons (annotatedCellInputVec cb.inputs) [] (.cons (cellOutputVec cb.outputs) []
        (.cons (bytesVec cb.outputsData) [] .nil)))))

def annotatedRawTransaction (cb : AnnotatedRawTransactionCb ε) :
    Spec ε AnnotatedRawTransactionVal :=
  .closePlain cb.finish (.table 6 [] cb.offsets (annotatedRawTransactionFields cb))

def bip32 (cb : Bip32Cb ε) : Spec ε (List (List UInt8)) :=
  .closePlain cb.finish (.fixVec 4 cb.size [] (fun _ => []) (.array 4 cb.item))

/-- The fields of an annotated transaction. -/
def annotatedTransactionFields (cb : AnnotatedTransactionCb ε) : FieldsSpec ε
    (List (List UInt8) × List (List UInt8) × List UInt8 × AnnotatedRawTransactionVal ×
      Option (List (List UInt8)) × Unit) :=
  .cons (bip32 cb.signPath) [] (.cons (bip32 cb.changePath) [] (.cons (.array 4 cb.inputCount) []
    (.cons (annotatedRawTransaction cb.raw) [] (.cons (bytesVec cb.witnesses) [] .nil))))

def annotatedTransaction (cb : AnnotatedTransactionCb ε) : Spec ε AnnotatedTransactionVal :=
  .table 5 [] (fun _ => []) (annotatedTransactionFields cb)

end MolSpec

/-! ### Lawfulness -/

namespace MolReader

theorem bytes_lawful (cb : BytesCb ε) : Lawful (bytes cb) (MolSpec.bytes cb) :=
  .closePlain _ _ (.bytes _ _)

theorem bytes_eats (cb : BytesCb ε) : (bytes cb).Eats := .close _ (.bytes _ _)

theorem bytesOpt_lawful (cb : BytesOptCb ε) : Lawful (bytesOpt cb) (MolSpec.bytesOpt cb) :=
  .close (.option (bytes_eats _)) _ (.option (bytes_lawful _))

theorem bytesVec_lawful (cb : BytesVecCb ε) : Lawful (bytesVec cb) (MolSpec.bytesVec cb) :=
  .close (.dynVec _ _ (bytes_eats _)) _ (.dynVec _ _ (bytes_lawful _))

theorem bytesVec_eats (cb : BytesVecCb ε) : (bytesVec cb).Eats :=
  .close _ (.dynVec _ _ (bytes_eats _))

theorem byte32Vec_lawful (cb : ChunkCb ε) : Lawful (byte32Vec cb) (MolSpec.byte32Vec cb) :=
  .close (.fixVec _ _ _ (.array _ _)) _ (.fixVec _ _ _ (.array _ _))

theorem byte32Vec_eats (cb : ChunkCb ε) : (byte32Vec cb).Eats :=
  .close _ (.fixVec _ _ _ (.array _ _))

theorem outPoint_lawful (cb : OutPointCb ε) : Lawful (outPoint cb) (MolSpec.outPoint cb) :=
  .struct _ _ (.cons (.array _ _) (.cons (.array _ _) .nil))

theorem outPoint_eats (cb : OutPointCb ε) : (outPoint cb).Eats :=
  .struct _ _ (by simp [Reader.Eats.array])

theorem cellInput_lawful (cb : CellInputCb ε) : Lawful (cellInput cb) (MolSpec.cellInput cb) :=
  .struct _ _ (.cons (.array _ _) (.cons (outPoint_lawful _) .nil))

theorem cellInput_eats (cb : CellInputCb ε) : (cellInput cb).Eats :=
  .struct _ _ (by simp [Reader.Eats.array, outPoint_eats])

theorem cellInputVec_lawful : Lawful (ε := ε) cellInputVec MolSpec.cellInputVec :=
  .fixVec _ _ _ (cellInput_lawful _)

theorem cellInputVec_eats : (cellInputVec (ε := ε)).Eats := .fixVec _ _ _ (cellInput_eats _)

theorem cellDep_lawful : Lawful (ε := ε) cellDep MolSpec.cellDep :=
  .struct _ _ (.cons (outPoint_lawful _) (.cons (.byte _) .nil))

theorem cellDep_eats : (cellDep (ε := ε)).Eats :=
  .struct _ _ (by simp [Reader.Eats.byte, outPoint_eats])

theorem cellDepVec_lawful (cb : ChunkCb ε) : Lawful (cellDepVec cb) (MolSpec.cellDepVec cb) :=
  .close (.fixVec _ _ _ cellDep_eats) _ (.fixVec _ _ _ cellDep_lawful)

theorem cellDepVec_eats (cb : ChunkCb ε) : (cellDepVec cb).Eats :=
  .close _ (.fixVec _ _ _ cellDep_eats)

theorem script_lawful (cb : ScriptCb ε) : Lawful (script cb) (MolSpec.script cb) :=
  .closePlain _ _ (.table _ (.cons (.array _ _) (.cons (.byte _) (.cons (bytes_lawful _) .nil))))

theorem script_eats (cb : ScriptCb ε) : (script cb).Eats :=
  .close _ (.table _ (by simp [Reader.Eats.array, Reader.Eats.byte, bytes_eats]))

theorem cellOutput_lawful (cb : CellOutputCb ε) :
    Lawful (cellOutput cb) (MolSpec.cellOutput cb) :=
  .closePlain _ _ (.table _ (.cons (.array _ _) (.cons (script_lawful _)
    (.cons (.option (script_lawful _)) .nil))))

theorem cellOutput_eats (cb : CellOutputCb ε) : (cellOutput cb).Eats :=
  .close _ (.table _ (by
    simp [Reader.Eats.array, script_eats, scriptOpt, Reader.Eats.option]))

theorem cellOutputVec_lawful (cb : CellOutputVecCb ε) :
    Lawful (cellOutputVec cb) (MolSpec.cellOutputVec cb) :=
  .close (.dynVec _ _ (cellOutput_eats _)) _ (.dynVec _ _ (cellOutput_lawful _))

theorem cellOutputVec_eats (cb : CellOutputVecCb ε) : (cellOutputVec cb).Eats :=
  .close _ (.dynVec _ _ (cellOutput_eats _))

theorem rawTransaction_lawful (cb : RawTransactionCb ε) :
    Lawful (rawTransaction cb) (MolSpec.rawTransaction cb) :=
  .close (.table _ (by
      simp [Reader.Eats.array, cellDepVec_eats, byte32Vec_eats, cellInputVec_eats,
        cellOutputVec_eats, bytesVec_eats])) _
    (.table _ (.cons (.array _ _) (.cons (cellDepVec_lawful _) (.cons (byte32Vec_lawful _)
      (.cons cellInputVec_lawful (.cons (cellOutputVec_lawful _)
        (.cons (bytesVec_lawful _) .nil)))))))

theorem witnessArgs_lawful (cb : WitnessArgsCb ε) :
    Lawful (witnessArgs cb) (MolSpec.witnessArgs cb) :=
  .table _ (.cons (bytesOpt_lawful _) (.cons (bytesOpt_lawful _)
    (.cons (bytesOpt_lawful _) .nil)))

theorem annotatedCellInput_lawful (cb : AnnotatedCellInputCb ε) :
    Lawful (annotatedCellInput cb) (MolSpec.annotatedCellInput cb) :=
  .closePlain _ _ (.table _ (.cons (cellInput_lawful _) (.cons (rawTransaction_lawful _) .nil)))

theorem annotatedCellInputVec_lawful (cb : AnnotatedCellInputVecCb ε) :
    Lawful (annotatedCellInputVec cb) (MolSpec.annotatedCellInputVec cb) :=
  .closePlain _ _ (.dynVec _ _ (annotatedCellInput_lawful _))

theorem annotatedRawTransaction_lawful (cb : AnnotatedRawTransactionCb ε) :
    Lawful (annotatedRawTransaction cb) (MolSpec.annotatedRawTransaction cb) :=
  .closePlain _ _ (.table _ (.cons (.array _ _) (.cons (cellDepVec_lawful _)
    (.cons (byte32Vec_lawful _) (.cons (annotatedCellInputVec_lawful _)
      (.cons (cellOutputVec_lawful _) (.cons (bytesVec_lawful _) .nil)))))))

theorem bip32_lawful (cb : Bip32Cb ε) : Lawful (bip32 cb) (MolSpec.bip32 cb) :=
  .closePlain _ _ (.fixVec _ _ _ (.array _ _))

theorem annotatedTransaction_lawful (cb : AnnotatedTransactionCb ε) :
    Lawful (annotatedTransaction cb) (MolSpec.annotatedTransaction cb) :=
  .table _ (.cons (bip32_lawful _) (.cons (bip32_lawful _) (.cons (.array _ _)
    (.cons (annotatedRawTransaction_lawful _) (.cons (bytesVec_lawful _) .nil)))))

end MolReader

end LedgerNervos
