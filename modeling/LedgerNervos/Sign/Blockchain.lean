import LedgerNervos.Molecule.Reader

/-!
# The readers of the blockchain types

The streaming readers generated from the schema of the CKB data types: `Script`, `OutPoint`,
`CellInput`, `CellOutput`, `CellDep`, `RawTransaction`, `WitnessArgs` and the vectors and options
of these.  Each is given a table of callbacks.  A callback that is absent from a table does
nothing; the callbacks that no table of the application sets are left out of the tables.
-/

namespace LedgerNervos

variable {ε : Type}

/-! ### Tables of callbacks -/

/-- `Bytes_callbacks` -/
structure BytesCb (ε : Type) where
  start : List ε := []
  /-- Asked about the size with the length prefix; the answer is whether to go on. -/
  size : UInt32 → List ε × Bool := fun _ => ([], true)
  bodyChunk : Chunk → List ε := fun _ => []
  finish : List ε := []

/-- `BytesOpt_callbacks` -/
structure BytesOptCb (ε : Type) where
  chunk : Chunk → List ε := fun _ => []
  item : BytesCb ε := {}

/-- `BytesVec_callbacks` -/
structure BytesVecCb (ε : Type) where
  chunk : Chunk → List ε := fun _ => []
  finish : List ε := []
  index : UInt32 → List ε := fun _ => []
  item : BytesCb ε := {}

/-- `Byte32Vec_callbacks` and `CellDepVec_callbacks` -/
structure ChunkCb (ε : Type) where
  chunk : Chunk → List ε := fun _ => []

/-- `OutPoint_callbacks` -/
structure OutPointCb (ε : Type) where
  index : List UInt8 → List ε := fun _ => []

/-- `CellInput_callbacks` -/
structure CellInputCb (ε : Type) where
  since : List UInt8 → List ε := fun _ => []
  previousOutput : OutPointCb ε := {}

/-- `Script_callbacks` -/
structure ScriptCb (ε : Type) where
  finish : List ε := []
  codeHash : List UInt8 → List ε := fun _ => []
  hashType : UInt8 → List ε := fun _ => []
  args : BytesCb ε := {}

/-- `CellOutput_callbacks` -/
structure CellOutputCb (ε : Type) where
  finish : List ε := []
  capacity : List UInt8 → List ε := fun _ => []
  lock : ScriptCb ε := {}
  type_ : ScriptCb ε := {}

/-- `CellOutputVec_callbacks` -/
structure CellOutputVecCb (ε : Type) where
  chunk : Chunk → List ε := fun _ => []
  finish : List ε := []
  index : UInt32 → List ε := fun _ => []
  item : CellOutputCb ε := {}

/-- `RawTransaction_callbacks` -/
structure RawTransactionCb (ε : Type) where
  chunk : Chunk → List ε := fun _ => []
  finish : List ε := []
  outputs : CellOutputVecCb ε := {}
  outputsData : BytesVecCb ε := {}

/-- `WitnessArgs_callbacks` -/
structure WitnessArgsCb (ε : Type) where
  offsets : List UInt32 → List ε := fun _ => []
  lock : BytesOptCb ε := {}
  inputType : BytesOptCb ε := {}
  outputType : BytesOptCb ε := {}

namespace MolReader

/-! ### Readers -/

/-- `MolReader_Bytes_parse` -/
def bytes (cb : BytesCb ε) : Reader ε :=
  .close { start := cb.start, finish := cb.finish } (.bytes cb.size cb.bodyChunk)

/-- `MolReader_BytesOpt_parse` -/
def bytesOpt (cb : BytesOptCb ε) : Reader ε :=
  .close { chunk := cb.chunk } (.option (bytes cb.item))

/-- `MolReader_BytesVec_parse` -/
def bytesVec (cb : BytesVecCb ε) : Reader ε :=
  .close { chunk := cb.chunk, finish := cb.finish }
    (.dynVec (fun _ => []) cb.index (bytes cb.item))

/-- `MolReader_Byte32Vec_parse` -/
def byte32Vec (cb : ChunkCb ε) : Reader ε :=
  .close { chunk := cb.chunk }
    (.fixVec 32 (fun _ => ([], true)) (fun _ => []) (.array 32 fun _ => []))

/-- `MolReader_OutPoint_parse` -/
def outPoint (cb : OutPointCb ε) : Reader ε :=
  .struct 36 [32, 4] [.array 32 (fun _ => []), .array 4 cb.index]

/-- `MolReader_CellInput_parse` -/
def cellInput (cb : CellInputCb ε) : Reader ε :=
  .struct 44 [8, 36] [.array 8 cb.since, outPoint cb.previousOutput]

/-- `MolReader_CellInputVec_parse` -/
def cellInputVec : Reader ε :=
  .fixVec 44 (fun _ => ([], true)) (fun _ => []) (cellInput {})

/-- `MolReader_CellDep_parse` -/
def cellDep : Reader ε :=
  .struct 37 [36, 1] [outPoint {}, .byte fun _ => []]

/-- `MolReader_CellDepVec_parse` -/
def cellDepVec (cb : ChunkCb ε) : Reader ε :=
  .close { chunk := cb.chunk } (.fixVec 37 (fun _ => ([], true)) (fun _ => []) cellDep)

/-- `MolReader_Script_parse` -/
def script (cb : ScriptCb ε) : Reader ε :=
  .close { finish := cb.finish }
    (.table (fun _ => []) [.array 32 cb.codeHash, .byte cb.hashType, bytes cb.args])

/-- `MolReader_ScriptOpt_parse` -/
def scriptOpt (cb : ScriptCb ε) : Reader ε := .option (script cb)

/-- `MolReader_CellOutput_parse` -/
def cellOutput (cb : CellOutputCb ε) : Reader ε :=
  .close { finish := cb.finish }
    (.table (fun _ => []) [.array 8 cb.capacity, script cb.lock, scriptOpt cb.type_])

/-- `MolReader_CellOutputVec_parse` -/
def cellOutputVec (cb : CellOutputVecCb ε) : Reader ε :=
  .close { chunk := cb.chunk, finish := cb.finish }
    (.dynVec (fun _ => []) cb.index (cellOutput cb.item))

/-- `MolReader_RawTransaction_parse` -/
def rawTransaction (cb : RawTransactionCb ε) : Reader ε :=
  .close { chunk := cb.chunk, finish := cb.finish }
    (.table (fun _ => [])
      [.array 4 (fun _ => []), cellDepVec {}, byte32Vec {}, cellInputVec,
        cellOutputVec cb.outputs, bytesVec cb.outputsData])

/-- `MolReader_WitnessArgs_parse` -/
def witnessArgs (cb : WitnessArgsCb ε) : Reader ε :=
  .table cb.offsets [bytesOpt cb.lock, bytesOpt cb.inputType, bytesOpt cb.outputType]

end MolReader

end LedgerNervos
