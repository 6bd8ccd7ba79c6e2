import LedgerNervos.Sign.Blockchain

/-!
# The readers of the annotated types

What is sent for signing is an `AnnotatedTransaction`: the derivation paths of the key and of the
change, the number of inputs, a raw transaction in which every input comes with the transaction
it refers to, and the witnesses.
-/

namespace LedgerNervos

variable {ε : Type}

/-- `AnnotatedCellInput_callbacks` -/
structure AnnotatedCellInputCb (ε : Type) where
  start : List ε := []
  input : CellInputCb ε := {}
  source : RawTransactionCb ε := {}

/-- `AnnotatedCellInputVec_callbacks` -/
structure AnnotatedCellInputVecCb (ε : Type) where
  start : List ε := []
  finish : List ε := []
  length : UInt32 → List ε := fun _ => []
  item : AnnotatedCellInputCb ε := {}

/-- `AnnotatedRawTransaction_callbacks` -/
structure AnnotatedRawTransactionCb (ε : Type) where
  finish : List ε := []
  offsets : List UInt32 → List ε := fun _ => []
  version : List UInt8 → List ε := fun _ => []
  cellDeps : ChunkCb ε := {}
  headerDeps : ChunkCb ε := {}
  inputs : AnnotatedCellInputVecCb ε := {}
  outputs : CellOutputVecCb ε := {}
  outputsData : BytesVecCb ε := {}

/-- `Bip32_callbacks` -/
structure Bip32Cb (ε : Type) where
  finish : List ε := []
  size : UInt32 → List ε × Bool := fun _ => ([], true)
  item : List UInt8 → List ε := fun _ => []

/-- `AnnotatedTransaction_callbacks` -/
structure AnnotatedTransactionCb (ε : Type) where
  signPath : Bip32Cb ε := {}
  changePath : Bip32Cb ε := {}
  inputCount : List UInt8 → List ε := fun _ => []
  raw : AnnotatedRawTransactionCb ε := {}
  witnesses : BytesVecCb ε := {}

namespace MolReader

/-- `MolReader_AnnotatedCellInput_parse` -/
def annotatedCellInput (cb : AnnotatedCellInputCb ε) : Reader ε :=
  .close { start := cb.start }
    (.table (fun _ => []) [cellInput cb.input, rawTransaction cb.source])

/-- `MolReader_AnnotatedCellInputVec_parse` -/
def annotatedCellInputVec (cb : AnnotatedCellInputVecCb ε) : Reader ε :=
  .close { start := cb.start, finish := cb.finish }
    (.dynVec cb.length (fun _ => []) (annotatedCellInput cb.item))

/-- `MolReader_AnnotatedRawTransaction_parse` -/
def annotatedRawTransaction (cb : AnnotatedRawTransactionCb ε) : Reader ε :=
  .close { finish := cb.finish }
    (.table cb.offsets
      [.array 4 cb.version, cellDepVec cb.cellDeps, byte32Vec cb.headerDeps,
        annotatedCellInputVec cb.inputs, cellOutputVec cb.outputs, bytesVec cb.outputsData])

/-- `MolReader_Bip32_parse` -/
def bip32 (cb : Bip32Cb ε) : Reader ε :=
  .close { finish := cb.finish } (.fixVec 4 cb.size (fun _ => []) (.array 4 cb.item))

/-- `MolReader_AnnotatedTransaction_parse` -/
def annotatedTransaction (cb : AnnotatedTransactionCb ε) : Reader ε :=
  .table (fun _ => [])
    [bip32 cb.signPath, bip32 cb.changePath, .array 4 cb.inputCount,
      annotatedRawTransaction cb.raw, bytesVec cb.witnesses]

end MolReader

end LedgerNervos
