import LedgerNervos.Sign.Annotated
import LedgerNervos.Device.Types

/-!
# The callbacks of the signing parser

A `Callback` is one call of a callback function of the signing code, with its arguments; the
tables say which function is called for which part of an annotated transaction.  What the
functions do is defined in `LedgerNervos.Sign.Dispatch`.

The first witness is parsed a second time, by an inner parser with a table of its own
(`WitnessCallback`).
-/

namespace LedgerNervos

/-- Calls made by the parser of the first witness. -/
inductive WitnessCallback where
  | witnessOffsets (header : List UInt32)
  | witnessLockArgSize (size : UInt32)
  | witnessLockArgBodyChunk (c : Chunk)
  | blake2bChunk (bs : List UInt8)
deriving DecidableEq, Repr

/-- Calls made by the parser of the annotated transaction. -/
inductive Callback where
  | blake2bChunk (bs : List UInt8)
  | inputsStart
  | inputStart
  | inputSaveIndex (bs : List UInt8)
  | contextBlake2bChunk (bs : List UInt8)
  | finishContextTxn
  | finishInputs
  | inputContextStartIdx (idx : UInt32)
  | cellCapacity (bs : List UInt8)
  | cellLockCodeHash (bs : List UInt8)
  | cellScriptHashType (hashType : UInt8)
  | scriptArgStartInput
  | scriptArgChunk (bs : List UInt8)
  | inputLockArgEnd
  | cellTypeCodeHash (bs : List UInt8)
  | cellTypeArgLength (length : UInt32)
  | setCellDataSize (size : UInt32)
  | checkCellDataDataChunk (bs : List UInt8)
  | finishInputCellData
  | blake2bInputCount (length : UInt32)
  | computeNewOffsetsToHash (header : List UInt32)
  | outputStart (index : UInt32)
  | outputEnd
  | outputsEnd
  | validateOutputDataStart (idx : UInt32)
  | finishOutputCellData
  | finalizeRawTransaction
  | initBip32 (size : UInt32)
  | bip32Component (bs : List UInt8)
  | setSignPath
  | setChangePath
  | beginWitness (index : UInt32)
  | hashWitnessLength (size : UInt32)
  | processWitness (c : Chunk)
  | processWitnessEnd
  | finalizeWitnesses
  | setInputCount (bs : List UInt8)
deriving DecidableEq, Repr

/-- A `size` callback that refuses sizes too small for the length prefix. -/
def sizeCallback {ε : Type} (f : UInt32 → ε) (size : UInt32) : List ε × Bool :=
  ([f size], 4 ≤ size)

open WitnessCallback in
/-- `WitnessArgs_rewrite_callbacks` -/
def witnessArgsRewriteCallbacks : WitnessArgsCb WitnessCallback where
  offsets header := [witnessOffsets header]
  lock := { item := {
    size := sizeCallback witnessLockArgSize
    bodyChunk := fun c => [witnessLockArgBodyChunk c] } }
  inputType := { chunk := fun c => [blake2bChunk c.bytes] }
  outputType := { chunk := fun c => [blake2bChunk c.bytes] }

namespace Callback

/-- `annotatedCellInput_callbacks` -/
def annotatedCellInputCallbacks : AnnotatedCellInputCb Callback where
  start := [inputStart]
  input := {
    since := fun bs => [blake2bChunk bs]
    previousOutput := { index := fun bs => [inputSaveIndex bs] } }
  source := {
    chunk := fun c => [contextBlake2bChunk c.bytes]
    outputs := {
      index := fun idx => [inputContextStartIdx idx]
      item := {
        capacity := fun bs => [cellCapacity bs]
        lock := {
          codeHash := fun bs => [cellLockCodeHash bs]
          hashType := fun b => [cellScriptHashType b]
          args := {
            start := [scriptArgStartInput]
            bodyChunk := fun c => [scriptArgChunk c.bytes] }
          finish := [inputLockArgEnd] }
        type_ := {
          codeHash := fun bs => [cellTypeCodeHash bs]
          hashType := fun b => [cellScriptHashType b]
          args := { size := fun length => ([cellTypeArgLength length], true) } } } }
    outputsData := {
      index := fun idx => [inputContextStartIdx idx]
      item := {
        size := sizeCallback setCellDataSize
        bodyChunk := fun c => [checkCellDataDataChunk c.bytes]
        finish := [finishInputCellData] } }
    finish := [finishContextTxn] }

/-- `AnnotatedRawTransaction_callbacks` -/
def annotatedRawTransactionCallbacks : AnnotatedRawTransactionCb Callback where
  offsets header := [computeNewOffsetsToHash header]
  version bs := [blake2bChunk bs]
  cellDeps := { chunk := fun c => [blake2bChunk c.bytes] }
  headerDeps := { chunk := fun c => [blake2bChunk c.bytes] }
  inputs := {
    start := [inputsStart]
    length := fun length => [blake2bInputCount length]
    item := annotatedCellInputCallbacks
    finish := [finishInputs] }
  outputs := {
    chunk := fun c => [blake2bChunk c.bytes]
    index := fun index => [outputStart index]
    item := {
      capacity := fun bs => [cellCapacity bs]
      lock := {
        codeHash := fun bs => [cellLockCodeHash bs]
        hashType := fun b => [cellScriptHashType b]
        args := { bodyChunk := fun c => [scriptArgChunk c.bytes] } }
      type_ := {
        codeHash := fun bs => [cellTypeCodeHash bs]
        hashType := fun b => [cellScriptHashType b]
        args := { size := fun length => ([cellTypeArgLength length], true) } }
      finish := [outputEnd] }
    finish := [outputsEnd] }
  outputsData := {
    chunk := fun c => [blake2bChunk c.bytes]
    index := fun idx => [validateOutputDataStart idx]
    item := {
      size := sizeCallback setCellDataSize
      bodyChunk := fun c => [checkCellDataDataChunk c.bytes]
      finish := [finishOutputCellData] } }
  finish := [finalizeRawTransaction]

/-- Whether `init_bip32` accepts a path vector of this size: at most the five components of
`bip32_path_t`, four bytes each. -/
def initBip32Ok (size : UInt32) : Bool := 4 ≤ size && size - 4 ≤ 20

/-- The callbacks of a path vector. -/
def bip32Callbacks (finish : Callback) : Bip32Cb Callback where
  size size := ([initBip32 size], initBip32Ok size)
  item bs := [bip32Component bs]
  finish := [finish]

/-- `annotatedTransaction_callbacks` -/
def annotatedTransactionCallbacks : AnnotatedTransactionCb Callback where
  signPath := bip32Callbacks setSignPath
  changePath := bip32Callbacks setChangePath
  inputCount bs := [setInputCount bs]
  raw := annotatedRawTransactionCallbacks
  witnesses := {
    index := fun index => [beginWitness index]
    item := {
      size := sizeCallback hashWitnessLength
      bodyChunk := fun c => [processWitness c]
      finish := [processWitnessEnd] }
    finish := [finalizeWitnesses] }

end Callback

/-- The parser of the annotated transaction. -/
def transactionReader : Reader Callback :=
  MolReader.annotatedTransaction Callback.annotatedTransactionCallbacks

/-- The parser of the first witness. -/
def witnessReader : Reader WitnessCallback :=
  MolReader.witnessArgs witnessArgsRewriteCallbacks

end LedgerNervos
