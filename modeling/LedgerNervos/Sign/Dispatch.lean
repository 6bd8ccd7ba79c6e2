import LedgerNervos.Sign.State

/-!
# The callback functions

One definition for each callback function of the signing code, under its name, as a function on
the session state; `dispatch` calls the function that a `Callback` stands for, and
`runCallbacks` calls several in turn.

The parser of the first witness works on the receive buffer in place: it zeroes the signatures
of a multisig lock there, and it looks for the fields of the multisig script behind the end of a
piece that is too short to hold them.  The buffer is therefore part of the state of these
functions (`Io`).
-/

namespace LedgerNervos

/-- The receive buffer. -/
abbrev Io := List UInt8

/-- Overwrite the buffer from `off` on. -/
def Io.write (io : Io) (off : ℕ) (bs : List UInt8) : Io :=
  io.take off ++ bs ++ io.drop (off + bs.length)

/-- A 32-bit number as it lies in memory. -/
def u32le (x : UInt32) : List UInt8 := leBytes 4 x.toNat

/-- A 64-bit number as it lies in memory. -/
def u64le (x : UInt64) : List UInt8 := leBytes 8 x.toNat

def defaultLockScript : List UInt8 :=
  [0x9b, 0xd7, 0xe0, 0x6f, 0x3e, 0xcf, 0x4b, 0xe0, 0xf2, 0xfc, 0xd2,
   0x18, 0x8b, 0x23, 0xf1, 0xb9, 0xfc, 0xc8, 0x8e, 0x5d, 0x4b, 0x65,
   0xa8, 0x63, 0x7b, 0x17, 0x72, 0x3b, 0xbd, 0xa3, 0xcc, 0xe8]

def multisigLockScript : List UInt8 :=
  [0x5c, 0x50, 0x69, 0xeb, 0x08, 0x57, 0xef, 0xc6, 0x5e, 0x1b, 0xca,
   0x0c, 0x07, 0xdf, 0x34, 0xc3, 0x16, 0x63, 0xb3, 0x62, 0x2f, 0xd3,
   0x87, 0x6c, 0x87, 0x63, 0x20, 0xfc, 0x96, 0x34, 0xe2, 0xa8]

def daoTypeScriptHash : List UInt8 :=
  [0x82, 0xd7, 0x6d, 0x1b, 0x75, 0xfe, 0x2f, 0xd9, 0xa2, 0x7d, 0xfb,
   0xaa, 0x65, 0xa0, 0x39, 0x22, 0x1a, 0x38, 0x0d, 0x76, 0xc9, 0x26,
   0xf3, 0x78, 0xd3, 0xf8, 0x1c, 0xf3, 0xe7, 0xe1, 0x3f, 0x2e]

theorem length_defaultLockScript : defaultLockScript.length = 32 := rfl

theorem length_multisigLockScript : multisigLockScript.length = 32 := rfl

theorem length_daoTypeScriptHash : daoTypeScriptHash.length = 32 := rfl

/-- The record of the first witness when it is the usual empty one: its length, and
`WitnessArgs` with a lock of 65 zeros. -/
def selfWitness : List UInt8 :=
  [0x55, 0, 0, 0, 0, 0, 0, 0, 0x55, 0, 0, 0, 0x10, 0, 0, 0, 0x55, 0, 0, 0, 0x55, 0, 0, 0,
   0x41, 0, 0, 0] ++ List.replicate 65 0

/-- A lock of 65 zeros, with its length. -/
def zeroWitness : List UInt8 := [0x41, 0, 0, 0] ++ List.replicate 65 0

/-- `1 << i`, an `int`, as it is combined with a 64-bit mask: the shift by 31 gives the sign bit,
which is extended. -/
def bitInt (env : Env) (i : UInt32) : UInt64 :=
  if i.toNat < 31 then 1 <<< i.toUInt64
  else if i.toNat = 31 then 0xFFFFFFFF80000000
  else env.shlInt i

/-- `((uint64_t) 1) << i` -/
def bitU64 (env : Env) (i : UInt32) : UInt64 :=
  if i.toNat < 64 then 1 <<< i.toUInt64 else env.shlU64 i

/-- `generate_lock_arg_for_pubkey` -/
def generateLockArgForPubkey (env : Env) (key : PublicKey) : StandardLockArg :=
  let tagByte : UInt8 := if key.1.getD 64 0 &&& 1 ≠ 0 then 0x03 else 0x02
  ⟨(env.blake2b (tagByte :: (key.1.drop 1).take 32)).1.take 20, by simp⟩

/-- `prep_lock_arg` -/
def prepLockArg (env : Env) (key : Bip32Path) : Except Exn StandardLockArg := do
  let (_, extPublicKey) ← env.derive key.used
  return generateLockArgForPubkey env extPublicKey.publicKey

namespace SignState

/-! ### Paths -/

/-- `init_bip32` -/
def initBip32 (g : SignState) (size : UInt32) : SignState :=
  if Callback.initBip32Ok size then { g with tempKey.length := 0 } else g.rejectHard

/-- `bip32_component` -/
def bip32Component (g : SignState) (buf : List UInt8) : SignState :=
  { g with
    tempKey.components := g.tempKey.components.set g.tempKey.length.toNat (molUnpackNumber buf)
    tempKey.length := g.tempKey.length + 1 }

/-- `set_sign_path` -/
def setSignPath (env : Env) (g : SignState) : Except Exn SignState := do
  let currentLockArg ← prepLockArg env g.tempKey
  return { g with
    currentLockArg := currentLockArg
    keyPathComponents := g.tempKey.components.drop 2
    keyLength := g.tempKey.length
    changeLockArg := currentLockArg }

/-- `set_change_path` -/
def setChangePath (env : Env) (g : SignState) : Except Exn SignState := do
  let changeLockArg ← prepLockArg env g.tempKey
  return { g with changeLockArg := changeLockArg }

/-- `set_input_count` -/
def setInputCount (g : SignState) (buf : List UInt8) : SignState :=
  { g with inputCount := molUnpackNumber buf }

/-! ### Inputs -/

/-- `blake2b_chunk` -/
def blake2bChunk (g : SignState) (buf : List UInt8) : SignState :=
  { g with hashState := g.hashState.incrementalHash buf }

/-- `inputs_start` -/
def inputsStart (g : SignState) : SignState := { g with inp.lastInputLockArg := .zero 20 }

/-- `input_start` -/
def inputStart (g : SignState) : SignState :=
  { g with cellState := {}, lockArgTmp := .zero 28, inp.inputState := {} }

/-- `input_save_index` -/
def inputSaveIndex (g : SignState) (index : List UInt8) : SignState :=
  { g with inp.inputState.index := molUnpackNumber index }

/-- `context_blake2b_chunk` -/
def contextBlake2bChunk (g : SignState) (chunk : List UInt8) : SignState :=
  { g with inp.inputState.hashState := g.inp.inputState.hashState.incrementalHash chunk }

/-- `finish_context_txn` -/
def finishContextTxn (env : Env) (g : SignState) : SignState :=
  let txHash := (g.inp.inputState.hashState.finishHash env).1
  let g := (g.blake2bChunk txHash.1).blake2bChunk (u32le g.inp.inputState.index)
  { g with inp.inputState := {} }

/-- `finish_inputs` -/
def finishInputs (g : SignState) : SignState := { g with tempKey := .zero, inp := {}, tx := {} }

/-- `input_context_start_idx` -/
def inputContextStartIdx (g : SignState) (idx : UInt32) : SignState :=
  { g with cellState.active := idx == g.inp.inputState.index }

/-- `blake2b_input_count` -/
def blake2bInputCount (g : SignState) (length : UInt32) : SignState :=
  if length ≠ g.inputCount then g.rejectHard else g.blake2bChunk (u32le g.inputCount)

/-- `computeNewOffsetsToHash`: the header of the raw transaction that is hashed.  The annotated
inputs are replaced there by 44 bytes each and a count. -/
def computeNewOffsetsToHash (g : SignState) (header : List UInt32) : SignState :=
  let field (i : ℕ) : UInt32 := header.getD i 0
  let toSubtract := field 5 - field 4 - (44 * g.inputCount + 4)
  [field 0 - toSubtract, field 1, field 2, field 3, field 4, field 5 - toSubtract,
    field 6 - toSubtract].foldl (fun g x => g.blake2bChunk (u32le x)) g

/-! ### Cells, of inputs and outputs -/

/-- `cell_capacity` -/
def cellCapacity (g : SignState) (capacity : List UInt8) : SignState :=
  if !g.cellState.active then g
  else { g with cellState.capacity := UInt64.ofNat (leNat capacity) }

/-- `cell_lock_code_hash` -/
def cellLockCodeHash (nd : NvramData) (g : SignState) (buf : List UInt8) : SignState :=
  if !g.cellState.active then g
  else if buf = defaultLockScript then { g with cellState.isMultisig := false }
  else if buf = multisigLockScript then { g with cellState.isMultisig := true }
  else if nd.contractDataType = .disallow then g.reject
  else g

/-- `cell_script_hash_type` -/
def cellScriptHashType (nd : NvramData) (g : SignState) (hashType : UInt8) : SignState :=
  if !g.cellState.active then g
  else if hashType ≠ 1 ∧ nd.contractDataType = .disallow then g.reject
  else g

/-- `script_arg_start_input` -/
def scriptArgStartInput (g : SignState) : SignState :=
  if !g.cellState.active then g
  else { g with
    cellState.lockArgIndex := 0
    cellState.lockArgNonequal := false
    lockArgCmp := .currentLockArg }

/-- `script_arg_chunk` -/
def scriptArgChunk (g : SignState) (buf : List UInt8) : SignState :=
  let currentOffset := g.cellState.lockArgIndex
  if !g.cellState.active then g
  else if 28 < currentOffset + buf.length then { g with cellState.lockArgNonequal := true }
  else
    let g := { g with
      lockArgTmp := g.lockArgTmp.write currentOffset buf
      cellState.lockArgIndex := currentOffset + buf.length }
    match g.window g.lockArgCmp with
    | none => { g with cellState.lockArgNonequal := true }
    | some bytes => { g with cellState.lockArgNonequal :=
        g.cellState.lockArgNonequal || (bytes.drop currentOffset).take buf.length != buf }

/-- `input_lock_arg_end` -/
def inputLockArgEnd (g : SignState) : SignState :=
  let saveLast (g : SignState) : SignState :=
    { g with inp.lastInputLockArg := LockArg.hash g.lockArgTmp }
  if !g.cellState.active then g
  else if g.inp.lastInputLockArg ≠ LockArg.hash g.lockArgTmp then
    let g := { g with distinctInputSources := g.distinctInputSources + 1 }
    if !g.cellState.lockArgNonequal then
      if g.maybe.v.inputCount.1 ≠ 0 then g.reject
      else saveLast { g with
        maybe.v.inputCount := (g.distinctInputSources.toUInt64, g.maybe.v.inputCount.2) }
    else saveLast g
  else saveLast g

/-- `cell_type_code_hash` -/
def cellTypeCodeHash (nd : NvramData) (g : SignState) (buf : List UInt8) : SignState :=
  if !g.cellState.active then g
  else if buf = daoTypeScriptHash then { g with cellState.isDao := true }
  else if nd.contractDataType = .disallow then g.reject
  else g

/-- `cell_type_arg_length` -/
def cellTypeArgLength (nd : NvramData) (g : SignState) (length : UInt32) : SignState :=
  if !g.cellState.active then g
  else if length ≠ 4 ∧ g.cellState.isDao then g.reject
  else if length ≠ 4 ∧ nd.contractDataType = .disallow then g.reject
  else g

/-- `set_cell_data_size`: the guard against inactive cells lacks its `return`. -/
def setCellDataSize (g : SignState) (size : UInt32) : SignState :=
  if size < 4 then g.rejectHard
  else { g with cellState.dataSize := min 15 (size - 4).toNat }

/-- `check_cell_data_data_chunk` -/
def checkCellDataDataChunk (g : SignState) (buf : List UInt8) : SignState :=
  if !g.cellState.active then g
  else { g with cellState.daoDataIsNonzero := g.cellState.daoDataIsNonzero || buf.any (· ≠ 0) }

/-- Choose a DAO operation, unless another one has been chosen before. -/
def chooseDao (g : SignState) (tag : OperationTag) : SignState :=
  if g.maybe.v.tag ≠ tag ∧ g.maybe.v.tag ≠ .notSet then g.reject else g.setTag tag

/-- `finish_input_cell_data` -/
def finishInputCellData (nd : NvramData) (g : SignState) : SignState :=
  if !g.cellState.active then g
  else if g.cellState.isDao then
    let g := { g with daoCellOwner := LockArg.hash g.lockArgTmp }
    if g.cellState.dataSize ≠ 8 then g.reject
    else
      let g := { g with daoInputAmount := g.daoInputAmount + g.cellState.capacity }
      if g.cellState.daoDataIsNonzero then g.chooseDao .daoWithdraw else g.chooseDao .daoPrepare
  else if g.cellState.dataSize ≠ 0 ∧ nd.contractDataType = .disallow then g.reject
  else { g with
    maybe.v.contractType :=
      if 0 < g.cellState.dataSize then .unknown else g.maybe.v.contractType
    inputAmount :=
      (if !g.cellState.lockArgNonequal then g.inputAmount.1 + g.cellState.capacity
        else g.inputAmount.1,
      g.inputAmount.2 + g.cellState.capacity)
    signingMultisigInput := g.signingMultisigInput || g.cellState.isMultisig }

/-! ### Outputs -/

/-- `output_start` -/
def outputStart (g : SignState) (index : UInt32) : SignState :=
  { g with
    tx.currentOutputIndex := index
    cellState := { active := true }
    lockArgTmp := .zero 28
    lockArgCmp := .changeLockArg }

/-- The destination of the cell being read, as an entry of `outputs`. -/
def destination (g : SignState) : Output :=
  { destination := g.lockArgTmp, isMultisig := g.cellState.isMultisig }

/-- Store destination and kind of the cell in the entry number `i` of `outputs`, and count it. -/
def newOutput (g : SignState) (i : ℕ) : SignState :=
  { g with
    tx.outputs := g.tx.outputs.modify i fun o =>
      { o with destination := g.lockArgTmp, isMultisig := g.cellState.isMultisig }
    tx.outputCount := g.tx.outputCount + 1 }

/-- Add the capacity of the cell to the last entry of `outputs` and to the amount that goes to
others. -/
def addToOutput (g : SignState) : SignState :=
  { g with
    tx.plainOutputAmount := g.tx.plainOutputAmount + g.cellState.capacity
    tx.outputs := g.tx.outputs.modify (g.tx.outputCount - 1) fun o =>
      { o with capacity := o.capacity + g.cellState.capacity }
    maybe.v.flags.hasDestinationAddress := true }

/-- `output_end` -/
def outputEnd (env : Env) (g : SignState) : Except Exn SignState :=
  if g.cellState.isDao then
    let g := { g with
      daoCellOwner := LockArg.hash g.lockArgTmp
      tx.daoOutputAmount := g.tx.daoOutputAmount + g.cellState.capacity
      tx.daoBitmask := g.tx.daoBitmask ||| bitInt env g.tx.currentOutputIndex }
    if g.cellState.lockArgNonequal ∨ g.cellState.isMultisig then .ok g.reject
    else .ok { g with maybe.v.flags.hasChangeAddress := true }
  else if g.cellState.lockArgNonequal ∨ g.cellState.isMultisig then
    if !g.maybe.v.flags.hasDestinationAddress then
      if g.tx.outputCount ≠ 0 then .error .memoryError
      else .ok (g.newOutput 0).addToOutput
    else
      let last := g.tx.outputs.getD (g.tx.outputCount - 1) {}
      if LockArg.hash last.destination ≠ LockArg.hash g.lockArgTmp ∨
          last.isMultisig ≠ g.cellState.isMultisig then
        if g.maybe.v.tag ≠ .notSet ∧ g.maybe.v.tag ≠ .multiOutputTransfer then .ok g.reject
        else
          let g := g.setTag .multiOutputTransfer
          if maxOutputs ≤ g.tx.outputCount then .ok g.reject
          else .ok (g.newOutput g.tx.outputCount).addToOutput
      else .ok g.addToOutput
  else .ok { g with
    tx.changeAmount := g.tx.changeAmount + g.cellState.capacity
    maybe.v.flags.hasChangeAddress := true }

/-- `outputs_end`.  The flags are cleared altogether for a transfer to oneself: the operator
applied to `HAS_CHANGE_ADDRESS` there is the logical negation. -/
def outputsEnd (g : SignState) : Except Exn SignState :=
  if g.tx.daoBitmask ≠ 0 ∨ g.maybe.v.tag = .daoPrepare ∨ g.maybe.v.tag = .daoWithdraw then .ok g
  else
    let selfTransfer :=
      !g.maybe.v.flags.hasDestinationAddress && g.maybe.v.flags.hasChangeAddress
    let g := { g with tx.isSelfTransfer := selfTransfer }
    if !selfTransfer then .ok g
    else if g.tx.plainOutputAmount ≠ 0 then .error .wrongParam
    else if g.tx.outputCount ≠ 0 then .error .memoryError
    else .ok { g with
      tx.plainOutputAmount := g.tx.changeAmount
      tx.changeAmount := 0
      maybe.v.flags := {}
      tx.outputCount := 1
      tx.outputs := g.tx.outputs.modify 0 fun o =>
        { o with destination := o.destination.write 0 g.changeLockArg.1 } }

/-- `validate_output_data_start` -/
def validateOutputDataStart (env : Env) (g : SignState) (idx : UInt32) : SignState :=
  { g with cellState.isDao := g.tx.daoBitmask &&& bitU64 env idx ≠ 0 }

/-- `finish_output_cell_data` -/
def finishOutputCellData (nd : NvramData) (g : SignState) : SignState :=
  if g.cellState.isDao then
    if g.cellState.dataSize ≠ 8 then g.reject
    else if g.cellState.daoDataIsNonzero then g.chooseDao .daoPrepare
    else g.chooseDao .daoDeposit
  else if g.cellState.dataSize ≠ 0 ∧ nd.contractDataType = .disallow then g.reject
  else if 0 < g.cellState.dataSize then { g with maybe.v.contractType := .unknown }
  else g

/-- The end of `finalize_raw_transaction`: the fee, or what a withdrawal earns, and the hash. -/
def finishTransaction (env : Env) (g : SignState) : SignState :=
  let fee := (g.inputAmount.2 + g.daoInputAmount) -
    (g.tx.plainOutputAmount + g.tx.daoOutputAmount + g.tx.changeAmount)
  let fee := if g.maybe.v.tag = .daoWithdraw then -fee else fee
  let g := { g with maybe.v.totalFee := fee }
  { g with
    tx.transactionHash := (g.hashState.finishHash env).1
    hashState := (g.hashState.finishHash env).2 }

/-- `finalize_raw_transaction`.  A `REJECT` leaves it before the hash is finished. -/
def finalizeRawTransaction (env : Env) (g : SignState) : SignState :=
  let showAmount (g : SignState) : SignState :=
    { g with maybe.v.amount := (g.maybe.v.amount.1, g.tx.plainOutputAmount) }
  match g.maybe.v.tag with
  | .none => g.finishTransaction env
  | .multiInputTransfer => g.reject
  | .notSet | .plainTransfer =>
    if 1 < g.distinctInputSources then
      if g.signingMultisigInput then g.reject
      else
        let g := g.setTag .multiInputTransfer
        if g.maybe.v.inputCount.1 = 0 then g.reject
        else
          let g := { g with
            maybe.v.inputCount := (g.maybe.v.inputCount.1, g.distinctInputSources.toUInt64)
            maybe.v.amount := (g.inputAmount.1, g.maybe.v.amount.2) }
          (showAmount g).finishTransaction env
    else
      let g := g.setTag (if g.tx.isSelfTransfer then .selfTransfer else .plainTransfer)
      (showAmount g).finishTransaction env
  | .selfTransfer => (showAmount g).finishTransaction env
  | .multiOutputTransfer =>
    if 1 < g.distinctInputSources then g.reject else (showAmount g).finishTransaction env
  | .daoDeposit => { g with maybe.v.daoAmount := g.tx.daoOutputAmount }.finishTransaction env
  | .daoPrepare =>
    let g : SignState := { g with maybe.v.daoAmount := g.tx.daoOutputAmount }
    if g.tx.daoOutputAmount ≠ g.daoInputAmount then g.reject else g.finishTransaction env
  | .daoWithdraw =>
    let g : SignState := { g with maybe.v.daoAmount := g.daoInputAmount }
    if g.tx.daoOutputAmount ≠ 0 then g.reject
    else if g.tx.plainOutputAmount ≠ 0 then g.reject
    else g.finishTransaction env

/-! ### Witnesses -/

/-- `witness_offsets`.  Without a multisig input the lock is replaced by one of 65 zeros, so
sizes and offsets are shifted by the difference in length. -/
def witnessOffsets (g : SignState) (header : List UInt32) : SignState :=
  let field (i : ℕ) : UInt32 := header.getD i 0
  if g.signingMultisigInput then
    (g.blake2bChunk (u64le (field 0).toUInt64)).blake2bChunk
      (u32le (field 0) ++ u32le (field 1) ++ u32le (field 2) ++ u32le (field 3))
  else
    let shift := 69 - (field 2 - field 1)
    ((g.blake2bChunk (u64le (field 0 + shift).toUInt64)).blake2bChunk
      (u32le (field 0 + shift) ++ u32le (field 1) ++ u32le (field 2 + shift) ++
        u32le (field 3 + shift))).blake2bChunk zeroWitness

/-- `witness_lock_arg_size` -/
def witnessLockArgSize (g : SignState) (size : UInt32) : SignState :=
  if !g.signingMultisigInput then g
  else if size < 4 then g.rejectHard
  else g.blake2bChunk (u32le (size - 4))

/-- Where the signatures start in a piece of a multisig lock with `count` keys, of which `consumed`
bytes came before. -/
def signaturesStart (consumed : UInt32) (count : UInt8) : UInt32 :=
  4 + 20 * count.toUInt32 - consumed

/-- Signatures start in a piece of this length, behind its first byte. -/
def signaturesIn (consumed : UInt32) (count : UInt8) (length : ℕ) : Bool :=
  0 < count && 0 < signaturesStart consumed count &&
    (signaturesStart consumed count).toNat < length

/-- The piece as it is hashed: the signatures that start in it are replaced by zeros. -/
def zeroSignatures (consumed : UInt32) (count : UInt8) (bytes : List UInt8) : List UInt8 :=
  if signaturesIn consumed count bytes.length then
    bytes.take (signaturesStart consumed count).toNat ++
      List.replicate (bytes.length - (signaturesStart consumed count).toNat) 0
  else bytes

/-- A byte that is looked up from the start of a piece on.  When the piece is too short, it is found
in the receive buffer, behind the end of the piece. -/
def lookUp (io : Io) (c : Chunk) (i : ℕ) : UInt8 := (c.bytes[i]?).getD (io.getD (c.off + i) 0)

/-- `witness_lock_arg_body_chunk` -/
def witnessLockArgBodyChunk (g : SignState) (io : Io) (c : Chunk) : SignState × Io :=
  let consumed := g.tx.witnessMultisigLockArgConsumed
  if !g.signingMultisigInput then (g, io)
  else if consumed = 0 ∧ lookUp io c 0 ≠ 0 then (g.reject, io)
  else
    let threshold := if consumed < 3 then lookUp io c (2 - consumed.toNat)
      else g.tx.witnessMultisigThreshold
    let count := if consumed < 4 then lookUp io c (3 - consumed.toNat)
      else g.tx.witnessMultisigPubkeysCnt
    let bytes := zeroSignatures consumed count c.bytes
    ({ g.blake2bChunk bytes with
        tx.witnessMultisigThreshold := threshold
        tx.witnessMultisigPubkeysCnt := count
        tx.witnessMultisigLockArgConsumed := consumed + UInt32.ofNat c.length },
      if signaturesIn consumed count c.length then io.write c.off bytes else io)

/-- Call a callback of the parser of the first witness. -/
def witnessDispatch : WitnessCallback → SignState × Io → SignState × Io
  | .witnessOffsets header, (g, io) => (g.witnessOffsets header, io)
  | .witnessLockArgSize size, (g, io) => (g.witnessLockArgSize size, io)
  | .witnessLockArgBodyChunk c, (g, io) => g.witnessLockArgBodyChunk io c
  | .blake2bChunk bs, (g, io) => (g.blake2bChunk bs, io)

/-- Start the signing hash over, with the transaction hash. -/
def restartHash (g : SignState) : SignState :=
  { g with hashState := ({} : HashState).incrementalHash g.tx.transactionHash.1 }

/-- `begin_witness` -/
def beginWitness (g : SignState) (index : UInt32) : SignState :=
  let g := { g with tx.isFirstWitness := index == 0 }
  if !g.tx.isFirstWitness then g
  else { g.restartHash with
    tx.witnessMultisigThreshold := 0
    tx.witnessMultisigPubkeysCnt := 0
    tx.witnessMultisigLockArgConsumed := 0
    tx.witnessStack := witnessReader.init }

/-- `hash_witness_length` -/
def hashWitnessLength (g : SignState) (size : UInt32) : SignState :=
  if size < 4 then g
  else if !g.tx.isFirstWitness then g.blake2bChunk (u64le (size - 4).toUInt64)
  else g

/-- `process_witness`.  The inner parser is called again on the next piece also after it has
refused the witness. -/
def processWitness (g : SignState) (io : Io) (c : Chunk) : SignState × Io :=
  if g.tx.isFirstWitness then
    let o := witnessReader.parse molNumMax g.tx.witnessStack c
    let (g, io) := o.evs.foldl (fun s e => witnessDispatch e s) (g, io)
    let g := { g with tx.witnessStack := o.st }
    (if o.rv = .complete then { g with tx.firstWitnessDone := true } else g, io)
  else (g.blake2bChunk c.bytes, io)

/-- `process_witness_end` -/
def processWitnessEnd (g : SignState) : SignState :=
  if g.tx.isFirstWitness ∧ !g.tx.firstWitnessDone then
    { g with tx.firstWitnessDone := true }.restartHash.blake2bChunk selfWitness
  else g

/-- `finalize_witnesses` -/
def finalizeWitnesses (env : Env) (g : SignState) : SignState :=
  { g with
    tx.finalHash := (g.hashState.finishHash env).1
    hashState := (g.hashState.finishHash env).2 }

end SignState

/-! ### Calls -/

open SignState in
/-- Call the function that a callback stands for. -/
def dispatch (env : Env) (nd : NvramData) (e : Callback) (s : SignState × Io) :
    Except Exn (SignState × Io) :=
  let (g, io) := s
  let keep (x : Except Exn SignState) : Except Exn (SignState × Io) := x.map fun g => (g, io)
  match e with
  | .blake2bChunk bs => .ok (g.blake2bChunk bs, io)
  | .inputsStart => .ok (g.inputsStart, io)
  | .inputStart => .ok (g.inputStart, io)
  | .inputSaveIndex bs => .ok (g.inputSaveIndex bs, io)
  | .contextBlake2bChunk bs => .ok (g.contextBlake2bChunk bs, io)
  | .finishContextTxn => .ok (g.finishContextTxn env, io)
  | .finishInputs => .ok (g.finishInputs, io)
  | .inputContextStartIdx idx => .ok (g.inputContextStartIdx idx, io)
  | .cellCapacity bs => .ok (g.cellCapacity bs, io)
  | .cellLockCodeHash bs => .ok (g.cellLockCodeHash nd bs, io)
  | .cellScriptHashType b => .ok (g.cellScriptHashType nd b, io)
  | .scriptArgStartInput => .ok (g.scriptArgStartInput, io)
  | .scriptArgChunk bs => .ok (g.scriptArgChunk bs, io)
  | .inputLockArgEnd => .ok (g.inputLockArgEnd, io)
  | .cellTypeCodeHash bs => .ok (g.cellTypeCodeHash nd bs, io)
  | .cellTypeArgLength length => .ok (g.cellTypeArgLength nd length, io)
  | .setCellDataSize size => .ok (g.setCellDataSize size, io)
  | .checkCellDataDataChunk bs => .ok (g.checkCellDataDataChunk bs, io)
  | .finishInputCellData => .ok (g.finishInputCellData nd, io)
  | .blake2bInputCount length => .ok (g.blake2bInputCount length, io)
  | .computeNewOffsetsToHash header => .ok (g.computeNewOffsetsToHash header, io)
  | .outputStart index => .ok (g.outputStart index, io)
  | .outputEnd => keep (g.outputEnd env)
  | .outputsEnd => keep g.outputsEnd
  | .validateOutputDataStart idx => .ok (g.validateOutputDataStart env idx, io)
  | .finishOutputCellData => .ok (g.finishOutputCellData nd, io)
  | .finalizeRawTransaction => .ok (g.finalizeRawTransaction env, io)
  | .initBip32 size => .ok (g.initBip32 size, io)
  | .bip32Component bs => .ok (g.bip32Component bs, io)
  | .setSignPath => keep (g.setSignPath env)
  | .setChangePath => keep (g.setChangePath env)
  | .beginWitness index => .ok (g.beginWitness index, io)
  | .hashWitnessLength size => .ok (g.hashWitnessLength size, io)
  | .processWitness c => .ok (g.processWitness io c)
  | .processWitnessEnd => .ok (g.processWitnessEnd, io)
  | .finalizeWitnesses => .ok (g.finalizeWitnesses env, io)
  | .setInputCount bs => .ok (g.setInputCount bs, io)

/-- Call several callbacks in turn.  When one throws, the buffer is left as it is then. -/
def runCallbacks (env : Env) (nd : NvramData) :
    List Callback → SignState × Io → Except (Exn × Io) (SignState × Io)
  | [], s => .ok s
  | e :: es, s =>
    match dispatch env nd e s with
    | .ok s' => runCallbacks env nd es s'
    | .error x => .error (x, s.2)

end LedgerNervos
