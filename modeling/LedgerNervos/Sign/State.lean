import LedgerNervos.Sign.Callback

/-!
# The state of a signing session

`SignState` is the state that the callbacks share while an annotated transaction is streamed in;
`ApduSignState` adds the parser's own state, which no callback looks at.  The three members of
the union `u` are kept apart here: each is initialised before it is used, and `finish_inputs`
zeroes all of them.
-/

namespace LedgerNervos

/-- `blake2b_hash_state_t`: a hash context. -/
structure HashState where
  initialized : Bool := false
  /-- What the context has been fed. -/
  fed : List UInt8 := []
  /-- The context has been finished. -/
  finished : Bool := false
deriving DecidableEq

namespace HashState

/-- `blake2b_incremental_hash` -/
def incrementalHash (h : HashState) (bs : List UInt8) : HashState :=
  { h with initialized := true, fed := h.fed ++ bs }

/-- `blake2b_finish_hash` -/
def finishHash (env : Env) (h : HashState) : Bytes 32 × HashState :=
  (if h.finished then env.blake2bReused h.fed else env.blake2b h.fed,
    { h with initialized := true, finished := true })

end HashState

inductive OperationTag where
  | none
  | notSet
  | plainTransfer
  | multiOutputTransfer
  | selfTransfer
  | multiInputTransfer
  | daoDeposit
  | daoPrepare
  | daoWithdraw
deriving DecidableEq, Repr

inductive ContractType where
  | notPresent
  | unknown
deriving DecidableEq, Repr

/-- The bits of `flags`. -/
structure Flags where
  hasDestinationAddress : Bool := false
  hasChangeAddress : Bool := false
deriving DecidableEq, Repr

/-- `parsed_transaction`: what the prompts show. -/
structure ParsedTransaction where
  totalFee : UInt64 := 0
  amount : UInt64 × UInt64 := (0, 0)
  daoAmount : UInt64 := 0
  inputCount : UInt64 × UInt64 := (0, 0)
  tag : OperationTag := .notSet
  flags : Flags := {}
  contractType : ContractType := .notPresent
deriving DecidableEq

/-- `maybe_transaction` -/
structure MaybeTransaction where
  isValid : Bool := false
  /-- The field `unsafe`: the transaction is none that the prompts can describe. -/
  isUnsafe : Bool := false
  hardReject : Bool := false
  v : ParsedTransaction := {}
deriving DecidableEq

/-- `cell_state_t`: what is known about the cell being read. -/
structure CellState where
  capacity : UInt64 := 0
  daoDataIsNonzero : Bool := false
  lockArgIndex : ℕ := 0
  dataSize : ℕ := 0
  active : Bool := false
  isDao : Bool := false
  isMultisig : Bool := false
  lockArgNonequal : Bool := false
deriving DecidableEq

/-- `input_state_t` -/
structure InputState where
  index : UInt32 := 0
  hashState : HashState := {}
deriving DecidableEq

/-- The member `inp` of the union. -/
structure InpState where
  inputState : InputState := {}
  lastInputLockArg : StandardLockArg := .zero 20
deriving DecidableEq

/-- `output_t`: a destination and the amount it gets. -/
structure Output where
  capacity : UInt64 := 0
  destination : LockArg := .zero 28
  isMultisig : Bool := false
deriving DecidableEq

/-- `MAX_OUTPUTS` -/
def maxOutputs : ℕ := 5

/-- The member `tx` of the union: what is needed after the inputs. -/
structure TxState where
  witnessMultisigLockArgConsumed : UInt32 := 0
  witnessStack : witnessReader.State := witnessReader.init
  currentOutputIndex : UInt32 := 0
  transactionHash : Bytes 32 := .zero 32
  finalHash : Bytes 32 := .zero 32
  outputs : List Output := List.replicate maxOutputs {}
  daoBitmask : UInt64 := 0
  changeAmount : UInt64 := 0
  plainOutputAmount : UInt64 := 0
  daoOutputAmount : UInt64 := 0
  witnessMultisigThreshold : UInt8 := 0
  witnessMultisigPubkeysCnt : UInt8 := 0
  outputCount : ℕ := 0
  isFirstWitness : Bool := false
  hashOnly : Bool := false
  firstWitnessDone : Bool := false
  isSelfTransfer : Bool := false

/-- Where `lock_arg_cmp` points. -/
inductive LockArgCmp where
  | null
  | currentLockArg
  | changeLockArg
deriving DecidableEq, Repr

/-- `apdu_sign_state_t`, without the stack of the parser. -/
structure SignState where
  tempKey : Bip32Path := .zero
  inp : InpState := {}
  tx : TxState := {}
  currentLockArg : StandardLockArg := .zero 20
  changeLockArg : StandardLockArg := .zero 20
  daoCellOwner : StandardLockArg := .zero 20
  maybe : MaybeTransaction := {}
  hashState : HashState := {}
  inputCount : UInt32 := 0
  distinctInputSources : UInt32 := 0
  cellState : CellState := {}
  daoInputAmount : UInt64 := 0
  inputAmount : UInt64 × UInt64 := (0, 0)
  lockArgCmp : LockArgCmp := .null
  lockArgTmp : LockArg := .zero 28
  keyPathComponents : List UInt32 := [0, 0, 0]
  keyLength : UInt8 := 0
  signingMultisigInput : Bool := false

/-- `apdu_sign_state_t`: what the callbacks share, and the stack of the parser. -/
structure ApduSignState where
  g : SignState := {}
  transactionStack : transactionReader.State := transactionReader.init

namespace SignState

/-- The macro `REJECT`: the transaction cannot be described by the prompts. -/
def reject (g : SignState) : SignState := { g with maybe.isUnsafe := true }

/-- The macro `REJECT_HARD`: the transaction cannot be signed. -/
def rejectHard (g : SignState) : SignState := { g with maybe.hardReject := true }

/-- Change the operation tag. -/
def setTag (g : SignState) (tag : OperationTag) : SignState := { g with maybe.v.tag := tag }

/-- The 28 bytes of memory from where `lock_arg_cmp` points: the lock argument it points to and
the first bytes of the array that follows it in the state. -/
def window (g : SignState) : LockArgCmp → Option (List UInt8)
  | .null => none
  | .currentLockArg => some (g.currentLockArg.1 ++ g.changeLockArg.1.take 8)
  | .changeLockArg => some (g.changeLockArg.1 ++ g.daoCellOwner.1.take 8)

end SignState

end LedgerNervos
