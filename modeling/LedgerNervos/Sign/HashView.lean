import LedgerNervos.Sign.Dispatch

/-!
# What is hashed

The part of the state that the hashes of a transaction depend on while the raw transaction is
read: what the two hash contexts have been fed, the index of the input being read and the declared
number of inputs.  On this view a callback acts by itself, whatever the rest of the state is
(`HashView.act`); the settings and the checks only decide whether the transaction is refused.
-/

namespace LedgerNervos

/-- What the hashes depend on. -/
structure HashView where
  fed : List UInt8
  finished : Bool
  /-- The context of the transaction that the input being read refers to. -/
  contextFed : List UInt8
  contextFinished : Bool
  index : UInt32
  inputCount : UInt32
deriving DecidableEq

def SignState.hashView (g : SignState) : HashView where
  fed := g.hashState.fed
  finished := g.hashState.finished
  contextFed := g.inp.inputState.hashState.fed
  contextFinished := g.inp.inputState.hashState.finished
  index := g.inp.inputState.index
  inputCount := g.inputCount

/-- The header of a raw transaction as it is hashed, with 44 bytes for each of `count` inputs. -/
def hashedHeader (count : UInt32) (header : List UInt32) : List UInt8 :=
  let field (i : ℕ) : UInt32 := header.getD i 0
  let toSubtract := field 5 - field 4 - (44 * count + 4)
  [field 0 - toSubtract, field 1, field 2, field 3, field 4, field 5 - toSubtract,
    field 6 - toSubtract].flatMap u32le

namespace HashView

/-- The hash of the transaction that the input refers to. -/
def contextHash (env : Env) (v : HashView) : Bytes 32 :=
  if v.contextFinished then env.blake2bReused v.contextFed else env.blake2b v.contextFed

/-- Start with the next input. -/
def nextInput (v : HashView) : HashView :=
  { v with contextFed := [], contextFinished := false, index := 0 }

/-- What a callback for the raw transaction, up to its end, does to the hashes. -/
def act (env : Env) (v : HashView) : Callback → HashView
  | .setInputCount bs => { v with inputCount := molUnpackNumber bs }
  | .blake2bChunk bs => { v with fed := v.fed ++ bs }
  | .computeNewOffsetsToHash header => { v with fed := v.fed ++ hashedHeader v.inputCount header }
  | .blake2bInputCount _ => { v with fed := v.fed ++ u32le v.inputCount }
  | .inputStart => v.nextInput
  | .inputSaveIndex bs => { v with index := molUnpackNumber bs }
  | .contextBlake2bChunk bs => { v with contextFed := v.contextFed ++ bs }
  | .finishContextTxn =>
    { v with fed := v.fed ++ ((v.contextHash env).1 ++ u32le v.index) }.nextInput
  | .finishInputs => v.nextInput
  | _ => v

end HashView

namespace SignState

theorem hashView_computeNewOffsetsToHash (g : SignState) (header : List UInt32) :
    (g.computeNewOffsetsToHash header).hashView =
      { g.hashView with fed := g.hashView.fed ++ hashedHeader g.inputCount header } := by
  have hfold (xs : List UInt32) (g : SignState) :
      (xs.foldl (fun g x => g.blake2bChunk (u32le x)) g).hashView =
        { g.hashView with fed := g.hashView.fed ++ xs.flatMap u32le } := by
    induction xs generalizing g with
    | nil => simp
    | cons x xs ih =>
      rw [List.foldl_cons, ih, List.flatMap_cons, ← List.append_assoc]
      rfl
  exact hfold _ g

theorem hashView_finishContextTxn (env : Env) (g : SignState) :
    (g.finishContextTxn env).hashView = g.hashView.act env .finishContextTxn := by
  change ({ g.hashView with fed := _ ++ _ ++ _ } : HashView).nextInput = _
  rw [List.append_assoc]
  rfl

end SignState

end LedgerNervos
