import LedgerNervos.Molecule.Emits
import LedgerNervos.Sign.Callback
import LedgerNervos.Sign.Readings

/-!
# The calls that the readers make

The specifications of `LedgerNervos.Sign.Readings` say which events belong to a value by following
the structure of the readers.  Here this is written out for the types of the schema: the calls for
a script, an output and so on, in their order.  A byte string is handed over in pieces, and
nothing is known of these but the bytes they make up.
-/

namespace LedgerNervos

variable {ε : Type}

/-- The size of a byte string with its prefix is no less than the prefix. -/
theorem four_le_ofNat_add_four {n : ℕ} (hn : n + 4 < 2 ^ 32) : 4 ≤ UInt32.ofNat n + 4 := by
  simp only [UInt32.le_iff_toNat_le, UInt32.toNat_add, UInt32.toNat_ofNat', UInt32.reduceToNat]
  omega

theorem toNat_ofNat_add_four_sub {n : ℕ} (hn : n + 4 < 2 ^ 32) :
    (UInt32.ofNat n + 4 - 4).toNat = n := by
  rw [UInt32.add_sub_cancel, UInt32.toNat_ofNat', Nat.mod_eq_of_lt (by omega)]

/-- The calls for a byte string: its size, its pieces, its end. -/
structure BytesEvents (cb : BytesCb ε) (a : List UInt8) (evs : List ε) : Prop where
  length : a.length + 4 < 2 ^ 32
  accepted : (cb.size (UInt32.ofNat a.length + 4)).2 = true
  events : ∃ pieces, joined pieces = a ∧ (a = [] → pieces = []) ∧
    evs = (cb.size (UInt32.ofNat a.length + 4)).1 ++ pieces.flatMap cb.bodyChunk ++ cb.finish

theorem events_bytes {cb : BytesCb ε} {a : List UInt8} {cs : List Chunk} {evs : List ε}
    (h : (MolSpec.bytes cb).Tr a cs evs) : BytesEvents cb a evs := by
  obtain ⟨e, ⟨hlen, ha, hok, rfl⟩, rfl⟩ := h
  refine ⟨hlen, hok, ?_⟩
  by_cases hnil : a = []
  · exact ⟨[], hnil.symm, fun _ => rfl, by rw [if_pos hnil]; rfl⟩
  · exact ⟨dropC 4 cs, ha.symm, fun h => absurd h hnil, by rw [if_neg hnil]⟩

/-- The calls for a script: code hash, hash type, args. -/
structure ScriptEvents (cb : ScriptCb ε) (v : ScriptVal) (evs : List ε) : Prop where
  codeHash : v.2.1.length = 32
  events : ∃ e, BytesEvents cb.args v.2.2.2.1 e ∧
    evs = cb.codeHash v.2.1 ++ cb.hashType v.2.2.1 ++ cb.args.start ++ e ++ cb.finish

theorem events_script {cb : ScriptCb ε} {v : ScriptVal} {cs : List Chunk} {evs : List ε}
    (h : (MolSpec.script cb).Tr v cs evs) : ScriptEvents cb v evs := by
  obtain ⟨hd, codeHash, hashType, args, ⟨⟩⟩ := v
  obtain ⟨_, ⟨_, ⟨_, _, ⟨hlen, rfl⟩, ⟨_, ⟨_, _, rfl, ⟨_, ⟨e, _, hargs, ⟨_, rfl, rfl⟩, rfl⟩, rfl⟩,
    rfl⟩, rfl⟩, rfl⟩, rfl⟩, rfl⟩ := h
  refine ⟨hlen, e, events_bytes hargs, ?_⟩
  simp [MolReader.bytes, Reader.close, Reader.bytes]

/-- Reading that leads to no events of any kind. -/
theorem events_nil {α : Type} {sp : Spec ε α} {v : α} {cs : List Chunk} {evs : List ε}
    (hsp : sp.Emits fun _ => False) (h : sp.Tr v cs evs) : evs = [] :=
  List.eq_nil_iff_forall_not_mem.2 (hsp v cs evs h)

theorem emits_outPoint : (MolSpec.outPoint {} : Spec ε OutPointVal).Emits fun _ => False :=
  .struct (.cons (.array nofun) nofun (.cons (.array nofun) nofun .nil))

theorem emits_cellInputVec : (MolSpec.cellInputVec (ε := ε)).Emits fun _ => False :=
  .fixVec nofun nofun nofun (.struct (.cons (.array nofun) nofun
    (.cons emits_outPoint nofun .nil)))

/-- The calls for cell dependencies: their bytes, in pieces. -/
theorem events_cellDepVec {cb : ChunkCb ε} {v : List CellDepVal} {cs : List Chunk}
    {evs : List ε} (h : (MolSpec.cellDepVec cb).Tr v cs evs) :
    Tapped cb.chunk [] (joined cs) evs := by
  obtain ⟨e₀, e₁, h₀, htap, rfl⟩ := h
  have hcellDep : (MolSpec.cellDep (ε := ε)).Emits fun _ => False :=
    .struct (.cons emits_outPoint nofun (.cons (.byte nofun) nofun .nil))
  rw [events_nil (.fixVec nofun nofun nofun hcellDep) h₀] at htap
  rwa [List.append_nil]

/-- The calls for header dependencies: their bytes, in pieces. -/
theorem events_byte32Vec {cb : ChunkCb ε} {v : List (List UInt8)} {cs : List Chunk}
    {evs : List ε} (h : (MolSpec.byte32Vec cb).Tr v cs evs) :
    Tapped cb.chunk [] (joined cs) evs := by
  obtain ⟨e₀, e₁, h₀, htap, rfl⟩ := h
  rw [events_nil (.fixVec nofun nofun nofun (.array nofun)) h₀] at htap
  rwa [List.append_nil]

/-- The calls for an option. -/
def OptionEvents {α : Type} (E : α → List ε → Prop) : Option α → List ε → Prop
  | none, evs => evs = []
  | some a, evs => E a evs

/-- The calls for an output: capacity, lock script, type script. -/
structure CellOutputEvents (cb : CellOutputCb ε) (v : CellOutputVal) (evs : List ε) : Prop where
  capacity : v.2.1.length = 8
  events : ∃ e₁ e₂, ScriptEvents cb.lock v.2.2.1 e₁ ∧
    OptionEvents (ScriptEvents cb.type_) v.2.2.2.1 e₂ ∧
    evs = cb.capacity v.2.1 ++ e₁ ++ e₂ ++ cb.finish

theorem events_cellOutput {cb : CellOutputCb ε} {v : CellOutputVal} {cs : List Chunk}
    {evs : List ε} (h : (MolSpec.cellOutput cb).Tr v cs evs) : CellOutputEvents cb v evs := by
  obtain ⟨hd, capacity, lock, type_, ⟨⟩⟩ := v
  obtain ⟨_, ⟨_, ⟨_, _, ⟨hlen, rfl⟩, ⟨_, ⟨e₁, _, hlock, ⟨_, ⟨e₂, _, htype, ⟨_, rfl, rfl⟩, rfl⟩,
    rfl⟩, rfl⟩, rfl⟩, rfl⟩, rfl⟩, rfl⟩ := h
  refine ⟨hlen, e₁, e₂, events_script hlock, ?_, by simp⟩
  cases type_ with
  | none => exact htype
  | some type_ => exact events_script htype

/-- The calls for a raw transaction that an input refers to: those for its outputs and their data,
and its bytes in pieces. -/
theorem events_rawTransaction {cb : RawTransactionCb ε} {v : RawTransactionVal} {cs : List Chunk}
    {evs : List ε} (h : (MolSpec.rawTransaction cb).Tr v cs evs) :
    ∃ c₁ c₂ e₁ e₂ e, (MolSpec.cellOutputVec cb.outputs).Tr v.2.2.2.2.2.1 c₁ e₁ ∧
      (MolSpec.bytesVec cb.outputsData).Tr v.2.2.2.2.2.2.1 c₂ e₂ ∧
      Tapped cb.chunk (e₁ ++ e₂) (joined cs) e ∧ evs = e ++ cb.finish := by
  obtain ⟨hd, version, deps, hdeps, inputs, outputs, data, ⟨⟩⟩ := v
  obtain ⟨_, e, ⟨_, ⟨_, _, ⟨-, rfl⟩, ⟨_, ⟨d₁, _, hdeps₁, ⟨_, ⟨d₂, _, hdeps₂, ⟨_, ⟨d₃, _, hinputs,
    ⟨_, ⟨e₁, _, houtputs, ⟨_, ⟨e₂, _, hdata, ⟨_, rfl, rfl⟩, rfl⟩, rfl⟩, rfl⟩, rfl⟩, rfl⟩, rfl⟩,
    rfl⟩, rfl⟩, rfl⟩, rfl⟩, rfl⟩, rfl⟩, htap, rfl⟩ := h
  obtain rfl := (events_cellDepVec hdeps₁).eq_of_empty
  obtain rfl := (events_byte32Vec hdeps₂).eq_of_empty
  obtain rfl := events_nil emits_cellInputVec hinputs
  refine ⟨_, _, e₁, e₂, e, houtputs, hdata, ?_, rfl⟩
  simpa using htap

/-- The calls for an annotated input: since and index, then those for the transaction it refers
to. -/
theorem events_annotatedCellInput {cb : AnnotatedCellInputCb ε} {v : AnnotatedCellInputVal}
    {cs : List Chunk} {evs : List ε} (h : (MolSpec.annotatedCellInput cb).Tr v cs evs) :
    v.2.1.1.length = 8 ∧ v.2.1.2.1.2.1.length = 4 ∧
      ∃ e, (MolSpec.rawTransaction cb.source).Tr v.2.2.1
          (takeC ((MolSpec.rawTransaction cb.source).len v.2.2.1) (dropC 44 (dropC 12 cs))) e ∧
        evs = cb.input.since v.2.1.1 ++ cb.input.previousOutput.index v.2.1.2.1.2.1 ++ e := by
  obtain ⟨hd, ⟨since, ⟨hash, index, ⟨⟩⟩, ⟨⟩⟩, source, ⟨⟩⟩ := v
  obtain ⟨_, ⟨_, ⟨_, _, ⟨_, _, ⟨hsince, rfl⟩, ⟨_, ⟨_, _, ⟨_, _, ⟨-, rfl⟩, ⟨_, ⟨_, _, ⟨hindex,
    rfl⟩, ⟨_, rfl, rfl⟩, rfl⟩, rfl⟩, rfl⟩, ⟨_, rfl, rfl⟩, rfl⟩, rfl⟩, rfl⟩, ⟨_, ⟨e, _, hsource,
    ⟨_, rfl, rfl⟩, rfl⟩, rfl⟩, rfl⟩, rfl⟩, rfl⟩ := h
  exact ⟨hsince, hindex, e, hsource, by simp⟩

/-- The lengths of the fields of an annotated raw transaction. -/
def AnnotatedRawTransactionCb.lens (cb : AnnotatedRawTransactionCb ε)
    (v : AnnotatedRawTransactionVal) : List ℕ :=
  [4, (MolSpec.cellDepVec cb.cellDeps).len v.2.2.1, (MolSpec.byte32Vec cb.headerDeps).len v.2.2.2.1,
    (MolSpec.annotatedCellInputVec cb.inputs).len v.2.2.2.2.1,
    (MolSpec.cellOutputVec cb.outputs).len v.2.2.2.2.2.1,
    (MolSpec.bytesVec cb.outputsData).len v.2.2.2.2.2.2.1]

/-- The calls for each field of an annotated raw transaction, by the pieces it arrives in. -/
theorem tr_annotatedRawTransaction {cb : AnnotatedRawTransactionCb ε}
    {v : AnnotatedRawTransactionVal} {cs : List Chunk} {evs : List ε}
    (h : (MolSpec.annotatedRawTransaction cb).Tr v cs evs) :
    v.2.1.length = 4 ∧ ∃ e₁ e₂ e₃ e₄ e₅,
      (MolSpec.cellDepVec cb.cellDeps).Tr v.2.2.1 (fieldPieces 28 (cb.lens v) 1 cs) e₁ ∧
      (MolSpec.byte32Vec cb.headerDeps).Tr v.2.2.2.1 (fieldPieces 28 (cb.lens v) 2 cs) e₂ ∧
      (MolSpec.annotatedCellInputVec cb.inputs).Tr v.2.2.2.2.1
        (fieldPieces 28 (cb.lens v) 3 cs) e₃ ∧
      (MolSpec.cellOutputVec cb.outputs).Tr v.2.2.2.2.2.1 (fieldPieces 28 (cb.lens v) 4 cs) e₄ ∧
      (MolSpec.bytesVec cb.outputsData).Tr v.2.2.2.2.2.2.1
        (fieldPieces 28 (cb.lens v) 5 cs) e₅ ∧
      evs = cb.offsets v.1 ++ cb.version v.2.1 ++ e₁ ++ e₂ ++
        (MolReader.annotatedCellInputVec cb.inputs).start ++ e₃ ++ e₄ ++ e₅ ++ cb.finish := by
  obtain ⟨hd, version, deps, hdeps, inputs, outputs, data, ⟨⟩⟩ := v
  obtain ⟨_, ⟨_, ⟨_, _, ⟨hversion, rfl⟩, ⟨_, ⟨e₁, _, h₁, ⟨_, ⟨e₂, _, h₂, ⟨_, ⟨e₃, _, h₃, ⟨_, ⟨e₄,
    _, h₄, ⟨_, ⟨e₅, _, h₅, ⟨_, rfl, rfl⟩, rfl⟩, rfl⟩, rfl⟩, rfl⟩, rfl⟩, rfl⟩, rfl⟩, rfl⟩, rfl⟩,
    rfl⟩, rfl⟩, rfl⟩, rfl⟩ := h
  simp only [dropC_dropC] at h₁ h₂ h₃ h₄ h₅
  refine ⟨hversion, e₁, e₂, e₃, e₄, e₅, h₁, ?_, ?_, ?_, ?_, by simp⟩
  all_goals
    simp only [fieldPieces, AnnotatedRawTransactionCb.lens, List.take_succ_cons, List.take_zero,
      List.sum_cons, List.sum_nil, Nat.add_zero, ← Nat.add_assoc]
  · exact h₂
  · exact h₃
  · exact h₄
  · exact h₅

/-- The calls for a path: its size, its components, its end. -/
structure Bip32Events (cb : Bip32Cb ε) (v : List (List UInt8)) (evs : List ε) : Prop where
  length : v.length < 2 ^ 32
  component : ∀ a ∈ v, a.length = 4
  accepted : (cb.size (UInt32.ofNat v.length * 4 + 4)).2 = true
  events : evs = (cb.size (UInt32.ofNat v.length * 4 + 4)).1 ++ v.flatMap cb.item ++ cb.finish

/-- The events of reading arrays one after the other. -/
theorem trItems_array {n : ℕ} {finish : List UInt8 → List ε} {idx : UInt32}
    {as : List (List UInt8)} {cs : List Chunk} {evs : List ε}
    (h : Spec.TrItems (Spec.array n finish) [] (fun _ => []) idx as cs evs) :
    (∀ a ∈ as, a.length = n) ∧ evs = as.flatMap finish := by
  induction as generalizing idx cs evs with
  | nil =>
    obtain rfl : evs = [] := h
    exact ⟨nofun, rfl⟩
  | cons a as ih =>
    obtain ⟨e₁, e₂, ⟨hlen, rfl⟩, h₂, rfl⟩ := h
    obtain ⟨has, rfl⟩ := ih h₂
    exact ⟨List.forall_mem_cons.2 ⟨hlen, has⟩, rfl⟩

theorem events_bip32 {cb : Bip32Cb ε} {v : List (List UInt8)} {cs : List Chunk} {evs : List ε}
    (h : (MolSpec.bip32 cb).Tr v cs evs) : Bip32Events cb v evs := by
  obtain ⟨_, ⟨hlen, hok, e, hitems, rfl⟩, rfl⟩ := h
  obtain ⟨hcomponent, rfl⟩ := trItems_array hitems
  exact ⟨hlen, hcomponent, hok, by simp⟩

/-- The lengths of the fields of an annotated transaction. -/
def AnnotatedTransactionCb.lens (cb : AnnotatedTransactionCb ε) (v : AnnotatedTransactionVal) :
    List ℕ :=
  [(MolSpec.bip32 cb.signPath).len v.2.1, (MolSpec.bip32 cb.changePath).len v.2.2.1, 4,
    (MolSpec.annotatedRawTransaction cb.raw).len v.2.2.2.2.1,
    (MolSpec.bytesVec cb.witnesses).len v.2.2.2.2.2.1]

/-- The calls for each field of an annotated transaction, by the pieces it arrives in. -/
theorem tr_annotatedTransaction {cb : AnnotatedTransactionCb ε} {v : AnnotatedTransactionVal}
    {cs : List Chunk} {evs : List ε} (h : (MolSpec.annotatedTransaction cb).Tr v cs evs) :
    v.2.2.2.1.length = 4 ∧ ∃ e₁ e₂ e₃ e₄, Bip32Events cb.signPath v.2.1 e₁ ∧
      Bip32Events cb.changePath v.2.2.1 e₂ ∧
      (MolSpec.annotatedRawTransaction cb.raw).Tr v.2.2.2.2.1
        (fieldPieces 24 (cb.lens v) 3 cs) e₃ ∧
      (MolSpec.bytesVec cb.witnesses).Tr v.2.2.2.2.2.1 (fieldPieces 24 (cb.lens v) 4 cs) e₄ ∧
      evs = e₁ ++ e₂ ++ cb.inputCount v.2.2.2.1 ++ e₃ ++ e₄ := by
  obtain ⟨hd, signPath, changePath, count, raw, witnesses, ⟨⟩⟩ := v
  obtain ⟨_, ⟨e₁, _, h₁, ⟨_, ⟨e₂, _, h₂, ⟨_, ⟨_, _, ⟨hcount, rfl⟩, ⟨_, ⟨e₃, _, h₃, ⟨_, ⟨e₄, _, h₄,
    ⟨_, rfl, rfl⟩, rfl⟩, rfl⟩, rfl⟩, rfl⟩, rfl⟩, rfl⟩, rfl⟩, rfl⟩, rfl⟩, rfl⟩ := h
  simp only [dropC_dropC] at h₃ h₄
  refine ⟨hcount, e₁, e₂, e₃, e₄, events_bip32 h₁, events_bip32 h₂, ?_, ?_, by simp⟩
  all_goals
    simp only [fieldPieces, AnnotatedTransactionCb.lens, List.take_succ_cons, List.take_zero,
      List.sum_cons, List.sum_nil, Nat.add_zero, ← Nat.add_assoc]
  · exact h₃
  · exact h₄

theorem events_annotatedTransaction {cb : AnnotatedTransactionCb ε} {v : AnnotatedTransactionVal}
    {cs : List Chunk} {evs : List ε} (h : (MolSpec.annotatedTransaction cb).Tr v cs evs) :
    v.2.2.2.1.length = 4 ∧ ∃ e₁ e₂ e₃ e₄ c₃ c₄, Bip32Events cb.signPath v.2.1 e₁ ∧
      Bip32Events cb.changePath v.2.2.1 e₂ ∧
      (MolSpec.annotatedRawTransaction cb.raw).Tr v.2.2.2.2.1 c₃ e₃ ∧
      (MolSpec.bytesVec cb.witnesses).Tr v.2.2.2.2.2.1 c₄ e₄ ∧
      evs = e₁ ++ e₂ ++ cb.inputCount v.2.2.2.1 ++ e₃ ++ e₄ := by
  obtain ⟨hcount, e₁, e₂, e₃, e₄, h₁, h₂, h₃, h₄, rfl⟩ := tr_annotatedTransaction h
  exact ⟨hcount, e₁, e₂, e₃, e₄, _, _, h₁, h₂, h₃, h₄, rfl⟩

/-! ### The parts of a transaction -/

/-- The part of an annotated transaction that a callback is called for. -/
inductive Part where
  | path
  | count
  | inputs
  | outputs
  | outputsData
  | raw
  | final
  | witnesses
deriving DecidableEq, Repr

/-- Where a callback is called.  Those that are called for several parts of the raw transaction
belong to `Part.raw`. -/
def Callback.part : Callback → Part
  | initBip32 _ | bip32Component _ | setSignPath | setChangePath => .path
  | setInputCount _ => .count
  | inputsStart | inputStart | inputSaveIndex _ | contextBlake2bChunk _ | finishContextTxn
  | finishInputs | inputContextStartIdx _ | scriptArgStartInput | inputLockArgEnd
  | finishInputCellData | blake2bInputCount _ => .inputs
  | outputStart _ | outputEnd | outputsEnd => .outputs
  | validateOutputDataStart _ | finishOutputCellData => .outputsData
  | beginWitness _ | hashWitnessLength _ | processWitness _ | processWitnessEnd
  | finalizeWitnesses => .witnesses
  | finalizeRawTransaction => .final
  | _ => .raw

/-- A callback for the raw transaction. -/
def Callback.OfRaw (e : Callback) : Prop :=
  e.part ≠ .path ∧ e.part ≠ .count ∧ e.part ≠ .witnesses

theorem emits_bytes {p : ε → Prop} {cb : BytesCb ε} (hsize : ∀ n, ∀ e ∈ (cb.size n).1, p e)
    (hbody : ∀ c, ∀ e ∈ cb.bodyChunk c, p e) (hfinish : ∀ e ∈ cb.finish, p e) :
    (MolSpec.bytes cb).Emits p := .closePlain (.bytes hsize hbody) hfinish

theorem emits_bytesVec {p : ε → Prop} {cb : BytesVecCb ε} (hstart : ∀ e ∈ cb.item.start, p e)
    (hindex : ∀ n, ∀ e ∈ cb.index n, p e) (hitem : (MolSpec.bytes cb.item).Emits p)
    (hchunk : ∀ c, ∀ e ∈ cb.chunk c, p e) (hfinish : ∀ e ∈ cb.finish, p e) :
    (MolSpec.bytesVec cb).Emits p := by
  refine .close (.dynVec ?_ (fun _ => nofun) hindex hitem) hchunk hfinish
  simpa [MolReader.bytes, Reader.close, Reader.bytes] using hstart

theorem emits_script {p : ε → Prop} {cb : ScriptCb ε} (hcode : ∀ bs, ∀ e ∈ cb.codeHash bs, p e)
    (htype : ∀ b, ∀ e ∈ cb.hashType b, p e) (hstart : ∀ e ∈ cb.args.start, p e)
    (hargs : (MolSpec.bytes cb.args).Emits p) (hfinish : ∀ e ∈ cb.finish, p e) :
    (MolSpec.script cb).Emits p := by
  refine .closePlain (.table nofun (fun _ => nofun)
    (.cons (.array hcode) nofun (.cons (.byte htype) ?_ (.cons hargs nofun .nil)))) hfinish
  simpa [MolReader.bytes, Reader.close, Reader.bytes] using hstart

theorem emits_cellOutput {p : ε → Prop} {cb : CellOutputCb ε}
    (hcapacity : ∀ bs, ∀ e ∈ cb.capacity bs, p e) (hlock : (MolSpec.script cb.lock).Emits p)
    (htype : (MolSpec.script cb.type_).Emits p) (hfinish : ∀ e ∈ cb.finish, p e) :
    (MolSpec.cellOutput cb).Emits p :=
  .closePlain (.table nofun (fun _ => nofun) (.cons (.array hcapacity) nofun
    (.cons hlock nofun (.cons (.option htype) nofun .nil)))) hfinish

theorem emits_cellOutputVec {p : ε → Prop} {cb : CellOutputVecCb ε}
    (hindex : ∀ n, ∀ e ∈ cb.index n, p e) (hitem : (MolSpec.cellOutput cb.item).Emits p)
    (hchunk : ∀ c, ∀ e ∈ cb.chunk c, p e) (hfinish : ∀ e ∈ cb.finish, p e) :
    (MolSpec.cellOutputVec cb).Emits p :=
  .close (.dynVec nofun (fun _ => nofun) hindex hitem) hchunk hfinish

theorem emits_cellDepVec {p : ε → Prop} {cb : ChunkCb ε} (hchunk : ∀ c, ∀ e ∈ cb.chunk c, p e) :
    (MolSpec.cellDepVec cb).Emits p :=
  fun _ _ _ h => (events_cellDepVec h).forall_mem nofun hchunk

theorem emits_byte32Vec {p : ε → Prop} {cb : ChunkCb ε} (hchunk : ∀ c, ∀ e ∈ cb.chunk c, p e) :
    (MolSpec.byte32Vec cb).Emits p :=
  fun _ _ _ h => (events_byte32Vec h).forall_mem nofun hchunk

theorem emits_rawTransaction {p : ε → Prop} {cb : RawTransactionCb ε}
    (houtputs : (MolSpec.cellOutputVec cb.outputs).Emits p)
    (hdata : (MolSpec.bytesVec cb.outputsData).Emits p) (hchunk : ∀ c, ∀ e ∈ cb.chunk c, p e)
    (hfinish : ∀ e ∈ cb.finish, p e) : (MolSpec.rawTransaction cb).Emits p := by
  intro v cs evs h e he
  obtain ⟨c₁, c₂, e₁, e₂, e', h₁, h₂, htap, rfl⟩ := events_rawTransaction h
  rcases List.mem_append.1 he with he | he
  · refine htap.forall_mem (fun x hx => ?_) hchunk e he
    rcases List.mem_append.1 hx with hx | hx
    · exact houtputs _ _ _ h₁ x hx
    · exact hdata _ _ _ h₂ x hx
  · exact hfinish e he

namespace Callback

variable {p : Callback → Prop}

/-- The calls for the inputs. -/
theorem emits_inputs (hp : ∀ e, e.part = .inputs ∨ e.part = .raw → p e) :
    (MolSpec.annotatedCellInputVec annotatedRawTransactionCallbacks.inputs).Emits p := by
  have hsource : (MolSpec.rawTransaction annotatedCellInputCallbacks.source).Emits p := by
    refine emits_rawTransaction (emits_cellOutputVec ?_ (emits_cellOutput ?_ (emits_script ?_ ?_ ?_
      (emits_bytes ?_ ?_ ?_) ?_) (emits_script ?_ ?_ ?_ (emits_bytes ?_ ?_ ?_) ?_) ?_) ?_ ?_)
      (emits_bytesVec ?_ ?_ (emits_bytes ?_ ?_ ?_) ?_ ?_) ?_ ?_
    all_goals
      simp only [annotatedCellInputCallbacks, sizeCallback, List.mem_singleton, List.not_mem_nil,
        false_implies, implies_true, forall_eq]
    all_goals
      intros
      first
        | exact hp _ (.inl rfl)
        | exact hp _ (.inr rfl)
  have hinput : (MolSpec.cellInput annotatedCellInputCallbacks.input).Emits p := by
    refine .struct (.cons (.array ?_) nofun (.cons (.struct (.cons (.array ?_) nofun
      (.cons (.array ?_) nofun .nil))) nofun .nil))
    all_goals
      simp only [annotatedCellInputCallbacks, List.mem_singleton, List.not_mem_nil, false_implies,
        implies_true, forall_eq]
    all_goals
      intros
      first
        | exact hp _ (.inl rfl)
        | exact hp _ (.inr rfl)
  refine .closePlain (.dynVec ?_ ?_ (fun _ => nofun) (.closePlain (.table nofun (fun _ => nofun)
    (.cons hinput nofun (.cons hsource nofun .nil))) nofun)) ?_
  all_goals
    simp only [annotatedRawTransactionCallbacks, annotatedCellInputCallbacks,
      MolReader.annotatedCellInput, Reader.close, Reader.table, List.append_nil,
      List.mem_singleton, forall_eq]
  all_goals
    intros
    exact hp _ (.inl rfl)

/-- The calls for an output. -/
theorem emits_output (hp : ∀ e, e.part = .outputs ∨ e.part = .raw → e ≠ .outputsEnd → p e) :
    (MolSpec.cellOutput annotatedRawTransactionCallbacks.outputs.item).Emits p := by
  refine emits_cellOutput ?_ (emits_script ?_ ?_ ?_ (emits_bytes ?_ ?_ ?_) ?_)
    (emits_script ?_ ?_ ?_ (emits_bytes ?_ ?_ ?_) ?_) ?_
  all_goals
    simp only [annotatedRawTransactionCallbacks, List.mem_singleton, List.not_mem_nil,
      false_implies, implies_true, forall_eq]
  all_goals
    intros
    first
      | exact hp _ (.inl rfl) nofun
      | exact hp _ (.inr rfl) nofun

/-- The calls for the outputs. -/
theorem emits_outputs (hp : ∀ e, e.part = .outputs ∨ e.part = .raw → p e) :
    (MolSpec.cellOutputVec annotatedRawTransactionCallbacks.outputs).Emits p := by
  refine emits_cellOutputVec ?_ (emits_output fun e he _ => hp e he) ?_ ?_
  all_goals
    simp only [annotatedRawTransactionCallbacks, List.mem_singleton, forall_eq]
  all_goals
    intros
    first
      | exact hp _ (.inl rfl)
      | exact hp _ (.inr rfl)

/-- The calls for the data of the outputs. -/
theorem emits_outputsData (hp : ∀ e, e.part = .outputsData ∨ e.part = .raw → p e) :
    (MolSpec.bytesVec annotatedRawTransactionCallbacks.outputsData).Emits p := by
  refine emits_bytesVec ?_ ?_ (emits_bytes ?_ ?_ ?_) ?_ ?_
  all_goals
    simp only [annotatedRawTransactionCallbacks, sizeCallback, List.mem_singleton,
      List.not_mem_nil, false_implies, implies_true, forall_eq]
  all_goals
    intros
    first
      | exact hp _ (.inl rfl)
      | exact hp _ (.inr rfl)

/-- The calls for the raw transaction. -/
theorem emits_raw : (MolSpec.annotatedRawTransaction annotatedRawTransactionCallbacks).Emits
    OfRaw := by
  have hp {q : Part} (hq : q ≠ .path ∧ q ≠ .count ∧ q ≠ .witnesses) (e : Callback)
      (he : e.part = q ∨ e.part = .raw) : e.OfRaw := by
    rcases he with he | he
    · rw [OfRaw, he]
      exact hq
    · rw [OfRaw, he]
      decide
  refine .closePlain (.table nofun ?_ (.cons (.array ?_) nofun (.cons (emits_cellDepVec ?_) nofun
    (.cons (emits_byte32Vec ?_) ?_ (.cons (emits_inputs (hp (by decide))) nofun
      (.cons (emits_outputs (hp (by decide))) nofun
        (.cons (emits_outputsData (hp (by decide))) nofun .nil))))))) ?_
  all_goals
    simp only [annotatedRawTransactionCallbacks, MolReader.annotatedCellInputVec, Reader.close,
      Reader.dynVec, List.append_nil, List.mem_singleton, forall_eq]
  all_goals
    intros
    exact ⟨Part.noConfusion, Part.noConfusion, Part.noConfusion⟩

/-- The calls for the witnesses. -/
theorem emits_witnesses : (MolSpec.bytesVec annotatedTransactionCallbacks.witnesses).Emits
    fun e => e.part = .witnesses := by
  refine emits_bytesVec ?_ ?_ (emits_bytes ?_ ?_ ?_) ?_ ?_
  all_goals
    simp only [annotatedTransactionCallbacks, sizeCallback, List.mem_singleton,
      List.not_mem_nil, false_implies, implies_true, forall_eq]
  all_goals intros; rfl

end Callback

end LedgerNervos
