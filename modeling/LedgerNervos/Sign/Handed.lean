import LedgerNervos.Sign.Cells

/-!
# What the callbacks are handed

The calls for a cell hand over its capacity, its scripts and its data, in pieces and in this order.
`CellParts` collects them from the calls, so that a cell that has been read can be compared with the
calls it has led to.  For the outputs of a transaction the calls `output_end` and
`finish_output_cell_data` end a cell and its data; what is collected up to each of them is the
cells and the data one after the other (`Transcript.handedOutputs_eq`,
`Transcript.handedData_eq`).
-/

namespace LedgerNervos

variable {ε α : Type} {env : Env} {P : NvramData → Prop} {g g' : SignState}

open Callback (annotatedCellInputCallbacks annotatedRawTransactionCallbacks)

/-- What calls hand over of a cell. -/
structure CellParts where
  capacity : List UInt8 := []
  lockCodeHash : List UInt8 := []
  /-- That of the lock script, then that of the type script. -/
  hashTypes : List UInt8 := []
  lockArgs : List UInt8 := []
  typeCodeHash : List UInt8 := []
  /-- Of the args of a type script only the size is handed over. -/
  typeArgLengths : List UInt32 := []
  dataSizes : List UInt32 := []
  data : List UInt8 := []
deriving DecidableEq

namespace CellParts

/-- What is handed over later comes behind. -/
def append (p q : CellParts) : CellParts where
  capacity := p.capacity ++ q.capacity
  lockCodeHash := p.lockCodeHash ++ q.lockCodeHash
  hashTypes := p.hashTypes ++ q.hashTypes
  lockArgs := p.lockArgs ++ q.lockArgs
  typeCodeHash := p.typeCodeHash ++ q.typeCodeHash
  typeArgLengths := p.typeArgLengths ++ q.typeArgLengths
  dataSizes := p.dataSizes ++ q.dataSizes
  data := p.data ++ q.data

instance : Append CellParts := ⟨append⟩

theorem append_def (p q : CellParts) : p ++ q = p.append q := rfl

@[simp] theorem append_empty (p : CellParts) : p ++ ({} : CellParts) = p := by
  simp [append_def, append]

@[simp] theorem empty_append (p : CellParts) : ({} : CellParts) ++ p = p := by
  simp [append_def, append]

theorem append_assoc (p q r : CellParts) : p ++ q ++ r = p ++ (q ++ r) := by
  simp [append_def, append]

/-- What one call hands over. -/
def ofCall : Callback → CellParts
  | .cellCapacity bs => { capacity := bs }
  | .cellLockCodeHash bs => { lockCodeHash := bs }
  | .cellScriptHashType b => { hashTypes := [b] }
  | .scriptArgChunk bs => { lockArgs := bs }
  | .cellTypeCodeHash bs => { typeCodeHash := bs }
  | .cellTypeArgLength length => { typeArgLengths := [length] }
  | .setCellDataSize size => { dataSizes := [size] }
  | .checkCellDataDataChunk bs => { data := bs }
  | _ => {}

/-- What several calls hand over. -/
def ofCalls (es : List Callback) : CellParts := es.foldr (fun e p => ofCall e ++ p) {}

@[simp] theorem ofCalls_nil : ofCalls [] = {} := rfl

@[simp] theorem ofCalls_cons (e : Callback) (es : List Callback) :
    ofCalls (e :: es) = ofCall e ++ ofCalls es := rfl

theorem ofCalls_append (es es' : List Callback) :
    ofCalls (es ++ es') = ofCalls es ++ ofCalls es' := by
  induction es with
  | nil => simp
  | cons e es ih => rw [List.cons_append, ofCalls_cons, ofCalls_cons, ih, append_assoc]

/-- Args in pieces. -/
theorem ofCalls_argPieces (pieces : List Chunk) :
    ofCalls (pieces.flatMap fun c => [.scriptArgChunk c.bytes]) =
      { lockArgs := joined pieces } := by
  induction pieces with
  | nil => rfl
  | cons c cs ih =>
    rw [List.flatMap_cons, ofCalls_append, ih, joined_cons]
    simp [append_def, append, ofCall]

/-- Data in pieces. -/
theorem ofCalls_dataPieces (pieces : List Chunk) :
    ofCalls (pieces.flatMap fun c => [.checkCellDataDataChunk c.bytes]) =
      { data := joined pieces } := by
  induction pieces with
  | nil => rfl
  | cons c cs ih =>
    rw [List.flatMap_cons, ofCalls_append, ih, joined_cons]
    simp [append_def, append, ofCall]

end CellParts

/-- What is handed over of an output. -/
def CellOutputVal.handed (o : CellOutputVal) : CellParts where
  capacity := o.2.1
  lockCodeHash := o.lock.codeHash
  hashTypes := o.lock.hashType :: (o.type_.map ScriptVal.hashType).toList
  lockArgs := o.lock.args
  typeCodeHash := (o.type_.map ScriptVal.codeHash).getD []
  typeArgLengths := (o.type_.map fun s => UInt32.ofNat s.args.length + 4).toList

/-- What is handed over of the data of a cell. -/
def dataHanded (d : List UInt8) : CellParts where
  dataSizes := [UInt32.ofNat d.length + 4]
  data := d

open CellParts

/-- The callbacks for a lock script, with the calls around its args. -/
def lockCallbacks (start finish : List Callback) : ScriptCb Callback where
  codeHash bs := [.cellLockCodeHash bs]
  hashType b := [.cellScriptHashType b]
  args := {
    start := start
    bodyChunk := fun c => [.scriptArgChunk c.bytes] }
  finish := finish

/-- What the calls for an output hand over. -/
theorem ofCalls_output (cb : CellOutputCb Callback) (start finish : List Callback)
    (hcapacity : cb.capacity = fun bs => [.cellCapacity bs])
    (hlock : cb.lock = lockCallbacks start finish) (htype : cb.type_ = typeCallbacks)
    (hstart : ofCalls start = {}) (hfinish : ofCalls finish = {}) (hend : ofCalls cb.finish = {})
    {o : CellOutputVal} {evs : List Callback} (h : CellOutputEvents cb o evs) :
    ofCalls evs = o.handed := by
  obtain ⟨e₁, e₂, h₁, h₂, rfl⟩ := h.events
  rw [hlock] at h₁
  obtain ⟨e, ⟨-, -, pieces, hjoin, -, rfl⟩, rfl⟩ := h₁.events
  rw [htype] at h₂
  have htypeCalls : ofCalls e₂ = {
      hashTypes := (o.type_.map ScriptVal.hashType).toList
      typeCodeHash := (o.type_.map ScriptVal.codeHash).getD []
      typeArgLengths := (o.type_.map fun s => UInt32.ofNat s.args.length + 4).toList } := by
    change OptionEvents _ o.type_ e₂ at h₂
    cases hsome : o.type_ with
    | none =>
      rw [hsome] at h₂
      obtain rfl : e₂ = [] := h₂
      rfl
    | some s =>
      rw [hsome] at h₂
      obtain ⟨-, _, ⟨-, -, pieces, -, -, rfl⟩, rfl⟩ := h₂
      have hnone : pieces.flatMap (fun _ => ([] : List Callback)) = [] :=
        List.flatMap_eq_nil_iff.2 fun _ _ => rfl
      simp [typeCallbacks, annotatedRawTransactionCallbacks, hnone, append_def, CellParts.append,
        ofCall, ScriptVal.codeHash, ScriptVal.hashType, ScriptVal.args]
  simp only [hcapacity, lockCallbacks, ofCalls_append, ofCalls_argPieces, hjoin, htypeCalls, hstart,
    hfinish, hend, ofCalls_cons, ofCalls_nil, append_def, CellParts.append, ofCall]
  simp [CellOutputVal.handed, CellOutputVal.lock, ScriptVal.codeHash, ScriptVal.hashType,
    ScriptVal.args]

/-- What the calls for data hand over. -/
theorem ofCalls_data (cb : BytesCb Callback) (hsize : cb.size = sizeCallback .setCellDataSize)
    (hbody : cb.bodyChunk = fun c => [.checkCellDataDataChunk c.bytes])
    (hend : ofCalls cb.finish = {}) {d : List UInt8} {evs : List Callback}
    (h : BytesEvents cb d evs) : ofCalls evs = dataHanded d := by
  obtain ⟨pieces, hjoin, -, rfl⟩ := h.events
  simp [hsize, hbody, sizeCallback, ofCalls_append, ofCalls_dataPieces, hjoin, hend, append_def,
    CellParts.append, ofCall, dataHanded]

/-! ### The outputs -/

/-- Collect what a call hands over; `fin` ends a cell. -/
def gather (fin : Callback) (x : List CellParts × CellParts) (e : Callback) :
    List CellParts × CellParts :=
  if e = fin then (x.1 ++ [x.2], {}) else (x.1, x.2 ++ ofCall e)

/-- A call that hands over nothing. -/
theorem gather_idle {fin e : Callback} (hne : e ≠ fin) (he : ofCall e = {})
    (x : List CellParts × CellParts) : gather fin x e = x := by
  rw [gather, if_neg hne, he, append_empty]

/-- Calls that hand over nothing. -/
theorem foldl_gather_idle {fin : Callback} {es : List Callback}
    (h : ∀ e ∈ es, e ≠ fin ∧ ofCall e = {}) (x : List CellParts × CellParts) :
    es.foldl (gather fin) x = x := by
  induction es with
  | nil => rfl
  | cons e es ih =>
    obtain ⟨⟨hne, he⟩, hes⟩ := List.forall_mem_cons.1 h
    rw [List.foldl_cons, gather_idle hne he, ih hes]

theorem foldl_gather {fin : Callback} {es : List Callback} (h : ∀ e ∈ es, e ≠ fin)
    (x : List CellParts × CellParts) : es.foldl (gather fin) x = (x.1, x.2 ++ ofCalls es) := by
  induction es generalizing x with
  | nil => rw [List.foldl_nil, ofCalls_nil, append_empty]
  | cons e es ih =>
    obtain ⟨he, hes⟩ := List.forall_mem_cons.1 h
    rw [List.foldl_cons, ih hes, gather, if_neg he, ofCalls_cons, append_assoc]

/-- The calls for one cell, the last of which ends it. -/
theorem foldl_gather_snoc {fin : Callback} {es : List Callback} (h : ∀ e ∈ es, e ≠ fin)
    (ps : List CellParts) :
    (es ++ [fin]).foldl (gather fin) (ps, {}) = (ps ++ [ofCalls es], {}) := by
  rw [List.foldl_append, foldl_gather h, List.foldl_cons, List.foldl_nil, gather, if_pos rfl,
    empty_append]

section Items

variable {fin : Callback} {sp : Spec Callback α} {index : UInt32 → List Callback}
  {handed : α → CellParts}

theorem gather_items (hindex : ∀ i, ∀ e ∈ index i, e ≠ fin ∧ ofCall e = {})
    (hitem : ∀ a cs evs, sp.Tr a cs evs → ∀ ps,
      evs.foldl (gather fin) (ps, {}) = (ps ++ [handed a], {})) {as : List α} {i : UInt32}
    {cs : List Chunk} {es : List Callback} (h : Spec.TrItems sp [] index i as cs es)
    (ps : List CellParts) : es.foldl (gather fin) (ps, {}) = (ps ++ as.map handed, {}) := by
  induction as generalizing i cs es ps with
  | nil =>
    obtain rfl : es = [] := h
    rw [List.foldl_nil, List.map_nil, List.append_nil]
  | cons a as ih =>
    obtain ⟨e₁, e₂, h₁, h₂, rfl⟩ := h
    rw [List.foldl_append, hitem a _ _ h₁, List.nil_append, List.foldl_append,
      foldl_gather_idle (hindex _), ih h₂, List.append_assoc]
    rfl

/-- The items of a vector whose bytes are hashed. -/
theorem gather_vec {hooks : Hooks Callback} (hindex : ∀ i, ∀ e ∈ index i, e ≠ fin ∧ ofCall e = {})
    (hitem : ∀ a cs evs, sp.Tr a cs evs → ∀ ps,
      evs.foldl (gather fin) (ps, {}) = (ps ++ [handed a], {}))
    (hchunk : ∀ c, ∀ e ∈ hooks.chunk c, e ≠ fin ∧ ofCall e = {})
    (hfinish : ∀ e ∈ hooks.finish, e ≠ fin ∧ ofCall e = {}) {v : Option (List α)}
    {cs : List Chunk} {evs : List Callback}
    (h : (Spec.close hooks (Spec.dynVec [] (fun _ => []) index sp)).Tr v cs evs) :
    evs.foldl (gather fin) ([], {}) = ((v.getD []).map handed, {}) := by
  obtain ⟨e₀, e₁, h₀, htap, rfl⟩ := h
  have hfold := htap.foldl (gather fin) (fun x _ => x) (fun c x => foldl_gather_idle (hchunk c) x)
    (fun _ => rfl) (fun _ _ _ => rfl) (fun _ _ _ _ => rfl) ([], {})
  rw [List.foldl_append, foldl_gather_idle hfinish, hfold]
  cases v with
  | none =>
    obtain rfl : e₀ = [] := h₀
    rfl
  | some as =>
    obtain ⟨-, e, hitems, rfl⟩ := h₀
    rw [List.nil_append, List.nil_append, List.foldl_append, foldl_gather_idle (hindex 0),
      gather_items hindex hitem hitems]
    rfl

end Items

namespace Transcript

variable {v : AnnotatedTransactionVal} (t : Transcript env P v)

/-- What the calls for the outputs hand over, cell by cell, and what they hand over behind the last
one. -/
def handedOutputs : List CellParts × CellParts :=
  (t.outputTrace.map Prod.snd).foldl (gather .outputEnd) ([], {})

/-- What the calls for the data of the outputs hand over. -/
def handedData : List CellParts × CellParts :=
  (t.dataTrace.map Prod.snd).foldl (gather .finishOutputCellData) ([], {})

theorem handedOutputs_eq :
    t.handedOutputs = ((v.outputs.getD []).map CellOutputVal.handed, {}) := by
  obtain ⟨⟨cs, h⟩, -⟩ := t.outputs
  refine gather_vec ?_ ?_ ?_ ?_ h
  · intro i e he
    obtain rfl := List.mem_singleton.1 he
    exact ⟨Callback.noConfusion, rfl⟩
  · rintro o cs evs ⟨e, he, rfl⟩ ps
    -- the calls up to `output_end`
    let cb : CellOutputCb Callback :=
      { annotatedRawTransactionCallbacks.outputs.item with finish := [] }
    have htr : (MolSpec.cellOutput cb).Tr o cs e := ⟨e, he, (List.append_nil _).symm⟩
    have hne : (MolSpec.cellOutput cb).Emits (· ≠ .outputEnd) := by
      refine emits_cellOutput ?_ (emits_script ?_ ?_ ?_ (emits_bytes ?_ ?_ ?_) ?_)
        (emits_script ?_ ?_ ?_ (emits_bytes ?_ ?_ ?_) ?_) ?_
      all_goals
        simp only [cb, annotatedRawTransactionCallbacks, List.mem_singleton, List.not_mem_nil,
          false_implies, implies_true, forall_eq]
      all_goals intros; exact Callback.noConfusion
    have hfold := foldl_gather_snoc (hne _ _ _ htr) ps
    rw [ofCalls_output cb [] [] rfl rfl rfl rfl rfl rfl
      (events_cellOutput htr)] at hfold
    exact hfold
  · intro c e he
    obtain rfl := List.mem_singleton.1 he
    exact ⟨Callback.noConfusion, rfl⟩
  · intro e he
    obtain rfl := List.mem_singleton.1 he
    exact ⟨Callback.noConfusion, rfl⟩

theorem handedData_eq : t.handedData = ((v.outputsData.getD []).map dataHanded, {}) := by
  obtain ⟨⟨cs, h⟩, -⟩ := t.outputsData
  refine gather_vec ?_ ?_ ?_ (List.forall_mem_nil _) h
  · intro i e he
    obtain rfl := List.mem_singleton.1 he
    exact ⟨Callback.noConfusion, rfl⟩
  · rintro d cs evs ⟨e, he, rfl⟩ ps
    -- the calls up to `finish_output_cell_data`
    let cb : BytesCb Callback :=
      { annotatedRawTransactionCallbacks.outputsData.item with finish := [] }
    have htr : (MolSpec.bytes cb).Tr d cs e := ⟨e, he, (List.append_nil _).symm⟩
    have hne : (MolSpec.bytes cb).Emits (· ≠ .finishOutputCellData) := by
      refine emits_bytes ?_ ?_ ?_
      all_goals
        simp only [cb, annotatedRawTransactionCallbacks, sizeCallback, List.mem_singleton,
          List.not_mem_nil, false_implies, implies_true, forall_eq]
      all_goals intros; exact Callback.noConfusion
    have hfold := foldl_gather_snoc (hne _ _ _ htr) ps
    rw [ofCalls_data cb rfl rfl rfl (events_bytes htr)] at hfold
    exact hfold
  · intro c e he
    obtain rfl := List.mem_singleton.1 he
    exact ⟨Callback.noConfusion, rfl⟩

end Transcript

end LedgerNervos
