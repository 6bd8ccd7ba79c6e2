import LedgerNervos.Sign.Handed
import LedgerNervos.Sign.Inputs

/-!
# The active cell of an input

The transaction that an input refers to comes with all its cells, and the callbacks look at one of
them: a cell is marked as active by its number among the outputs, and its data by their number
among the data.  `Transcript.activeCells` collects what the calls hand over while the mark is set,
with the bytes that the context of the input has been fed.  By `Transcript.Cut.activeCells_eq` this
is, for each input, the output and the data that the reader has found at the index.
-/

namespace LedgerNervos

variable {α : Type} {env : Env} {P : NvramData → Prop} {g g' : SignState}

open Callback (annotatedCellInputCallbacks annotatedRawTransactionCallbacks)
open CellParts

/-- What an input has led to: the index that has been saved, the bytes that its context has been
fed, and what the calls have handed over while the cell was active. -/
structure ActiveCell where
  index : UInt32
  hashed : List UInt8
  parts : CellParts
deriving DecidableEq

/-- Collect what a call hands over in the state that it finds; `finish_context_txn` ends the
transaction that the input refers to. -/
def gatherActive (x : List ActiveCell × CellParts) (y : SignState × Callback) :
    List ActiveCell × CellParts :=
  if y.2 = .finishContextTxn then
    (x.1 ++ [⟨y.1.inp.inputState.index, y.1.inp.inputState.hashState.fed, x.2⟩], {})
  else if y.1.cellState.active then (x.1, x.2 ++ ofCall y.2)
  else x

/-- The active cells of the inputs, one after the other. -/
def Transcript.activeCells {v : AnnotatedTransactionVal} (t : Transcript env P v) :
    List ActiveCell := (t.inputTrace.foldl gatherActive ([], {})).1

/-! ### The mark -/

/-- What a callback for the inputs does to the mark, when `index` has been saved. -/
def actActive (index : UInt32) (active : Bool) : Callback → Bool
  | .inputStart => false
  | .inputContextStartIdx idx => idx == index
  | _ => active

theorem SignState.active_chooseDao (g : SignState) (tag : OperationTag) :
    (g.chooseDao tag).cellState.active = g.cellState.active := by
  unfold chooseDao
  split_ifs <;> rfl

theorem SignState.active_finishInputCellData (nd : NvramData) (g : SignState) :
    (g.finishInputCellData nd).cellState.active = g.cellState.active := by
  unfold finishInputCellData
  dsimp only
  split_ifs <;> first | rfl | exact active_chooseDao _ _

theorem SignState.active_scriptArgChunk (g : SignState) (buf : List UInt8) :
    (g.scriptArgChunk buf).cellState.active = g.cellState.active := by
  unfold scriptArgChunk
  dsimp only
  split_ifs
  · rfl
  · rfl
  · split <;> rfl

theorem SignState.active_computeNewOffsetsToHash (g : SignState) (header : List UInt32) :
    (g.computeNewOffsetsToHash header).cellState.active = g.cellState.active := by
  have hfold (xs : List UInt32) (g : SignState) :
      (xs.foldl (fun g x => g.blake2bChunk (u32le x)) g).cellState.active = g.cellState.active := by
    induction xs generalizing g with
    | nil => rfl
    | cons x xs ih => exact ih _
  exact hfold _ g

open SignState in
/-- Only the start of an input and the numbers of cells and data change the mark. -/
theorem SignState.Step.active {e : Callback} (h : g.Step env P e g')
    (hpart : e.part = .inputs ∨ e.part = .raw) :
    g'.cellState.active = actActive g.inp.inputState.index g.cellState.active e := by
  obtain ⟨nd, io, io', -, h⟩ := h
  cases e <;> simp only [dispatch, Except.ok.injEq, Prod.mk.injEq] at h
  all_goals first
    | (rcases hpart with hpart | hpart <;> exact Part.noConfusion hpart)
    | obtain ⟨rfl, -⟩ := h
  case inputLockArgEnd => exact congrArg CellState.active (cellState_inputLockArgEnd g)
  case finishInputCellData => exact active_finishInputCellData nd g
  case scriptArgChunk bs => exact active_scriptArgChunk g bs
  case computeNewOffsetsToHash header => exact active_computeNewOffsetsToHash g header
  all_goals
    try simp only [blake2bInputCount, setCellDataSize, cellCapacity, cellLockCodeHash,
      cellScriptHashType, scriptArgStartInput, cellTypeCodeHash, cellTypeArgLength,
      checkCellDataDataChunk]
  all_goals try split_ifs
  all_goals rfl

/-! ### A view that changes by itself -/

/-- What the calls for the inputs depend on, and what has been collected. -/
structure InputView where
  hash : HashView
  active : Bool
  cells : List ActiveCell
  parts : CellParts

namespace InputView

/-- What a callback for the inputs does to the view. -/
def act (env : Env) (x : InputView) (e : Callback) : InputView where
  hash := x.hash.act env e
  active := actActive x.hash.index x.active e
  cells :=
    if e = .finishContextTxn then x.cells ++ [⟨x.hash.index, x.hash.contextFed, x.parts⟩]
    else x.cells
  parts :=
    if e = .finishContextTxn then {}
    else if x.active then x.parts ++ ofCall e
    else x.parts

/-- What is collected from a run over calls for the inputs. -/
theorem gatherActive_eq {tr : List (SignState × Callback)}
    (h : Visits (SignState.Step env P) g tr g')
    (hpart : ∀ e ∈ tr.map Prod.snd, e.part = .inputs ∨ e.part = .raw)
    (hok : g'.maybe.hardReject = false) (x : List ActiveCell × CellParts) :
    tr.foldl gatherActive x =
      (((tr.map Prod.snd).foldl (act env) ⟨g.hashView, g.cellState.active, x.1, x.2⟩).cells,
        ((tr.map Prod.snd).foldl (act env) ⟨g.hashView, g.cellState.active, x.1, x.2⟩).parts) := by
  induction h generalizing x with
  | nil s => rfl
  | @cons s s₁ s' e tr h₁ h ih =>
    obtain ⟨he, hrest⟩ := List.forall_mem_cons.1 hpart
    have hhash := h₁.hashView (by rcases he with he | he <;> simp [he])
      (by rcases he with he | he <;> simp [he]) (h.runs.hardReject hok)
    have hview : act env ⟨s.hashView, s.cellState.active, x.1, x.2⟩ e =
        ⟨s₁.hashView, s₁.cellState.active, (gatherActive x (s, e)).1,
          (gatherActive x (s, e)).2⟩ := by
      rw [act, hhash, h₁.active he]
      by_cases hfin : e = .finishContextTxn
      · rw [gatherActive, if_pos hfin, if_pos hfin, if_pos hfin]
        rfl
      · rw [gatherActive, if_neg hfin, if_neg hfin, if_neg hfin]
        by_cases hact : s.cellState.active = true
        · rw [if_pos hact, if_pos hact]
          rfl
        · rw [if_neg hact, if_neg hact]
          rfl
    rw [List.foldl_cons, List.map_cons, List.foldl_cons, hview]
    exact ih hrest hok _

/-! ### The cells of a transaction -/

/-- A call that hands over a part of a cell: it hashes nothing, and starts and ends nothing. -/
structure CellCall (env : Env) (e : Callback) : Prop where
  idle : ∀ y : HashView, y.act env e = y
  active : ∀ index b, actActive index b e = b
  ne : e ≠ .finishContextTxn

theorem act_cellCall {e : Callback} (h : CellCall env e) (x : InputView) :
    x.act env e = { x with parts := if x.active then x.parts ++ ofCall e else x.parts } := by
  rw [act, h.idle, h.active, if_neg h.ne, if_neg h.ne]

/-- Calls for a cell, or for data. -/
theorem foldl_cell {es : List Callback} (h : ∀ e ∈ es, CellCall env e) (x : InputView) :
    es.foldl (act env) x =
      { x with parts := if x.active then x.parts ++ ofCalls es else x.parts } := by
  induction es generalizing x with
  | nil =>
    rw [List.foldl_nil, ofCalls_nil, append_empty, ite_self]
  | cons e es ih =>
    obtain ⟨he, hes⟩ := List.forall_mem_cons.1 h
    rw [List.foldl_cons, act_cellCall he, ih hes, ofCalls_cons]
    cases hact : x.active with
    | false => rfl
    | true => simp only [if_true, append_assoc]

/-- A call that hands over nothing. -/
theorem act_silent (env : Env) (e : Callback) (he : ofCall e = {}) (hne : e ≠ .finishContextTxn)
    (x : InputView) : x.act env e = { x with
      hash := x.hash.act env e
      active := actActive x.hash.index x.active e } := by
  rw [act, if_neg hne, if_neg hne, he, append_empty, ite_self]

/-- A cell, or its data, is announced by its number. -/
theorem act_startIdx (env : Env) (i : UInt32) (x : InputView) :
    x.act env (.inputContextStartIdx i) = { x with active := i == x.hash.index } :=
  act_silent env (.inputContextStartIdx i) rfl nofun x

section Cells

variable {sp : Spec Callback α}

/-- Cells, or their data, one after the other: what is handed over is that with the index that has
been saved, if it is there. -/
theorem foldl_cells {handed : α → CellParts} (hitem : ∀ a cs evs, sp.Tr a cs evs →
      (∀ e ∈ evs, CellCall env e) ∧ ofCalls evs = handed a) {as : List α} {i : UInt32}
    {cs : List Chunk} {es : List Callback} (hlen : i.toNat + as.length < 2 ^ 32)
    (h : Spec.TrItems sp [] (fun i => [.inputContextStartIdx i]) i as cs es) {x : InputView}
    (hx : x.active = (i == x.hash.index)) :
    ∃ b, es.foldl (act env) x = { x with
      active := b
      parts := x.parts ++ if i.toNat ≤ x.hash.index.toNat then
        ((as[x.hash.index.toNat - i.toNat]?).map handed).getD {} else {} } := by
  induction as generalizing i cs es x with
  | nil =>
    obtain rfl : es = [] := h
    refine ⟨x.active, ?_⟩
    rw [List.getElem?_nil, Option.map_none, Option.getD_none, ite_self, append_empty]
    rfl
  | cons a as ih =>
    obtain ⟨e₁, e₂, h₁, h₂, rfl⟩ := h
    obtain ⟨hcalls, hhanded⟩ := hitem a _ _ h₁
    rw [List.length_cons] at hlen
    have hnext : (i + 1).toNat = i.toNat + 1 := by
      rw [UInt32.toNat_add, UInt32.toNat_one, Nat.mod_eq_of_lt (by omega)]
    -- behind this item the next number is announced
    obtain ⟨b, hrest⟩ := ih (i := i + 1) (by omega) h₂ (x := {
      x with
      active := i + 1 == x.hash.index
      parts := if x.active then x.parts ++ handed a else x.parts }) rfl
    refine ⟨b, ?_⟩
    rw [List.foldl_append, foldl_cell hcalls, hhanded, List.nil_append, List.foldl_append,
      List.foldl_cons, List.foldl_nil, act_startIdx, hrest, hx, hnext]
    congr 1
    dsimp only
    by_cases heq : i = x.hash.index
    · rw [← heq, if_pos (beq_self_eq_true i), if_neg (Nat.not_succ_le_self _),
        if_pos (Nat.le_refl _), Nat.sub_self, append_empty]
      rfl
    · have hne : i.toNat ≠ x.hash.index.toNat := fun h => heq (UInt32.toNat_inj.1 h)
      rw [if_neg (by simpa using heq)]
      by_cases hle : i.toNat ≤ x.hash.index.toNat
      · rw [if_pos (by omega), if_pos hle,
          show x.hash.index.toNat - i.toNat = x.hash.index.toNat - (i.toNat + 1) + 1 by omega,
          List.getElem?_cons_succ]
      · rw [if_neg (by omega), if_neg hle]

/-- A vector of cells, or of their data. -/
theorem foldl_cellVec {hooks : Hooks Callback} (handed : α → CellParts)
    (hchunk : hooks.chunk = fun _ => []) (hfinish : hooks.finish = [])
    (hitem : ∀ a cs evs, sp.Tr a cs evs →
      (∀ e ∈ evs, CellCall env e) ∧ ofCalls evs = handed a) {v : Option (List α)}
    {cs : List Chunk} {evs : List Callback}
    (h : (Spec.close hooks (Spec.dynVec [] (fun _ => [])
      (fun i => [.inputContextStartIdx i]) sp)).Tr v cs evs) (x : InputView) :
    ∃ b, evs.foldl (act env) x = { x with
      active := b
      parts := x.parts ++ (((v.getD [])[x.hash.index.toNat]?).map handed).getD {} } := by
  obtain ⟨e₀, e₁, h₀, htap, rfl⟩ := h
  rw [hchunk] at htap
  obtain rfl := htap.eq_of_empty
  rw [hfinish, List.append_nil]
  cases v with
  | none =>
    obtain rfl : e₁ = [] := h₀
    refine ⟨x.active, ?_⟩
    rw [Option.getD_none, List.getElem?_nil, Option.map_none, Option.getD_none, append_empty]
    rfl
  | some as =>
    obtain ⟨hlen, e, hitems, rfl⟩ := h₀
    obtain ⟨b, hfold⟩ := foldl_cells hitem (i := 0) (by simpa using hlen) hitems
      (x := { x with active := 0 == x.hash.index }) rfl
    refine ⟨b, ?_⟩
    rw [List.nil_append, List.nil_append, List.cons_append, List.foldl_cons, List.nil_append,
      act_startIdx, hfold]
    simp

end Cells

end InputView

/-- What is handed over of the cell with this index, and of its data. -/
def RawTransactionVal.cellHanded (s : RawTransactionVal) (index : UInt32) : CellParts :=
  (((s.2.2.2.2.2.1.getD [])[index.toNat]?).map CellOutputVal.handed).getD {} ++
    (((s.2.2.2.2.2.2.1.getD [])[index.toNat]?).map dataHanded).getD {}

namespace InputView

theorem cellCall_output : (MolSpec.cellOutput annotatedCellInputCallbacks.source.outputs.item).Emits
    (CellCall env) := by
  refine emits_cellOutput ?_ (emits_script ?_ ?_ ?_ (emits_bytes ?_ ?_ ?_) ?_)
    (emits_script ?_ ?_ ?_ (emits_bytes ?_ ?_ ?_) ?_) ?_
  all_goals
    simp only [annotatedCellInputCallbacks, List.mem_singleton, List.not_mem_nil, false_implies,
      implies_true, forall_eq]
  all_goals intros; exact ⟨fun _ => rfl, fun _ _ => rfl, Callback.noConfusion⟩

theorem cellCall_data : (MolSpec.bytes annotatedCellInputCallbacks.source.outputsData.item).Emits
    (CellCall env) := by
  refine emits_bytes ?_ ?_ ?_
  all_goals simp only [annotatedCellInputCallbacks, sizeCallback, List.mem_singleton, forall_eq]
  all_goals intros; exact ⟨fun _ => rfl, fun _ _ => rfl, Callback.noConfusion⟩

/-- The bytes of the transaction that an input refers to go to the context alone. -/
theorem act_feed {e : Callback} (h : CellCall env e ∨ ∃ i, e = .inputContextStartIdx i)
    (x : InputView) (bs : List UInt8) :
    ({ x with hash.contextFed := x.hash.contextFed ++ bs } : InputView).act env e =
      { x.act env e with hash.contextFed := (x.act env e).hash.contextFed ++ bs } := by
  rcases h with h | ⟨i, rfl⟩
  · rw [act_cellCall h, act_cellCall h]
  · rw [act_startIdx, act_startIdx]

/-- The transaction that an input refers to. -/
theorem foldl_source (env : Env) {s : RawTransactionVal} {cs : List Chunk} {evs : List Callback}
    (h : (MolSpec.rawTransaction annotatedCellInputCallbacks.source).Tr s cs evs) {x : InputView}
    (hfed : x.hash.contextFed = []) (hparts : x.parts = {}) :
    (evs.foldl (act env) x).cells =
        x.cells ++ [⟨x.hash.index, joined cs, s.cellHanded x.hash.index⟩] ∧
      (evs.foldl (act env) x).parts = {} := by
  obtain ⟨c₁, c₂, e₁, e₂, e, houtputs, hdata, htap, rfl⟩ := events_rawTransaction h
  have hcalls : ∀ e ∈ e₁ ++ e₂, CellCall env e ∨ ∃ i, e = .inputContextStartIdx i := by
    have hindex : ∀ i, ∀ e ∈ [Callback.inputContextStartIdx i],
        CellCall env e ∨ ∃ i, e = .inputContextStartIdx i :=
      fun i e he => .inr ⟨i, List.mem_singleton.1 he⟩
    refine List.forall_mem_append.2 ⟨?_, ?_⟩
    · exact emits_cellOutputVec hindex
        (fun a cs evs h e he => .inl (cellCall_output a cs evs h e he))
        (fun _ => List.forall_mem_nil _) (List.forall_mem_nil _) _ _ _ houtputs
    · exact emits_bytesVec (List.forall_mem_nil _) hindex
        (fun a cs evs h e he => .inl (cellCall_data a cs evs h e he))
        (fun _ => List.forall_mem_nil _) (List.forall_mem_nil _) _ _ _ hdata
  -- the bytes are fed to the context between the calls for the cells
  have hfold := htap.foldl (act env)
    (fun x bs => { x with hash.contextFed := x.hash.contextFed ++ bs })
    (fun c x => act_silent env (.contextBlake2bChunk c.bytes) rfl nofun x) (fun x => by simp)
    (fun x bs bs' => by simp)
    (fun e he x bs => act_feed (hcalls e he) x bs) x
  obtain ⟨b₁, h₁⟩ := foldl_cellVec CellOutputVal.handed rfl rfl
    (fun o cs evs h => ⟨cellCall_output o cs evs h, ofCalls_output
      annotatedCellInputCallbacks.source.outputs.item [.scriptArgStartInput] [.inputLockArgEnd]
      rfl rfl rfl rfl rfl rfl (events_cellOutput h)⟩) houtputs x
  obtain ⟨b₂, h₂⟩ := foldl_cellVec dataHanded rfl rfl
    (fun d cs evs h => ⟨cellCall_data d cs evs h, ofCalls_data
      annotatedCellInputCallbacks.source.outputsData.item rfl rfl rfl (events_bytes h)⟩) hdata
    (e₁.foldl (act env) x)
  have hboth : (e₁ ++ e₂).foldl (act env) x =
      { x with active := b₂, parts := s.cellHanded x.hash.index } := by
    rw [List.foldl_append, h₂, h₁, hparts, empty_append]
    rfl
  rw [List.foldl_append, hfold, hboth]
  change x.cells ++ [⟨x.hash.index, x.hash.contextFed ++ joined cs, _⟩] = _ ∧ _
  rw [hfed, List.nil_append]
  exact ⟨rfl, rfl⟩

end InputView

/-! ### The inputs -/

/-- The index of the output that an input spends. -/
def AnnotatedCellInputVal.sourceIndex (v : AnnotatedCellInputVal) : UInt32 :=
  molUnpackNumber v.2.1.2.1.2.1

/-- The pieces of the transaction that an input refers to. -/
def AnnotatedCellInputVal.sourcePieces (v : AnnotatedCellInputVal) (cs : List Chunk) : List Chunk :=
  takeC ((MolSpec.rawTransaction annotatedCellInputCallbacks.source).len v.2.2.1)
    (dropC 44 (dropC 12 cs))

/-- What an input leads to that is read from the pieces `cs`. -/
def AnnotatedCellInputVal.activeCell (v : AnnotatedCellInputVal) (cs : List Chunk) :
    ActiveCell :=
  ⟨v.sourceIndex, joined (v.sourcePieces cs), v.2.2.1.cellHanded v.sourceIndex⟩

/-- What inputs lead to that are read from the pieces `cs`. -/
def activeCellsOf : List AnnotatedCellInputVal → List Chunk → List ActiveCell
  | [], _ => []
  | v :: vs, cs =>
    let len := (MolSpec.annotatedCellInput annotatedCellInputCallbacks).len v
    v.activeCell (takeC len cs) :: activeCellsOf vs (dropC len cs)

namespace InputView

/-- An input. -/
theorem foldl_input (env : Env) {v : AnnotatedCellInputVal} {cs : List Chunk} {evs : List Callback}
    (h : (MolSpec.annotatedCellInput annotatedCellInputCallbacks).Tr v cs evs) {x : InputView}
    (hfed : x.hash.contextFed = []) (hparts : x.parts = {}) :
    (evs.foldl (act env) x).cells = x.cells ++ [v.activeCell cs] ∧
      (evs.foldl (act env) x).parts = {} := by
  obtain ⟨-, -, e, hsource, rfl⟩ := events_annotatedCellInput h
  have hstart : (annotatedCellInputCallbacks.input.since v.2.1.1 ++
      annotatedCellInputCallbacks.input.previousOutput.index v.2.1.2.1.2.1).foldl (act env) x =
        { x with
          hash.fed := x.hash.fed ++ v.2.1.1
          hash.index := v.sourceIndex } := by
    change (x.act env (.blake2bChunk v.2.1.1)).act env (.inputSaveIndex v.2.1.2.1.2.1) = _
    rw [act_silent env (.blake2bChunk v.2.1.1) rfl nofun,
      act_silent env (.inputSaveIndex v.2.1.2.1.2.1) rfl nofun]
    rfl
  rw [List.foldl_append, hstart]
  exact foldl_source env hsource (x := { x with
    hash.fed := x.hash.fed ++ v.2.1.1
    hash.index := v.sourceIndex }) hfed hparts

/-- Inputs, one after the other. -/
theorem foldl_inputs (env : Env) {vs : List AnnotatedCellInputVal} {idx : UInt32} {cs : List Chunk}
    {evs : List Callback}
    (h : Spec.TrItems (MolSpec.annotatedCellInput annotatedCellInputCallbacks)
      [Callback.inputStart] (fun _ => []) idx vs cs evs) {x : InputView}
    (hfed : x.hash.contextFed = []) (hparts : x.parts = {}) :
    (evs.foldl (act env) x).cells = x.cells ++ activeCellsOf vs cs := by
  induction vs generalizing idx cs evs x with
  | nil =>
    obtain rfl : evs = [] := h
    rw [List.foldl_nil, activeCellsOf, List.append_nil]
  | cons v vs ih =>
    obtain ⟨e₁, e₂, h₁, h₂, rfl⟩ := h
    obtain ⟨hcells, hparts₁⟩ := foldl_input env h₁ hfed hparts
    -- the next input starts with a fresh context
    have hstart := act_silent env .inputStart rfl nofun (e₁.foldl (act env) x)
    have hnext := ih h₂ (x := (e₁.foldl (act env) x).act env .inputStart) rfl
      (by rw [hstart, hparts₁])
    rw [List.foldl_append, List.append_nil, List.foldl_append, List.foldl_cons, List.foldl_nil,
      hnext, hstart, hcells, activeCellsOf, List.append_assoc]
    rfl

end InputView

theorem map_index_activeCellsOf (vs : List AnnotatedCellInputVal) (cs : List Chunk) :
    (activeCellsOf vs cs).map ActiveCell.index = vs.map AnnotatedCellInputVal.sourceIndex := by
  induction vs generalizing cs with
  | nil => rfl
  | cons v vs ih =>
    rw [activeCellsOf, List.map_cons, List.map_cons, ih]
    rfl

/-- **The active cells.**  Of each input the callbacks have processed the output and the data that
its index says. -/
theorem Transcript.Cut.activeCells_eq {v : AnnotatedTransactionVal} {t : Transcript env P v}
    {cs : List Chunk} (h : t.Cut cs) (hok : t.spent.maybe.hardReject = false)
    {vs : List AnnotatedCellInputVal} (hvs : v.inputs = some vs) :
    t.activeCells =
      activeCellsOf vs (dropC (8 + 4 * (vs.length - 1)) (v.rawFieldPieces 3 cs)) := by
  obtain ⟨e, hinputs, hcalls⟩ := h.inputs
  rw [hvs] at hinputs
  obtain ⟨_, ⟨-, items, hitems, rfl⟩, rfl⟩ := hinputs
  have hfold := InputView.gatherActive_eq t.inputs.2 t.inputs.1.part hok ([], {})
  rw [Transcript.activeCells, hfold, hcalls]
  -- before the first input
  let opened : InputView := ⟨t.opened.hashView, t.opened.cellState.active, [], {}⟩
  let counted := ((opened.act env .inputsStart).act env .inputStart).act env
    (.blake2bInputCount (UInt32.ofNat vs.length))
  have hcounted : counted.hash.contextFed = [] ∧ counted.cells = [] ∧ counted.parts = {} := by
    simp only [counted]
    rw [InputView.act_silent env .inputsStart rfl nofun,
      InputView.act_silent env .inputStart rfl nofun,
      InputView.act_silent env (.blake2bInputCount (UInt32.ofNat vs.length)) rfl nofun]
    exact ⟨rfl, rfl, rfl⟩
  have hcells := InputView.foldl_inputs env hitems hcounted.1 hcounted.2.2
  rw [hcounted.2.1, List.nil_append] at hcells
  change ((items ++ [Callback.finishInputs]).foldl (InputView.act env) counted).cells = _
  rw [List.foldl_append, List.foldl_cons, List.foldl_nil,
    InputView.act_silent env .finishInputs rfl nofun]
  exact hcells

end LedgerNervos
