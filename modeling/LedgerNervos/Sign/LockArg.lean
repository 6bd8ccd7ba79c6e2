import LedgerNervos.Device.Reference
import LedgerNervos.Sign.Encoding
import LedgerNervos.Sign.Frame

/-!
# The comparison of lock arguments

While the args of a lock script arrive, `script_arg_chunk` compares them with the bytes in memory
from where `lock_arg_cmp` points.  It compares up to 28 bytes, which is 8 more than the lock
argument there has, and it never asks whether the args have ended too early.  So what it finds
out is whether the args are a prefix of these 28 bytes: `nonequal_iff` below.
-/

namespace LedgerNervos

variable {env : Env} {P : NvramData → Prop} {g g' : SignState} {w bs : List UInt8}

theorem SignState.length_window {which : LockArgCmp} (h : g.window which = some w) :
    w.length = 28 := by
  cases which <;> simp only [window, reduceCtorEq, Option.some.injEq] at h <;> subst h <;> simp

/-- Going on with a prefix is comparing what comes next. -/
theorem append_prefix_iff (h : bs <+: w) (buf : List UInt8) :
    bs ++ buf <+: w ↔ (w.drop bs.length).take buf.length = buf := by
  obtain ⟨t, rfl⟩ := h
  rw [List.prefix_append_right_inj, List.drop_left, List.prefix_iff_eq_take, eq_comm]

/-- The args of an active cell have been compared as far as `bs`, with the memory `w`. -/
structure ComparedArgs (w bs : List UInt8) (g : SignState) : Prop where
  active : g.cellState.active = true
  window : g.window g.lockArgCmp = some w
  equal : g.cellState.lockArgNonequal = false → g.cellState.lockArgIndex = bs.length ∧ bs <+: w
  nonequal : g.cellState.lockArgNonequal = true → ¬ bs <+: w

namespace ComparedArgs

/-- The comparison of the next piece. -/
theorem scriptArgChunk (h : ComparedArgs w bs g) (buf : List UInt8) :
    ComparedArgs w (bs ++ buf) (g.scriptArgChunk buf) := by
  have hw := SignState.length_window h.window
  have hmore (hn : ¬ bs <+: w) : ¬ bs ++ buf <+: w :=
    fun hp => hn ((List.prefix_append bs buf).trans hp)
  by_cases hlong : 28 < g.cellState.lockArgIndex + buf.length
  · have hg : g.scriptArgChunk buf = { g with cellState.lockArgNonequal := true } := by
      simp only [SignState.scriptArgChunk, h.active, Bool.not_true, Bool.false_eq_true, if_false,
        if_pos hlong]
    rw [hg]
    refine ⟨h.active, h.window, fun hf => absurd hf (by simp), fun _ => ?_⟩
    cases hne : g.cellState.lockArgNonequal with
    | true => exact hmore (h.nonequal hne)
    | false =>
      intro hp
      have := hp.length_le
      rw [List.length_append, ← (h.equal hne).1] at this
      omega
  · have hg : g.scriptArgChunk buf = { g with
        lockArgTmp := g.lockArgTmp.write g.cellState.lockArgIndex buf
        cellState.lockArgIndex := g.cellState.lockArgIndex + buf.length
        cellState.lockArgNonequal := g.cellState.lockArgNonequal ||
          (w.drop g.cellState.lockArgIndex).take buf.length != buf } := by
      have hwin := h.window
      simp only [SignState.scriptArgChunk, h.active, Bool.not_true, Bool.false_eq_true, if_false,
        if_neg hlong]
      split
      · rename_i hnone
        exact absurd (hwin.symm.trans hnone) (by simp)
      · rename_i bytes hsome
        obtain rfl : bytes = w := Option.some.inj (hsome.symm.trans hwin)
        rfl
    rw [hg]
    refine ⟨h.active, h.window, fun hf => ?_, fun ht => ?_⟩
    · simp only [Bool.or_eq_false_iff, bne_eq_false_iff_eq] at hf
      obtain ⟨hidx, hpre⟩ := h.equal hf.1
      rw [hidx] at hf
      exact ⟨by rw [hidx, List.length_append], (append_prefix_iff hpre buf).2 hf.2⟩
    · simp only [Bool.or_eq_true, bne_iff_ne] at ht
      cases hne : g.cellState.lockArgNonequal with
      | true => exact hmore (h.nonequal hne)
      | false =>
        obtain ⟨hidx, hpre⟩ := h.equal hne
        rw [hidx, hne] at ht
        rw [append_prefix_iff hpre]
        exact ht.resolve_left (by simp)

/-- The comparison of all pieces, however the args are cut. -/
theorem steps (h : ComparedArgs w bs g) {pieces : List Chunk}
    (hs : Steps env P g (pieces.flatMap fun c => [Callback.scriptArgChunk c.bytes]) g') :
    ComparedArgs w (bs ++ joined pieces) g' := by
  induction pieces generalizing g bs with
  | nil =>
    rw [Runs.nil_iff.1 hs]
    simpa using h
  | cons c cs ih =>
    obtain ⟨g₁, ⟨_, _, _, _, hd⟩, hs'⟩ := Runs.cons_iff.1 hs
    simp only [dispatch, Except.ok.injEq, Prod.mk.injEq] at hd
    obtain ⟨rfl, -⟩ := hd
    have := ih (h.scriptArgChunk c.bytes) hs'
    rwa [List.append_assoc] at this

/-- The calls before the args of a script, and after them, leave the comparison alone. -/
theorem step {e : Callback} (h : ComparedArgs w bs g) (hs : g.Step env P e g')
    (he : (∃ b, e = .cellLockCodeHash b) ∨ (∃ b, e = .cellScriptHashType b) ∨
      e = .inputLockArgEnd) : ComparedArgs w bs g' := by
  obtain ⟨nd, io, io', -, hd⟩ := hs
  rcases he with ⟨b, rfl⟩ | ⟨b, rfl⟩ | rfl <;>
    simp only [dispatch, Except.ok.injEq, Prod.mk.injEq] at hd <;> obtain ⟨rfl, -⟩ := hd
  · unfold SignState.cellLockCodeHash
    split_ifs <;> exact ⟨h.active, h.window, h.equal, h.nonequal⟩
  · unfold SignState.cellScriptHashType
    split_ifs <;> exact ⟨h.active, h.window, h.equal, h.nonequal⟩
  · unfold SignState.inputLockArgEnd
    dsimp only
    split_ifs <;> exact ⟨h.active, h.window, h.equal, h.nonequal⟩

/-- At the end, the args are taken for equal when they are a prefix of the memory. -/
theorem nonequal_iff (h : ComparedArgs w bs g) :
    g.cellState.lockArgNonequal = false ↔ bs <+: w := by
  constructor
  · intro hf
    exact (h.equal hf).2
  · intro hp
    cases hne : g.cellState.lockArgNonequal with
    | false => rfl
    | true => exact absurd hp (h.nonequal hne)

end ComparedArgs

/-- The args are taken for equal to the lock argument in front of the memory exactly if they are,
unless they are a prefix of the memory of another length. -/
theorem prefix_iff_eq_iff {a : StandardLockArg} {more args : List UInt8} :
    ((args <+: a.1 ++ more) ↔ args = a.1) ↔
      (args.length = 20 ∨ ¬ args <+: a.1 ++ more) := by
  have hlen (h : args = a.1) : args.length = 20 := by rw [h, Bytes.length]
  by_cases hp : args <+: a.1 ++ more
  · simp only [hp, true_iff, not_true_eq_false, or_false]
    constructor
    · exact hlen
    · intro h
      obtain ⟨t, ht⟩ := hp
      exact (List.append_inj ht (by rw [h, Bytes.length])).1
  · simp only [hp, false_iff, not_false_eq_true, or_true, iff_true]
    rintro rfl
    exact hp (List.prefix_append _ _)

/-! ### The lock script of a cell -/

/-- The callbacks for the lock script of a cell that an input refers to. -/
def inputLockCallbacks : ScriptCb Callback :=
  Callback.annotatedCellInputCallbacks.source.outputs.item.lock

/-- The callbacks for the lock script of an output. -/
def outputLockCallbacks : ScriptCb Callback :=
  Callback.annotatedRawTransactionCallbacks.outputs.item.lock

/-- The reader of a script reads its encoding to the end, whatever follows and however it is cut. -/
theorem run_script {ε : Type} {c : ScriptCb ε} (hc : c.args.Accepts) {s : Script}
    (hs : s.encode.length < 2 ^ 32) {size : UInt32} (hsize : SizeFor size s.encode.length)
    {cs : List Chunk} {tail : List UInt8} (hcs : joined cs = s.encode ++ tail) :
    ∃ evs rest, (MolReader.script c).run size cs = .done evs rest ∧ ScriptEvents c s.value evs := by
  have hne : cs ≠ [] := by
    rintro rfl
    have := congrArg List.length hcs
    have hpos := encodeParts_pos s.parts
    simp only [joined_nil, List.length_nil, List.length_append, Script.encode] at this
    omega
  have hrun := MolReader.script_lawful c size cs hne
  rw [hcs, reads_script c hc s hs hsize tail] at hrun
  cases hx : (MolReader.script c).run size cs with
  | done evs rest =>
    rw [hx] at hrun
    exact ⟨evs, rest, rfl, events_script hrun.2.2.2⟩
  | more _ => rw [hx] at hrun; cases hrun
  | fail _ => rw [hx] at hrun; cases hrun

/-- A run over the calls for the lock script of an input. -/
theorem comparedArgs_input (hact : g.cellState.active = true) {v : ScriptVal}
    {evs : List Callback} (hv : ScriptEvents inputLockCallbacks v evs)
    (hs : Steps env P g evs g') :
    ComparedArgs (g.currentLockArg.1 ++ g.changeLockArg.1.take 8) v.2.2.2.1 g' := by
  obtain ⟨e, ⟨-, -, pieces, hjoin, -, rfl⟩, rfl⟩ := hv.events
  simp only [inputLockCallbacks, Callback.annotatedCellInputCallbacks, List.cons_append,
    List.nil_append, List.append_nil, Runs.cons_iff] at hs
  obtain ⟨g₁, hstep₁, g₂, hstep₂, g₃, hstep₃, hs⟩ := hs
  have hkeep : g₂.cellState.active = true ∧ g₂.currentLockArg = g.currentLockArg ∧
      g₂.changeLockArg = g.changeLockArg := by
    obtain ⟨nd₁, io₁, _, -, hd₁⟩ := hstep₁
    obtain ⟨nd₂, io₂, _, -, hd₂⟩ := hstep₂
    simp only [dispatch, Except.ok.injEq, Prod.mk.injEq] at hd₁ hd₂
    obtain ⟨rfl, -⟩ := hd₁
    obtain ⟨rfl, -⟩ := hd₂
    have h₁ : (g.cellLockCodeHash nd₁ v.2.1).cellState.active = true ∧
        (g.cellLockCodeHash nd₁ v.2.1).currentLockArg = g.currentLockArg ∧
        (g.cellLockCodeHash nd₁ v.2.1).changeLockArg = g.changeLockArg := by
      unfold SignState.cellLockCodeHash
      split_ifs <;> exact ⟨hact, rfl, rfl⟩
    unfold SignState.cellScriptHashType
    split_ifs <;> exact h₁
  have hstart : ComparedArgs (g.currentLockArg.1 ++ g.changeLockArg.1.take 8) [] g₃ := by
    obtain ⟨_, _, _, -, hd⟩ := hstep₃
    simp only [dispatch, Except.ok.injEq, Prod.mk.injEq] at hd
    obtain ⟨rfl, -⟩ := hd
    obtain ⟨hact₂, hcur, hchange⟩ := hkeep
    simp only [SignState.scriptArgStartInput, hact₂, Bool.not_true, Bool.false_eq_true, if_false]
    exact ⟨rfl, by rw [← hcur, ← hchange]; rfl, fun _ => ⟨rfl, List.nil_prefix⟩,
      fun h => absurd h (by simp)⟩
  obtain ⟨g₄, hchunks, hend⟩ := Runs.append_iff.1 hs
  rw [Runs.single_iff] at hend
  have := (hstart.steps hchunks).step hend (.inr (.inr rfl))
  rwa [List.nil_append, hjoin] at this

/-- A run over the calls for the lock script of an output. -/
theorem comparedArgs_output {i : UInt32} {cap : List UInt8} {v : ScriptVal}
    {evs : List Callback} (hv : ScriptEvents outputLockCallbacks v evs)
    (hs : Steps env P ((g.outputStart i).cellCapacity cap) evs g') :
    ComparedArgs (g.changeLockArg.1 ++ g.daoCellOwner.1.take 8) v.2.2.2.1 g' := by
  obtain ⟨e, ⟨-, -, pieces, hjoin, -, rfl⟩, rfl⟩ := hv.events
  simp only [outputLockCallbacks, Callback.annotatedRawTransactionCallbacks, List.cons_append,
    List.nil_append, List.append_nil, Runs.cons_iff] at hs
  obtain ⟨g₁, hstep₁, g₂, hstep₂, hs⟩ := hs
  have hstart : ComparedArgs (g.changeLockArg.1 ++ g.daoCellOwner.1.take 8) []
      ((g.outputStart i).cellCapacity cap) :=
    ⟨rfl, rfl, fun _ => ⟨rfl, List.nil_prefix⟩, fun h => by cases h⟩
  have hbefore := (hstart.step hstep₁ (.inl ⟨_, rfl⟩)).step hstep₂ (.inr (.inl ⟨_, rfl⟩))
  have := hbefore.steps hs
  rwa [List.nil_append, hjoin] at this

/-- The calls for the lock script of a cell never throw. -/
theorem exists_steps_lock {v : ScriptVal} {cb : ScriptCb Callback} {evs : List Callback}
    (hcb : cb = inputLockCallbacks ∨ cb = outputLockCallbacks) (hv : ScriptEvents cb v evs)
    (g : SignState) : ∃ g', Steps env (fun _ => True) g evs g' := by
  have hpure (es : List Callback) (g : SignState)
      (hes : ∀ e ∈ es, ∀ g : SignState, ∃ g', g.Step env (fun _ => True) e g') :
      ∃ g', Steps env (fun _ => True) g es g' := by
    induction es generalizing g with
    | nil => exact ⟨g, .nil g⟩
    | cons e es ih =>
      obtain ⟨g₁, h₁⟩ := hes e (List.mem_cons_self ..) g
      obtain ⟨g', h'⟩ := ih g₁ fun e he => hes e (List.mem_cons_of_mem _ he)
      exact ⟨g', .cons h₁ h'⟩
  refine hpure evs g fun e he g => ?_
  obtain ⟨_, ⟨-, -, pieces, -, -, rfl⟩, rfl⟩ := hv.events
  rcases hcb with rfl | rfl
  · simp only [inputLockCallbacks, Callback.annotatedCellInputCallbacks, List.mem_append,
      List.mem_cons, List.not_mem_nil, List.mem_flatMap, or_false, false_or] at he
    rcases he with (((rfl | rfl) | rfl) | ⟨c, -, rfl⟩) | rfl <;>
      exact ⟨_, {}, [], [], trivial, rfl⟩
  · simp only [outputLockCallbacks, Callback.annotatedRawTransactionCallbacks, List.mem_append,
      List.mem_cons, List.not_mem_nil, List.mem_flatMap, or_false, false_or] at he
    rcases he with (rfl | rfl) | ⟨c, -, rfl⟩ <;> exact ⟨_, {}, [], [], trivial, rfl⟩

/-! ### Behind the lock script -/

theorem cellState_chooseDao (g : SignState) (tag : OperationTag) :
    (g.chooseDao tag).cellState = g.cellState := by
  unfold SignState.chooseDao
  split_ifs <;> rfl

theorem cellState_finishInputCellData (nd : NvramData) (g : SignState) :
    (g.finishInputCellData nd).cellState = g.cellState := by
  unfold SignState.finishInputCellData
  dsimp only
  split_ifs <;> first | rfl | exact cellState_chooseDao _ _

theorem cellState_finishOutputCellData (nd : NvramData) (g : SignState) :
    (g.finishOutputCellData nd).cellState = g.cellState := by
  unfold SignState.finishOutputCellData
  split_ifs <;> first | rfl | exact cellState_chooseDao _ _

theorem cellState_inputLockArgEnd (g : SignState) :
    g.inputLockArgEnd.cellState = g.cellState := by
  unfold SignState.inputLockArgEnd
  dsimp only
  split_ifs <;> rfl

theorem cellState_outputEnd (h : g.outputEnd env = .ok g') : g'.cellState = g.cellState := by
  unfold SignState.outputEnd at h
  dsimp only at h
  split_ifs at h <;> cases h <;> rfl

theorem cellState_outputsEnd (h : g.outputsEnd = .ok g') : g'.cellState = g.cellState := by
  unfold SignState.outputsEnd at h
  dsimp only at h
  split_ifs at h <;> cases h <;> rfl

theorem cellState_computeNewOffsetsToHash (g : SignState) (header : List UInt32) :
    (g.computeNewOffsetsToHash header).cellState = g.cellState := by
  have hfold (xs : List UInt32) (g : SignState) :
      (xs.foldl (fun g x => g.blake2bChunk (u32le x)) g).cellState = g.cellState := by
    induction xs generalizing g with
    | nil => rfl
    | cons x xs ih => exact ih _
  exact hfold _ g

theorem cellState_finalizeRawTransaction (g : SignState) :
    (g.finalizeRawTransaction env).cellState = g.cellState := by
  unfold SignState.finalizeRawTransaction
  dsimp only
  split <;> (try split_ifs) <;> rfl

/-- A call that may come between the lock script of a cell and the end of the cell: it begins no
cell, and args are only compared for cells that are not active. -/
def BehindLock (x : SignState × Callback) : Prop :=
  match x.2 with
  | .inputStart | .outputStart _ => False
  | .scriptArgStartInput | .scriptArgChunk _ => x.1.cellState.active = false
  | _ => True

/-- What has been found out about the args stays. -/
theorem SignState.Step.lockArgNonequal {e : Callback} (h : g.Step env P e g')
    (hbehind : BehindLock (g, e)) :
    g'.cellState.lockArgNonequal = g.cellState.lockArgNonequal := by
  by_cases hpart : e.part = .witnesses
  · have hsame := congrArg SignState.cellState (h.unwitnessed hpart)
    exact congrArg CellState.lockArgNonequal hsame
  obtain ⟨nd, io, io', -, h⟩ := h
  cases e <;> simp only [dispatch, Except.ok.injEq, Prod.mk.injEq] at h
  case inputStart => exact hbehind.elim
  case outputStart index => exact hbehind.elim
  case outputEnd =>
    cases ho : g.outputEnd env <;> rw [ho] at h <;> cases h
    rw [cellState_outputEnd ho]
  case outputsEnd =>
    cases ho : g.outputsEnd <;> rw [ho] at h <;> cases h
    rw [cellState_outputsEnd ho]
  case setSignPath =>
    cases hk : prepLockArg env g.tempKey <;> simp only [setSignPath, hk] at h <;> cases h
    rfl
  case setChangePath =>
    cases hk : prepLockArg env g.tempKey <;> simp only [setChangePath, hk] at h <;> cases h
    rfl
  case processWitness c => exact absurd rfl hpart
  all_goals obtain ⟨rfl, -⟩ := h
  case beginWitness index => exact absurd rfl hpart
  case hashWitnessLength size => exact absurd rfl hpart
  case processWitnessEnd => exact absurd rfl hpart
  case finalizeWitnesses => exact absurd rfl hpart
  case scriptArgStartInput =>
    have hin : g.cellState.active = false := hbehind
    rw [SignState.scriptArgStartInput, if_pos (by rw [hin, Bool.not_false])]
  case scriptArgChunk bs =>
    have hin : g.cellState.active = false := hbehind
    simp only [SignState.scriptArgChunk, hin, Bool.not_false, if_true]
  case inputLockArgEnd => rw [cellState_inputLockArgEnd]
  case finishInputCellData => rw [cellState_finishInputCellData]
  case finishOutputCellData => rw [cellState_finishOutputCellData]
  case computeNewOffsetsToHash header => rw [cellState_computeNewOffsetsToHash]
  case finalizeRawTransaction => rw [cellState_finalizeRawTransaction]
  all_goals
    try simp only [SignState.blake2bInputCount, SignState.initBip32, SignState.setCellDataSize,
      SignState.cellCapacity, SignState.cellLockCodeHash, SignState.cellScriptHashType,
      SignState.cellTypeCodeHash, SignState.cellTypeArgLength, SignState.checkCellDataDataChunk]
  all_goals try split_ifs
  all_goals rfl

theorem Visits.lockArgNonequal {tr : List (SignState × Callback)}
    (h : Visits (SignState.Step env P) g tr g') (hbehind : ∀ x ∈ tr, BehindLock x) :
    g'.cellState.lockArgNonequal = g.cellState.lockArgNonequal :=
  (h.invariant (I := fun s => s.cellState.lockArgNonequal = g.cellState.lockArgNonequal) rfl
    fun s e _ he hstep hs => (hstep.lockArgNonequal (hbehind (s, e) he)).trans hs).1

/-- What the end of an output counts as change: the capacity of a plain one, if its lock argument
is that of the change path.  Only then, and for a deposit with this lock argument, there is change
to be shown. -/
theorem outputEnd_counted (h : g.outputEnd env = .ok g') :
    g'.tx.changeAmount = g.tx.changeAmount + (if g.cellState.lockArgNonequal = false ∧
        g.cellState.isMultisig = false ∧ g.cellState.isDao = false then g.cellState.capacity
      else 0) ∧
    g'.maybe.v.flags.hasChangeAddress = (g.maybe.v.flags.hasChangeAddress ||
      (!g.cellState.lockArgNonequal && !g.cellState.isMultisig)) := by
  unfold SignState.outputEnd at h
  by_cases hdao : g.cellState.isDao = true
  · rw [if_pos hdao] at h
    dsimp only at h
    rw [if_neg (by simp [hdao]), UInt64.add_zero]
    by_cases hother : g.cellState.lockArgNonequal = true ∨ g.cellState.isMultisig = true
    · rw [if_pos hother] at h
      cases h
      refine ⟨rfl, ?_⟩
      rcases hother with hne | hmulti
      · simp [hne, SignState.reject]
      · simp [hmulti, SignState.reject]
    · rw [if_neg hother] at h
      cases h
      simp only [not_or, Bool.not_eq_true] at hother
      simp [hother.1, hother.2]
  · rw [if_neg hdao] at h
    by_cases hother : g.cellState.lockArgNonequal = true ∨ g.cellState.isMultisig = true
    · rw [if_pos hother] at h
      have hnot : (!g.cellState.lockArgNonequal && !g.cellState.isMultisig) = false := by
        rcases hother with hne | hmulti
        · rw [hne]
          rfl
        · rw [hmulti, Bool.not_true, Bool.and_false]
      rw [if_neg (by rintro ⟨hne, hmulti, -⟩; simp [hne, hmulti] at hother), UInt64.add_zero, hnot,
        Bool.or_false]
      dsimp only at h
      split_ifs at h <;> cases h <;> exact ⟨rfl, rfl⟩
    · rw [if_neg hother] at h
      cases h
      simp only [not_or, Bool.not_eq_true] at hother hdao
      simp [hother.1, hother.2, hdao]

theorem inputAmount_chooseDao (g : SignState) (tag : OperationTag) :
    (g.chooseDao tag).inputAmount = g.inputAmount := by
  unfold SignState.chooseDao
  split_ifs <;> rfl

/-- Plain input cells count as the signer's if their lock argument is the own one. -/
theorem finishInputCellData_own (nd : NvramData) (g : SignState) :
    (g.finishInputCellData nd).inputAmount.1 = g.inputAmount.1 +
      (if g.cellState.active = true ∧ g.cellState.lockArgNonequal = false ∧
          g.cellState.isDao = false ∧
          (g.cellState.dataSize = 0 ∨ nd.contractDataType ≠ .disallow) then g.cellState.capacity
        else 0) := by
  by_cases hcounts : g.cellState.active = true ∧ g.cellState.lockArgNonequal = false ∧
      g.cellState.isDao = false ∧ (g.cellState.dataSize = 0 ∨ nd.contractDataType ≠ .disallow)
  · rw [if_pos hcounts]
    obtain ⟨hact, hown, hplain, hdata⟩ := hcounts
    have hpass : ¬ (g.cellState.dataSize ≠ 0 ∧ nd.contractDataType = .disallow) :=
      fun h => hdata.elim h.1 fun hne => hne h.2
    simp only [SignState.finishInputCellData, hact, hplain, hown, if_neg hpass, Bool.not_true,
      Bool.not_false, Bool.false_eq_true, if_false, if_true]
  · rw [if_neg hcounts, UInt64.add_zero]
    unfold SignState.finishInputCellData
    by_cases hact : (!g.cellState.active) = true
    · rw [if_pos hact]
    rw [if_neg hact]
    by_cases hdao : g.cellState.isDao = true
    · rw [if_pos hdao]
      dsimp only
      split_ifs
      · rfl
      · rw [inputAmount_chooseDao]
      · rw [inputAmount_chooseDao]
    rw [if_neg hdao]
    by_cases hdata : g.cellState.dataSize ≠ 0 ∧ nd.contractDataType = .disallow
    · rw [if_pos hdata]
      rfl
    rw [if_neg hdata]
    -- the cell is counted, and it is not the signer's
    have hother : ¬ (!g.cellState.lockArgNonequal) = true := by
      intro hown
      rw [Bool.not_eq_true', Bool.not_eq_false] at hact
      rw [Bool.not_eq_true'] at hown
      refine hcounts ⟨hact, hown, Bool.not_eq_true _ ▸ hdao, ?_⟩
      by_cases hsize : g.cellState.dataSize = 0
      · exact .inl hsize
      · exact .inr fun hnd => hdata ⟨hsize, hnd⟩
    exact if_neg hother

/-- However the calls go on behind the lock script of an input, its cell counts as the signer's only
if its args are `own`; and if they are, it does when it is a plain cell that passes. -/
def OwnInputExact (env : Env) (args : List UInt8) (own : StandardLockArg) (g : SignState) : Prop :=
  ∀ tr g₁ nd, Visits (SignState.Step env fun _ => True) g tr g₁ → (∀ x ∈ tr, BehindLock x) →
    (g₁.finishInputCellData nd).inputAmount.1 = g₁.inputAmount.1 +
      if g₁.cellState.active = true ∧ args = own.1 ∧ g₁.cellState.isDao = false ∧
          (g₁.cellState.dataSize = 0 ∨ nd.contractDataType ≠ .disallow) then
        g₁.cellState.capacity
      else 0

/-- However the calls go on behind the lock script of an output, the output is change only if its
args are `own`; and if they are, it is when it is a plain one with a single signer. -/
def ChangeExact (env : Env) (args : List UInt8) (own : StandardLockArg) (g : SignState) : Prop :=
  ∀ tr g₁ g₂, Visits (SignState.Step env fun _ => True) g tr g₁ → (∀ x ∈ tr, BehindLock x) →
    g₁.outputEnd env = .ok g₂ →
    g₂.tx.changeAmount = g₁.tx.changeAmount + (if args = own.1 ∧
        g₁.cellState.isMultisig = false ∧ g₁.cellState.isDao = false then g₁.cellState.capacity
      else 0) ∧
    g₂.maybe.v.flags.hasChangeAddress = (g₁.maybe.v.flags.hasChangeAddress ||
      decide (args = own.1) && !g₁.cellState.isMultisig)

theorem OwnInputExact.of_flag {args : List UInt8} {own : StandardLockArg}
    (h : g.cellState.lockArgNonequal = false ↔ args = own.1) : OwnInputExact env args own g := by
  intro tr g₁ nd hvisits hbehind
  rw [← hvisits.lockArgNonequal hbehind] at h
  simp only [finishInputCellData_own, h]

theorem ChangeExact.of_flag {args : List UInt8} {own : StandardLockArg}
    (h : g.cellState.lockArgNonequal = false ↔ args = own.1) : ChangeExact env args own g := by
  intro tr g₁ g₂ hvisits hbehind hend
  rw [← hvisits.lockArgNonequal hbehind] at h
  have hflag : (!g₁.cellState.lockArgNonequal) = decide (args = own.1) := by
    by_cases hargs : args = own.1
    · rw [h.2 hargs, decide_eq_true hargs, Bool.not_false]
    · rw [decide_eq_false hargs, Bool.not_eq_false']
      simpa using mt h.1 hargs
  obtain ⟨hamount, hshown⟩ := outputEnd_counted hend
  rw [hamount, hshown, hflag]
  simp only [h, true_and]

/-- **Recognising the own lock argument.**  For every lock script, however it is cut: after its
cell has been read, the args are taken for equal to the lock argument they are compared with
exactly if they are, and by this alone the cell counts as the signer's, or as change, unless the
args are a prefix of the 28 bytes of memory from there on whose length is not 20. -/
theorem lockArgNonequal_iff (env : Env) (s : Script) (hs : s.encode.length < 2 ^ 32)
    (size : UInt32) (hsize : SizeFor size s.encode.length) (cs : List Chunk) (tail : List UInt8)
    (hcs : joined cs = s.encode ++ tail) (g : SignState) :
    (g.cellState.active = true →
      ∃ evs rest, (MolReader.script inputLockCallbacks).run size cs = .done evs rest ∧
        (∃ g', Steps env (fun _ => True) g evs g') ∧
        ∀ g', Steps env (fun _ => True) g evs g' →
          (((g'.cellState.lockArgNonequal = false ↔ s.args = g.currentLockArg.1) ∧
              OwnInputExact env s.args g.currentLockArg g') ↔
            (s.args.length = 20 ∨
              ¬ s.args <+: g.currentLockArg.1 ++ g.changeLockArg.1.take 8))) ∧
    ∀ i cap, ∃ evs rest,
      (MolReader.script outputLockCallbacks).run size cs = .done evs rest ∧
        (∃ g', Steps env (fun _ => True) ((g.outputStart i).cellCapacity cap) evs g') ∧
        ∀ g', Steps env (fun _ => True) ((g.outputStart i).cellCapacity cap) evs g' →
          (((g'.cellState.lockArgNonequal = false ↔ s.args = g.changeLockArg.1) ∧
              ChangeExact env s.args g.changeLockArg g') ↔
            (s.args.length = 20 ∨
              ¬ s.args <+: g.changeLockArg.1 ++ g.daoCellOwner.1.take 8)) := by
  constructor
  · intro hact
    obtain ⟨evs, rest, hrun, hv⟩ :=
      run_script (c := inputLockCallbacks) (fun _ _ => rfl) hs hsize hcs
    refine ⟨evs, rest, hrun, exists_steps_lock (.inl rfl) hv g, fun g' hg' => ?_⟩
    rw [and_iff_left_of_imp OwnInputExact.of_flag, (comparedArgs_input hact hv hg').nonequal_iff]
    exact prefix_iff_eq_iff
  · intro i cap
    obtain ⟨evs, rest, hrun, hv⟩ :=
      run_script (c := outputLockCallbacks) (fun _ _ => rfl) hs hsize hcs
    refine ⟨evs, rest, hrun, exists_steps_lock (.inr rfl) hv _, fun g' hg' => ?_⟩
    rw [and_iff_left_of_imp ChangeExact.of_flag, (comparedArgs_output hv hg').nonequal_iff]
    exact prefix_iff_eq_iff

/-- An ordinary lock script with the args that `lockArgNonequal_iff_own` compares with. -/
def ownLock : Script := ⟨⟨defaultLockScript, length_defaultLockScript⟩, 1, List.replicate 20 7⟩

/-- An ordinary lock script without args. -/
def emptyLock : Script := ⟨⟨defaultLockScript, length_defaultLockScript⟩, 1, []⟩

/-- A state with the lock argument of `ownLock`. -/
def ownState : SignState := { changeLockArg := ⟨List.replicate 20 7, by decide⟩ }

theorem lockArgNonequal_iff_own :
    ∃ evs rest, (MolReader.script outputLockCallbacks).run molNumMax [⟨5, ownLock.encode⟩] =
        .done evs rest ∧
      ∀ g', Steps Env.reference (fun _ => True)
          ((ownState.outputStart 0).cellCapacity (u64le 1000)) evs g' →
        (g'.cellState.lockArgNonequal = false ↔ ownLock.args = ownState.changeLockArg.1) ∧
          ChangeExact Env.reference ownLock.args ownState.changeLockArg g' := by
  obtain ⟨evs, rest, hrun, -, hiff⟩ := (lockArgNonequal_iff Env.reference ownLock (by decide)
    molNumMax (.max _) [⟨5, ownLock.encode⟩] [] (by simp) ownState).2 0 (u64le 1000)
  exact ⟨evs, rest, hrun, fun g' hg' => (hiff g' hg').2 (.inl (by decide))⟩

/-- An output without lock args is taken for change. -/
theorem empty_args_taken_for_change :
    ∃ evs rest g₁ g₂, (MolReader.script outputLockCallbacks).run molNumMax
        [⟨5, emptyLock.encode⟩] = .done evs rest ∧
      runCallbacks Env.reference {} evs
        ((ownState.outputStart 0).cellCapacity (u64le 1000), []) = .ok (g₁, []) ∧
      g₁.cellState.lockArgNonequal = false ∧ emptyLock.args ≠ ownState.changeLockArg.1 ∧
      g₁.outputEnd Env.reference = .ok g₂ ∧ g₂.tx.changeAmount = 1000 :=
  ⟨_, _, _, _, rfl, rfl, rfl, by decide, rfl, by decide⟩

end LedgerNervos
