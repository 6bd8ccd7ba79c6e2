import LedgerNervos.Sign.Ledger
import LedgerNervos.Sign.LockArg

/-!
# Reading a cell

The outputs of the transaction and the cells that its inputs refer to are read by the same
callbacks.  What they leave behind of an active cell is its capacity, its kind, and whether the
args of its lock script are those compared with (`CellRead`); under the strict settings they only
let pass the cells that the prompts can describe (`CellOutputVal.Standard`).
-/

namespace LedgerNervos

variable {env : Env} {P : NvramData → Prop} {g g' : SignState}

/-! ### What has been read of a cell -/

namespace ScriptVal

def codeHash (s : ScriptVal) : List UInt8 := s.2.1

def hashType (s : ScriptVal) : UInt8 := s.2.2.1

def args (s : ScriptVal) : List UInt8 := s.2.2.2.1

end ScriptVal

namespace CellOutputVal

def capacity (o : CellOutputVal) : UInt64 := UInt64.ofNat (leNat o.2.1)

def lock (o : CellOutputVal) : ScriptVal := o.2.2.1

def type_ (o : CellOutputVal) : Option ScriptVal := o.2.2.2.1

/-- The cell is a deposit, or a withdrawal that has been prepared. -/
def isDao (o : CellOutputVal) : Bool :=
  o.type_.any fun s => s.codeHash = daoTypeScriptHash

def isMultisig (o : CellOutputVal) : Bool := o.lock.codeHash = multisigLockScript

/-- A cell that the prompts can describe: a common lock, and no type but that of a deposit. -/
structure Standard (o : CellOutputVal) : Prop where
  lockCodeHash : o.lock.codeHash = defaultLockScript ∨ o.lock.codeHash = multisigLockScript
  lockHashType : o.lock.hashType = 1
  type_ : ∀ s, o.type_ = some s → s.codeHash = daoTypeScriptHash ∧ s.hashType = 1 ∧ s.args = []

end CellOutputVal

/-- Contract data is refused. -/
def Strict (P : NvramData → Prop) : Prop := ∀ nd, P nd → nd.contractDataType = .disallow

/-- What the calls for the cell `o`, with its lock argument compared with `w`, leave behind. -/
structure CellRead (w : List UInt8) (o : CellOutputVal) (c₀ c : CellState) (tmp : LockArg) :
    Prop where
  state : c = { c₀ with
    capacity := o.capacity
    isDao := o.isDao
    isMultisig := o.isMultisig
    lockArgIndex := c.lockArgIndex
    lockArgNonequal := c.lockArgNonequal }
  nonequal : c.lockArgNonequal = false ↔ o.lock.args <+: w
  tmp : o.lock.args.length ≤ 28 → tmp = Bytes.ofList 28 o.lock.args

/-! ### The single calls -/

theorem not_inactive (hact : g.cellState.active = true) : ¬ (!g.cellState.active) = true := by
  simp [hact]

theorem step_cellCapacity {bs : List UInt8} (hact : g.cellState.active = true)
    (h : g.Step env P (.cellCapacity bs) g') :
    g' = { g with cellState.capacity := UInt64.ofNat (leNat bs) } := by
  obtain ⟨nd, io, io', -, hd⟩ := h
  simp only [dispatch, SignState.cellCapacity, if_neg (not_inactive hact),
    Except.ok.injEq, Prod.mk.injEq] at hd
  exact hd.1.symm

theorem step_cellLockCodeHash {bs : List UInt8} (hact : g.cellState.active = true)
    (hmulti : g.cellState.isMultisig = false) (h : g.Step env P (.cellLockCodeHash bs) g')
    (hsafe : g'.maybe.isUnsafe = false) :
    g' = { g with cellState.isMultisig := decide (bs = multisigLockScript) } ∧
      (Strict P → bs = defaultLockScript ∨ bs = multisigLockScript) := by
  obtain ⟨nd, io, io', hnd, hd⟩ := h
  have hne : defaultLockScript ≠ multisigLockScript := by decide
  simp only [dispatch, SignState.cellLockCodeHash, if_neg (not_inactive hact),
    Except.ok.injEq, Prod.mk.injEq] at hd
  obtain ⟨rfl, -⟩ := hd
  split_ifs at hsafe ⊢ with hdefault hmultisig hstrict
  · rw [hdefault, decide_eq_false hne]
    exact ⟨rfl, fun _ => .inl rfl⟩
  · rw [hmultisig, decide_eq_true rfl]
    exact ⟨rfl, fun _ => .inr rfl⟩
  · cases hsafe
  · rw [decide_eq_false hmultisig, ← hmulti]
    exact ⟨rfl, fun hP => absurd (hP nd hnd) hstrict⟩

theorem step_cellScriptHashType {b : UInt8} (hact : g.cellState.active = true)
    (h : g.Step env P (.cellScriptHashType b) g') (hsafe : g'.maybe.isUnsafe = false) :
    g' = g ∧ (Strict P → b = 1) := by
  obtain ⟨nd, io, io', hnd, hd⟩ := h
  simp only [dispatch, SignState.cellScriptHashType, if_neg (not_inactive hact),
    Except.ok.injEq, Prod.mk.injEq] at hd
  obtain ⟨rfl, -⟩ := hd
  split_ifs at hsafe ⊢ with hbad
  · cases hsafe
  · refine ⟨rfl, fun hP => ?_⟩
    by_contra hne
    exact hbad ⟨hne, hP nd hnd⟩

theorem step_cellTypeCodeHash {bs : List UInt8} (hact : g.cellState.active = true)
    (hdao : g.cellState.isDao = false) (h : g.Step env P (.cellTypeCodeHash bs) g')
    (hsafe : g'.maybe.isUnsafe = false) :
    g' = { g with cellState.isDao := decide (bs = daoTypeScriptHash) } ∧
      (Strict P → bs = daoTypeScriptHash) := by
  obtain ⟨nd, io, io', hnd, hd⟩ := h
  simp only [dispatch, SignState.cellTypeCodeHash, if_neg (not_inactive hact),
    Except.ok.injEq, Prod.mk.injEq] at hd
  obtain ⟨rfl, -⟩ := hd
  split_ifs at hsafe ⊢ with htype hstrict
  · rw [decide_eq_true htype]
    exact ⟨rfl, fun _ => htype⟩
  · cases hsafe
  · rw [decide_eq_false htype, ← hdao]
    exact ⟨rfl, fun hP => absurd (hP nd hnd) hstrict⟩

theorem step_cellTypeArgLength {n : UInt32} (hact : g.cellState.active = true)
    (h : g.Step env P (.cellTypeArgLength n) g') (hsafe : g'.maybe.isUnsafe = false) :
    g' = g ∧ (Strict P → n = 4) := by
  obtain ⟨nd, io, io', hnd, hd⟩ := h
  simp only [dispatch, SignState.cellTypeArgLength, if_neg (not_inactive hact),
    Except.ok.injEq, Prod.mk.injEq] at hd
  obtain ⟨rfl, -⟩ := hd
  split_ifs at hsafe ⊢ with hdao hbad
  · cases hsafe
  · cases hsafe
  · refine ⟨rfl, fun hP => ?_⟩
    by_contra hne
    exact hbad ⟨hne, hP nd hnd⟩

/-! ### The lock argument -/

theorem Bytes.ofList_write {n : ℕ} {bs buf : List UInt8} (h : (bs ++ buf).length ≤ n) :
    (Bytes.ofList n bs).write bs.length buf = Bytes.ofList n (bs ++ buf) := by
  rw [List.length_append] at h
  apply Subtype.ext
  have htake : (bs ++ List.replicate (n - bs.length) (0 : UInt8)).take bs.length = bs :=
    List.take_left
  have hdrop : (bs ++ List.replicate (n - bs.length) (0 : UInt8)).drop (bs.length + buf.length) =
      List.replicate (n - (bs ++ buf).length) 0 := by
    rw [← List.drop_drop, List.drop_left, List.drop_replicate, List.length_append, Nat.sub_sub]
  simp only [Bytes.write, Bytes.ofList]
  rw [List.take_of_length_le (by omega : bs.length ≤ n), htake, hdrop,
    List.take_of_length_le (l := bs ++ buf) (by rw [List.length_append]; exact h),
    List.take_of_length_le]
  simp only [List.length_append, List.length_replicate]
  omega

/-- While the args of an active cell arrive: the comparison, and the copy that is made of them. -/
structure ReadingArgs (w bs : List UInt8) (g₀ g : SignState) : Prop where
  compared : ComparedArgs w bs g
  state : g = { g₀ with
    cellState.lockArgIndex := g.cellState.lockArgIndex
    cellState.lockArgNonequal := g.cellState.lockArgNonequal
    lockArgTmp := g.lockArgTmp }
  tmp : bs.length ≤ 28 →
    g.cellState.lockArgIndex = bs.length ∧ g.lockArgTmp = Bytes.ofList 28 bs

namespace ReadingArgs

variable {w bs : List UInt8} {g₀ : SignState}

theorem scriptArgChunk (h : ReadingArgs w bs g₀ g) (buf : List UInt8) :
    ReadingArgs w (bs ++ buf) g₀ (g.scriptArgChunk buf) := by
  have hcompared := h.compared.scriptArgChunk buf
  have hstate : g.scriptArgChunk buf = { g with
      cellState.lockArgIndex := (g.scriptArgChunk buf).cellState.lockArgIndex
      cellState.lockArgNonequal := (g.scriptArgChunk buf).cellState.lockArgNonequal
      lockArgTmp := (g.scriptArgChunk buf).lockArgTmp } := by
    unfold SignState.scriptArgChunk
    dsimp only
    split_ifs
    · rfl
    · rfl
    · split <;> rfl
  refine ⟨hcompared, ?_, fun hlen => ?_⟩
  · rw [hstate, h.state]
  · obtain ⟨hidx, htmp⟩ := h.tmp (by rw [List.length_append] at hlen; omega)
    rw [List.length_append] at hlen
    have hshort : ¬ 28 < g.cellState.lockArgIndex + buf.length := by omega
    have hnew : (g.scriptArgChunk buf).cellState.lockArgIndex =
        g.cellState.lockArgIndex + buf.length ∧
        (g.scriptArgChunk buf).lockArgTmp = g.lockArgTmp.write g.cellState.lockArgIndex buf := by
      simp only [SignState.scriptArgChunk, h.compared.active, Bool.not_true, Bool.false_eq_true,
        if_false, if_neg hshort]
      split <;> exact ⟨rfl, rfl⟩
    rw [hnew.1, hnew.2, hidx, htmp, List.length_append]
    exact ⟨rfl, Bytes.ofList_write (by rw [List.length_append]; exact hlen)⟩

theorem steps (h : ReadingArgs w bs g₀ g) {pieces : List Chunk}
    (hs : Steps env P g (pieces.flatMap fun c => [Callback.scriptArgChunk c.bytes]) g') :
    ReadingArgs w (bs ++ joined pieces) g₀ g' := by
  induction pieces generalizing g bs with
  | nil =>
    rw [Runs.nil_iff.1 hs, joined_nil, List.append_nil]
    exact h
  | cons c cs ih =>
    obtain ⟨g₁, ⟨_, _, _, _, hd⟩, hs'⟩ := Runs.cons_iff.1 hs
    simp only [dispatch, Except.ok.injEq, Prod.mk.injEq] at hd
    obtain ⟨rfl, -⟩ := hd
    have hrest := ih (h.scriptArgChunk c.bytes) hs'
    rwa [List.append_assoc] at hrest

end ReadingArgs

/-! ### Scripts -/

/-- The callbacks for the type script of a cell. -/
def typeCallbacks : ScriptCb Callback :=
  Callback.annotatedRawTransactionCallbacks.outputs.item.type_

/-- The calls for the type script of an active cell. -/
theorem steps_type {o : Option ScriptVal} {evs : List Callback}
    (hv : OptionEvents (ScriptEvents typeCallbacks) o evs) (hact : g.cellState.active = true)
    (hdao : g.cellState.isDao = false) (hs : Steps env P g evs g')
    (hsafe : g'.maybe.isUnsafe = false) :
    g' = { g with cellState.isDao := o.any fun s => s.codeHash = daoTypeScriptHash } ∧
      (Strict P → ∀ s, o = some s →
        s.codeHash = daoTypeScriptHash ∧ s.hashType = 1 ∧ s.args = []) := by
  cases o with
  | none =>
    obtain rfl : evs = [] := hv
    obtain rfl := Runs.nil_iff.1 hs
    rw [Option.any_none, ← hdao]
    exact ⟨rfl, fun _ => nofun⟩
  | some s =>
    obtain ⟨-, _, ⟨hlen, -, pieces, -, -, rfl⟩, rfl⟩ := hv
    have hnone : pieces.flatMap (fun _ => ([] : List Callback)) = [] :=
      List.flatMap_eq_nil_iff.2 fun _ _ => rfl
    simp only [typeCallbacks, Callback.annotatedRawTransactionCallbacks, List.append_nil, hnone,
      List.cons_append, List.nil_append] at hs
    obtain ⟨g₁, hcode, hs⟩ := Runs.cons_iff.1 hs
    obtain ⟨g₂, htype, hs⟩ := Runs.cons_iff.1 hs
    have hlength := Runs.single_iff.1 hs
    have hsafe₂ := hs.isUnsafe hsafe
    have hsafe₁ := (Runs.single_iff.2 htype).isUnsafe hsafe₂
    obtain ⟨rfl, hcodeHash⟩ := step_cellTypeCodeHash hact hdao hcode hsafe₁
    obtain ⟨rfl, hhashType⟩ := step_cellScriptHashType (by exact hact) htype hsafe₂
    obtain ⟨rfl, hargs⟩ := step_cellTypeArgLength (by exact hact) hlength hsafe
    refine ⟨rfl, fun hP s' hs' => ?_⟩
    obtain rfl := Option.some.inj hs'
    refine ⟨hcodeHash hP, hhashType hP, List.length_eq_zero_iff.1 ?_⟩
    have hfour := congrArg UInt32.toNat (hargs hP)
    simp only [UInt32.toNat_add, UInt32.toNat_ofNat', UInt32.reduceToNat] at hfour
    change s.args.length + 4 < 2 ^ 32 at hlen
    change (s.args.length % 2 ^ 32 + 4) % 2 ^ 32 = 4 at hfour
    omega

/-- What the calls for a lock script leave behind, and what they let pass. -/
structure LockRead (P : NvramData → Prop) (w : List UInt8) (s : ScriptVal) (g g' : SignState) :
    Prop where
  state : g' = { g with
    cellState.isMultisig := decide (s.codeHash = multisigLockScript)
    cellState.lockArgIndex := g'.cellState.lockArgIndex
    cellState.lockArgNonequal := g'.cellState.lockArgNonequal
    lockArgTmp := g'.lockArgTmp }
  nonequal : g'.cellState.lockArgNonequal = false ↔ s.args <+: w
  tmp : s.args.length ≤ 28 → g'.lockArgTmp = Bytes.ofList 28 s.args
  strict : Strict P →
    (s.codeHash = defaultLockScript ∨ s.codeHash = multisigLockScript) ∧ s.hashType = 1

/-- The calls for the lock script of an output. -/
theorem steps_outputLock {s : ScriptVal} {evs : List Callback}
    (hv : ScriptEvents outputLockCallbacks s evs) (hcell : g.cellState.active = true)
    (hmulti : g.cellState.isMultisig = false) (hidx : g.cellState.lockArgIndex = 0)
    (hequal : g.cellState.lockArgNonequal = false) (htmp : g.lockArgTmp = .zero 28)
    (hcmp : g.lockArgCmp = .changeLockArg) (hs : Steps env P g evs g')
    (hsafe : g'.maybe.isUnsafe = false) :
    LockRead P (g.changeLockArg.1 ++ g.daoCellOwner.1.take 8) s g g' := by
  obtain ⟨e, ⟨-, -, pieces, hjoin, -, rfl⟩, rfl⟩ := hv.events
  simp only [outputLockCallbacks, Callback.annotatedRawTransactionCallbacks, List.cons_append,
    List.nil_append, List.append_nil] at hs
  obtain ⟨g₁, hcode, hs⟩ := Runs.cons_iff.1 hs
  obtain ⟨g₂, htype, hchunks⟩ := Runs.cons_iff.1 hs
  have hsafe₂ := hchunks.isUnsafe hsafe
  have hsafe₁ := (Runs.single_iff.2 htype).isUnsafe hsafe₂
  obtain ⟨rfl, hcodeHash⟩ := step_cellLockCodeHash hcell hmulti hcode hsafe₁
  obtain ⟨rfl, hhashType⟩ := step_cellScriptHashType (by exact hcell) htype hsafe₂
  have hstart : ReadingArgs (g.changeLockArg.1 ++ g.daoCellOwner.1.take 8) []
      { g with cellState.isMultisig := decide (s.codeHash = multisigLockScript) }
      { g with cellState.isMultisig := decide (s.codeHash = multisigLockScript) } := by
    refine ⟨⟨hcell, ?_, fun _ => ⟨hidx, List.nil_prefix⟩, fun hne => ?_⟩, rfl,
      fun _ => ⟨hidx, htmp⟩⟩
    · change g.window g.lockArgCmp = _
      rw [hcmp]
      rfl
    · rw [show g.cellState.lockArgNonequal = true from hne] at hequal
      cases hequal
  have hread := hstart.steps hchunks
  rw [List.nil_append, hjoin] at hread
  exact ⟨hread.state, hread.compared.nonequal_iff, fun hlen => (hread.tmp hlen).2,
    fun hP => ⟨hcodeHash hP, hhashType hP⟩⟩

/-! ### Outputs -/

/-- An output is read: the calls for it, up to `output_end`, and that one. -/
structure OutputRead (env : Env) (P : NvramData → Prop) (o : CellOutputVal) (g g' : SignState)
    (c : CellState) (tmp : LockArg) : Prop where
  read : CellRead (g.changeLockArg.1 ++ g.daoCellOwner.1.take 8) o { active := true } c tmp
  strict : Strict P → o.Standard
  finish : { g with
    cellState := c
    lockArgTmp := tmp
    lockArgCmp := .changeLockArg }.outputEnd env = .ok g'

theorem steps_output {o : CellOutputVal} {evs : List Callback}
    (hv : CellOutputEvents Callback.annotatedRawTransactionCallbacks.outputs.item o evs)
    (hcell : g.cellState = { active := true }) (htmp : g.lockArgTmp = .zero 28)
    (hcmp : g.lockArgCmp = .changeLockArg) (hs : Steps env P g evs g')
    (hsafe : g'.maybe.isUnsafe = false) : ∃ c tmp, OutputRead env P o g g' c tmp := by
  obtain ⟨e₁, e₂, hlock, htype, rfl⟩ := hv.events
  obtain ⟨g₃, hs, hend⟩ := Runs.append_iff.1 hs
  obtain ⟨g₂, hs, htype₁⟩ := Runs.append_iff.1 hs
  obtain ⟨g₁, hcapacity, hlock₁⟩ := Runs.append_iff.1 hs
  have hsafe₃ := hend.isUnsafe hsafe
  have hsafe₂ := htype₁.isUnsafe hsafe₃
  have hact : g.cellState.active = true := by rw [hcell]
  obtain rfl := step_cellCapacity hact (Runs.single_iff.1 hcapacity)
  have hread := steps_outputLock hlock (by exact hact) (by simp [hcell]) (by simp [hcell])
    (by simp [hcell]) (by exact htmp) (by exact hcmp) hlock₁ hsafe₂
  have hact₂ : g₂.cellState.active = true := by
    rw [hread.state]
    exact hact
  have hdao₂ : g₂.cellState.isDao = false := by
    rw [hread.state]
    simp [hcell]
  obtain ⟨hstate, hstrict⟩ := steps_type htype hact₂ hdao₂ htype₁ hsafe₃
  refine ⟨g₃.cellState, g₃.lockArgTmp, ⟨?_, ?_, ?_⟩, fun hP => ⟨?_, ?_, hstrict hP⟩, ?_⟩
  · rw [hstate, hread.state, hcell]
    rfl
  · rw [hstate]
    exact hread.nonequal
  · rw [hstate]
    exact hread.tmp
  · exact (hread.strict hP).1
  · exact (hread.strict hP).2
  · have hsame : g₃ = { g with
        cellState := g₃.cellState
        lockArgTmp := g₃.lockArgTmp
        lockArgCmp := .changeLockArg } := by
      rw [hstate, hread.state, ← hcmp]
    obtain ⟨nd, io, io', -, hd⟩ := Runs.single_iff.1 hend
    simp only [dispatch, map_eq_ok_iff, Prod.mk.injEq] at hd
    obtain ⟨g₄, hd, rfl, -⟩ := hd
    rw [← hsame]
    exact hd

/-! ### Cells that an input refers to -/

theorem step_scriptArgStartInput (hact : g.cellState.active = true)
    (h : g.Step env P .scriptArgStartInput g') :
    g' = { g with
      cellState.lockArgIndex := 0
      cellState.lockArgNonequal := false
      lockArgCmp := .currentLockArg } := by
  obtain ⟨nd, io, io', -, hd⟩ := h
  simp only [dispatch, SignState.scriptArgStartInput, if_neg (not_inactive hact),
    Except.ok.injEq, Prod.mk.injEq] at hd
  exact hd.1.symm

/-- The calls for the lock script of a cell that an input refers to, up to `input_lock_arg_end`, and
that one. -/
theorem steps_inputLock {s : ScriptVal} {evs : List Callback}
    (hv : ScriptEvents inputLockCallbacks s evs) (hact : g.cellState.active = true)
    (hmulti : g.cellState.isMultisig = false) (htmp : g.lockArgTmp = .zero 28)
    (hs : Steps env P g evs g') (hsafe : g'.maybe.isUnsafe = false) :
    ∃ g₁, LockRead P (g.currentLockArg.1 ++ g.changeLockArg.1.take 8) s
      { g with lockArgCmp := .currentLockArg } g₁ ∧ g' = g₁.inputLockArgEnd := by
  obtain ⟨e, ⟨-, -, pieces, hjoin, -, rfl⟩, rfl⟩ := hv.events
  simp only [inputLockCallbacks, Callback.annotatedCellInputCallbacks, List.cons_append,
    List.nil_append, List.append_nil] at hs
  obtain ⟨g₁, hcode, hs⟩ := Runs.cons_iff.1 hs
  obtain ⟨g₂, htype, hs⟩ := Runs.cons_iff.1 hs
  obtain ⟨g₃, hbegin, hs⟩ := Runs.cons_iff.1 hs
  obtain ⟨g₄, hchunks, hend⟩ := Runs.append_iff.1 hs
  have hsafe₂ := hs.isUnsafe hsafe
  have hsafe₂ := (Runs.single_iff.2 hbegin).isUnsafe hsafe₂
  have hsafe₁ := (Runs.single_iff.2 htype).isUnsafe hsafe₂
  obtain ⟨rfl, hcodeHash⟩ := step_cellLockCodeHash hact hmulti hcode hsafe₁
  obtain ⟨rfl, hhashType⟩ := step_cellScriptHashType (by exact hact) htype hsafe₂
  obtain rfl := step_scriptArgStartInput (by exact hact) hbegin
  have hstart : ReadingArgs (g.currentLockArg.1 ++ g.changeLockArg.1.take 8) []
      { g with
        cellState.isMultisig := decide (s.codeHash = multisigLockScript)
        lockArgCmp := .currentLockArg }
      { g with
        cellState.isMultisig := decide (s.codeHash = multisigLockScript)
        cellState.lockArgIndex := 0
        cellState.lockArgNonequal := false
        lockArgCmp := .currentLockArg } :=
    ⟨⟨hact, rfl, fun _ => ⟨rfl, List.nil_prefix⟩, fun hne => by cases hne⟩, rfl,
      fun _ => ⟨rfl, htmp⟩⟩
  have hread := hstart.steps hchunks
  rw [List.nil_append, hjoin] at hread
  refine ⟨g₄, ⟨hread.state, hread.compared.nonequal_iff, fun hlen => (hread.tmp hlen).2,
    fun hP => ⟨hcodeHash hP, hhashType hP⟩⟩, ?_⟩
  obtain ⟨nd, io, io', -, hd⟩ := Runs.single_iff.1 hend
  simp only [dispatch, Except.ok.injEq, Prod.mk.injEq] at hd
  exact hd.1.symm

/-- The cell that an input refers to has been read. -/
structure InputRead (P : NvramData → Prop) (o : CellOutputVal) (g g' : SignState) (c : CellState)
    (tmp : LockArg) : Prop where
  read : CellRead (g.currentLockArg.1 ++ g.changeLockArg.1.take 8) o g.cellState c tmp
  strict : Strict P → o.Standard
  finish : g' = { g with
    cellState := c
    lockArgTmp := tmp
    lockArgCmp := .currentLockArg }.inputLockArgEnd

/-- The kind of the cell does not matter at the end of its lock script. -/
theorem inputLockArgEnd_isDao (g : SignState) (b : Bool) :
    { g.inputLockArgEnd with cellState.isDao := b } =
      ({ g with cellState.isDao := b } : SignState).inputLockArgEnd := by
  unfold SignState.inputLockArgEnd
  dsimp only
  split_ifs <;> rfl

theorem steps_inputCell {o : CellOutputVal} {evs : List Callback}
    (hv : CellOutputEvents Callback.annotatedCellInputCallbacks.source.outputs.item o evs)
    (hact : g.cellState.active = true) (hmulti : g.cellState.isMultisig = false)
    (hdao : g.cellState.isDao = false) (htmp : g.lockArgTmp = .zero 28)
    (hs : Steps env P g evs g') (hsafe : g'.maybe.isUnsafe = false) :
    ∃ c tmp, InputRead P o g g' c tmp := by
  obtain ⟨e₁, e₂, hlock, htype, rfl⟩ := hv.events
  rw [show Callback.annotatedCellInputCallbacks.source.outputs.item.finish = [] from rfl,
    List.append_nil] at hs
  obtain ⟨g₃, hs, htype₁⟩ := Runs.append_iff.1 hs
  obtain ⟨g₁, hcapacity, hlock₁⟩ := Runs.append_iff.1 hs
  have hsafe₃ := htype₁.isUnsafe hsafe
  obtain rfl := step_cellCapacity hact (Runs.single_iff.1 hcapacity)
  obtain ⟨g₂, hread, rfl⟩ := steps_inputLock hlock (by exact hact) (by exact hmulti)
    (by exact htmp) hlock₁ hsafe₃
  have hact₂ : g₂.inputLockArgEnd.cellState.active = true := by
    rw [cellState_inputLockArgEnd, hread.state]
    exact hact
  have hdao₂ : g₂.inputLockArgEnd.cellState.isDao = false := by
    rw [cellState_inputLockArgEnd, hread.state]
    exact hdao
  obtain ⟨hstate, hstrict⟩ := steps_type htype hact₂ hdao₂ htype₁ hsafe
  rw [inputLockArgEnd_isDao] at hstate
  refine ⟨{ g₂.cellState with isDao := o.isDao }, g₂.lockArgTmp,
    ⟨?_, hread.nonequal, hread.tmp⟩, fun hP => ⟨(hread.strict hP).1, (hread.strict hP).2,
      hstrict hP⟩, ?_⟩
  · rw [hread.state]
    rfl
  · rw [hstate]
    congr 1
    rw [hread.state]
    rfl

end LedgerNervos
