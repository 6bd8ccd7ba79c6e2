import LedgerNervos.Sign.Books

/-!
# The sources of the inputs

Whose cells the inputs refer to.  `Marks` is what the callbacks for the inputs note of it: the
lock argument of the last cell, how many times it has changed, which change led to an own cell,
and whether a cell with a multisig lock has been counted.  `InputNoted` says what an input changes
of it, given the lock argument that was found in its cell, and the calls that follow leave it
alone (`Transcript.noted`).
-/

namespace LedgerNervos

variable {env : Env} {P : NvramData → Prop} {g g' g₁ : SignState}

/-- What is noted about the sources of the inputs. -/
structure Marks where
  /-- The lock argument of the last cell. -/
  last : StandardLockArg
  /-- How many times the lock argument has changed. -/
  sources : UInt32
  /-- The number of the change that led to an own cell. -/
  signing : UInt64
  /-- A cell with a multisig lock has been counted. -/
  multisig : Bool

/-- A cell with the lock argument `h` is noted. -/
def Marks.note (m : Marks) (own : Bool) (h : StandardLockArg) : Marks :=
  { m with
    last := h
    sources := if m.last = h then m.sources else m.sources + 1
    signing := if m.last ≠ h ∧ own then (m.sources + 1).toUInt64 else m.signing }

def SignState.marks (g : SignState) : Marks where
  last := g.inp.lastInputLockArg
  sources := g.distinctInputSources
  signing := g.maybe.v.inputCount.1
  multisig := g.signingMultisigInput

/-- The cell that the input refers to has a multisig lock. -/
def AnnotatedCellInputVal.isMultisig (a : AnnotatedCellInputVal) : Bool :=
  a.cell.any CellOutputVal.isMultisig

/-- What the args of an own cell are compared with. -/
def SignState.ownWindow (g : SignState) : List UInt8 :=
  g.currentLockArg.1 ++ g.changeLockArg.1.take 8

/-! ### An input -/

/-- Taking an input, with the lock argument that is found in its cell. -/
structure InputNoted (g : SignState) (l : LockArg × AnnotatedCellInputVal) (g' : SignState) :
    Prop where
  lockArg : ∀ o ∈ l.2.cell, o.lock.args.length ≤ 28 → l.1 = Bytes.ofList 28 o.lock.args
  marks : g'.marks =
    { if l.2.cell.isSome then g.marks.note (l.2.isOwn g.ownWindow) (LockArg.hash l.1)
      else g.marks with
      multisig := g.marks.multisig || (l.2.isCounted && !l.2.isDao && l.2.isMultisig) }
  /-- The changes lead to an own cell only once. -/
  once : l.2.cell.isSome = true → l.2.isOwn g.ownWindow = true →
    g.marks.last ≠ LockArg.hash l.1 → g.marks.signing = 0
  owner : g'.daoCellOwner =
    if l.2.isCounted && l.2.isDao then LockArg.hash l.1 else g.daoCellOwner
  window : g'.ownWindow = g.ownWindow

theorem Idle.marks (h : Idle g g') : g'.marks = g.marks ∧ g'.lockArgTmp = g.lockArgTmp ∧
    g'.daoCellOwner = g.daoCellOwner ∧ g'.cellState.isMultisig = g.cellState.isMultisig := by
  obtain ⟨_, _, rfl⟩ := h
  exact ⟨rfl, rfl, rfl, rfl⟩

/-- The end of the lock script of a cell that counts. -/
theorem SignState.inputLockArgEnd_noted (hact : g.cellState.active = true)
    (hsafe : g.inputLockArgEnd.maybe.isUnsafe = false) :
    g.inputLockArgEnd.marks =
        g.marks.note (!g.cellState.lockArgNonequal) (LockArg.hash g.lockArgTmp) ∧
      (g.cellState.lockArgNonequal = false → g.marks.last ≠ LockArg.hash g.lockArgTmp →
        g.marks.signing = 0) ∧
      g.inputLockArgEnd.lockArgTmp = g.lockArgTmp ∧
      g.inputLockArgEnd.daoCellOwner = g.daoCellOwner := by
  unfold SignState.inputLockArgEnd at hsafe ⊢
  dsimp only at hsafe ⊢
  split_ifs at hsafe ⊢ with hinactive hnew hown hagain
  · exact absurd hinactive (not_inactive hact)
  · cases hsafe
  · refine ⟨?_, fun _ _ => not_not.1 hagain, rfl, rfl⟩
    simp [Marks.note, hnew, hown, SignState.marks]
  · refine ⟨?_, fun hequal => absurd hequal (by simpa using hown), rfl, rfl⟩
    simp [Marks.note, hnew, hown, SignState.marks]
  · refine ⟨?_, fun _ hbad => absurd hbad hnew, rfl, rfl⟩
    simp [Marks.note, not_not.1 hnew, SignState.marks]

/-- The cell that an input refers to has been read, and noted. -/
structure CellNoted (o : Option CellOutputVal) (g g' : SignState) : Prop where
  lockArg : ∀ s ∈ o, s.lock.args.length ≤ 28 → g'.lockArgTmp = Bytes.ofList 28 s.lock.args
  marks : g'.marks =
    if o.isSome then
      g.marks.note (!g'.cellState.lockArgNonequal) (LockArg.hash g'.lockArgTmp)
    else g.marks
  once : o.isSome = true → g'.cellState.lockArgNonequal = false →
    g.marks.last ≠ LockArg.hash g'.lockArgTmp → g.marks.signing = 0
  owner : g'.daoCellOwner = g.daoCellOwner

theorem Selected.cellNoted {o : Option CellOutputVal} (h : Selected (ReadCell P) o g g')
    (hsafe : g'.maybe.isUnsafe = false) : CellNoted o g g' := by
  cases o with
  | none =>
    obtain ⟨hmarks, -, howner, -⟩ := h.idle.marks
    exact ⟨nofun, hmarks, nofun, howner⟩
  | some s =>
    obtain ⟨g₁, g₂, before, active, taken, behind⟩ := h.taken
    obtain ⟨hmarks₁, -, howner₁, -⟩ := before.marks
    obtain ⟨hmarks₂, htmp₂, howner₂, -⟩ := behind.marks
    have hnonequal := behind.cellState.2.2.1
    rw [behind.maybe] at hsafe
    obtain ⟨c, tmp, ⟨hstate, -, htmp⟩, -, hfinish⟩ := taken
    generalize hs : ({ g₁ with
      cellState := c
      lockArgTmp := tmp
      lockArgCmp := .currentLockArg } : SignState) = s₁ at hfinish
    have hmarks₀ : s₁.marks = g.marks := by rw [← hmarks₁, ← hs]; rfl
    have howner₀ : s₁.daoCellOwner = g.daoCellOwner := by rw [← howner₁, ← hs]
    have htmp₀ : s₁.lockArgTmp = tmp := by rw [← hs]
    have hact₀ : s₁.cellState.active = true := by
      rw [← hs, hstate]
      exact active
    subst hfinish
    obtain ⟨hnoted, honce, htmp', howner'⟩ := SignState.inputLockArgEnd_noted hact₀ hsafe
    rw [cellState_inputLockArgEnd] at hnonequal
    rw [htmp', htmp₀] at htmp₂
    rw [hmarks₀, htmp₀] at hnoted honce
    refine ⟨fun s' hs' hlen => ?_, ?_, fun _ => ?_, ?_⟩
    · obtain rfl := Option.some.inj hs'
      rw [htmp₂]
      exact htmp hlen
    · rw [hmarks₂, hnoted, htmp₂, hnonequal]
      rfl
    · rw [htmp₂, hnonequal]
      exact honce
    · rw [howner₂, howner', howner₀]

/-- The cell that an input refers to is counted, if there are data for it. -/
theorem Selected.cellCounted {d : Option (List UInt8)} (h : Selected (CountCell P) d g g')
    (hsafe : g'.maybe.isUnsafe = false) :
    g'.marks = { g.marks with multisig := g.marks.multisig ||
        (d.isSome && !g.cellState.isDao && g.cellState.isMultisig) } ∧
      g'.daoCellOwner = if d.isSome && g.cellState.isDao then LockArg.hash g.lockArgTmp
        else g.daoCellOwner := by
  cases d with
  | none =>
    obtain ⟨hmarks, -, howner, -⟩ := h.idle.marks
    rw [hmarks, howner]
    simp
  | some d =>
    obtain ⟨g₁, g₂, before, active, taken, behind⟩ := h.taken
    obtain ⟨hmarks₁, htmp₁, howner₁, hmulti₁⟩ := before.marks
    obtain ⟨hmarks₂, -, howner₂, -⟩ := behind.marks
    have hdao₁ := before.cellState.2.1
    rw [behind.maybe] at hsafe
    rw [hmarks₂, howner₂, ← hmarks₁, ← howner₁, ← htmp₁, ← hdao₁,
      ← hmulti₁]
    obtain ⟨nd, -, rfl⟩ := taken
    have hact : (g₁.readData d).cellState.active = true := active
    cases hdao : g₁.cellState.isDao with
    | true =>
      obtain ⟨-, -, heq⟩ := finishInputCellData_dao hact hdao hsafe
      rw [heq]
      simp [SignState.marks, SignState.readData]
    | false =>
      obtain ⟨-, heq⟩ := finishInputCellData_plain hact hdao hsafe
      rw [heq]
      simp [SignState.marks, SignState.readData]

theorem Selected.safe {d : Option (List UInt8)} (h : Selected (CountCell P) d g g')
    (hsafe : g'.maybe.isUnsafe = false) : g.maybe.isUnsafe = false := by
  cases d with
  | none => rwa [h.idle.maybe] at hsafe
  | some d =>
    obtain ⟨g₁, g₂, before, -, ⟨nd, -, rfl⟩, behind⟩ := h.taken
    rw [behind.maybe] at hsafe
    rw [← before.maybe]
    exact (SignState.worsens_finishInputCellData nd (g₁.readData d)).safe hsafe

/-- **An input** is noted. -/
theorem TakeInputArgs.noted {l : LockArg × AnnotatedCellInputVal} (h : TakeInputArgs P g l g') :
    InputNoted g l g' := by
  have hbooks := h.take.effect.1.books
  have hwindow : g'.ownWindow = g.ownWindow := by
    rw [SignState.ownWindow, show g'.currentLockArg = g.currentLockArg from
      congrArg Books.own hbooks, show g'.changeLockArg = g.changeLockArg from
      congrArg Books.change hbooks]
    rfl
  obtain ⟨tmp, a⟩ := l
  obtain ⟨g₁, g₂, hread, rfl, hcount, hg'⟩ := h.taken
  have hmarks' : g'.marks = { g₂.marks with last := g₂.marks.last } := by rw [hg']; rfl
  have howner' : g'.daoCellOwner = g₂.daoCellOwner := by rw [hg']
  have hsafe₂ : g₂.maybe.isUnsafe = false := by
    have hsafe := h.safe
    rwa [hg'] at hsafe
  obtain ⟨hmarks₂, howner₂⟩ := hcount.cellCounted hsafe₂
  have hsafe₁ := hcount.safe hsafe₂
  have hseen := hread.cellSeen h.between.cellState hsafe₁
  have hnoted := hread.cellNoted hsafe₁
  have hown : (!g₁.cellState.lockArgNonequal) = a.isOwn g.ownWindow := by
    rw [Bool.eq_iff_iff, Bool.not_eq_true', hseen.nonequal, AnnotatedCellInputVal.isOwn,
      Option.all_eq_true]
    simp only [List.isPrefixOf_iff_prefix, Option.mem_def]
    rfl
  refine ⟨hnoted.lockArg, ?_, fun hsome hisOwn => ?_, ?_, hwindow⟩
  · rw [hmarks', hmarks₂, hnoted.marks, hown, hseen.isDao, hseen.isMultisig]
    split_ifs <;> rfl
  · rw [← hown, Bool.not_eq_true'] at hisOwn
    exact hnoted.once hsome hisOwn
  · rw [howner', howner₂, hseen.isDao, hnoted.owner]
    rfl

/-! ### Behind the inputs -/

theorem marks_outputEnd (h : g.outputEnd env = .ok g') : g'.marks = g.marks := by
  unfold SignState.outputEnd at h
  dsimp only at h
  split_ifs at h <;> cases h <;> rfl

theorem marks_outputsEnd (h : g.outputsEnd = .ok g') : g'.marks = g.marks := by
  unfold SignState.outputsEnd at h
  dsimp only at h
  split_ifs at h <;> cases h <;> rfl

theorem TakeOutput.marks {l : UInt32 × CellOutputVal} (h : TakeOutput env P g l g') :
    g'.marks = g.marks := by
  obtain ⟨⟨c, tmp, hread⟩, -⟩ := h
  exact (marks_outputEnd hread.finish).trans rfl

theorem TakeData.marks {l : UInt32 × List UInt8} (h : TakeData env P g l g') :
    g'.marks = g.marks := by
  obtain ⟨⟨nd, -, rfl⟩, -⟩ := h
  unfold SignState.finishOutputCellData SignState.chooseDao
  split_ifs <;> rfl

section Session

variable {v : AnnotatedTransactionVal} (t : Transcript env P v)

/-- The outputs and their data leave alone what has been noted. -/
theorem Transcript.marks_stored (hok : t.last.maybe.hardReject = false)
    (hsafe : t.last.maybe.isUnsafe = false) : t.stored.marks = t.spent.marks := by
  obtain ⟨g₁, g₂, houtputs, hlast, hend⟩ := t.takes_outputs hok hsafe
  obtain ⟨g₃, hdata, hlast'⟩ := t.takes_outputsData hok hsafe
  have hpaid : t.paid.marks = t.spent.marks := by
    have hmarks := (marks_outputsEnd hend).symm
    rcases hlast with rfl | ⟨n, rfl⟩
    · exact hmarks.symm.trans (houtputs.frame fun _ _ _ _ hstep => hstep.marks)
    · exact hmarks.symm.trans (houtputs.frame fun _ _ _ _ hstep => hstep.marks)
  have hstored : t.stored.marks = g₃.marks := by
    change t.stored.hashless.marks = g₃.marks
    rcases hlast' with h | ⟨n, h⟩
    · rw [h]
    · rw [h]
      rfl
  exact (hstored.trans (hdata.frame fun _ _ _ _ hstep => hstep.marks)).trans hpaid

/-- **The sources** of a session: its inputs, each with the lock argument that was found in its
cell and compared with the one before, and what is noted of them before the end of the raw
transaction. -/
theorem Transcript.noted (hok : t.last.maybe.hardReject = false)
    (hsafe : t.last.maybe.isUnsafe = false) :
    ∃ ls g₁, ls.map Prod.snd = v.inputs.getD [] ∧ Runs InputNoted t.opened.unspent ls g₁ ∧
      t.stored.marks = { g₁.marks with last := .zero 20 } ∧
      t.spent.daoCellOwner = g₁.daoCellOwner ∧ t.comparedKeys = inputKeys ls := by
  obtain ⟨ls, g₁, hls, hruns, hspent, hkeys⟩ := t.takes_inputs_args hok hsafe
  refine ⟨ls, g₁, hls, hruns.mono fun _ _ _ _ hstep => hstep.noted, ?_, ?_, hkeys⟩
  · rw [t.marks_stored hok hsafe]
    exact congrArg SignState.marks hspent
  · change t.spent.hashless.daoCellOwner = g₁.daoCellOwner
    rw [hspent]
    rfl

/-- A cell with a multisig lock is noticed when data come for it. -/
theorem Transcript.multisig_stored (hok : t.last.maybe.hardReject = false)
    (hsafe : t.last.maybe.isUnsafe = false) : t.stored.signingMultisigInput = true ↔
      ∃ a ∈ v.inputs.getD [], (a.isCounted && !a.isDao && a.isMultisig) = true := by
  obtain ⟨ls, g₁, hls, hruns, hstored, -⟩ := t.noted hok hsafe
  have hmulti : t.stored.signingMultisigInput = g₁.marks.multisig :=
    congrArg Marks.multisig hstored
  have hiff := hruns.iff_exists (I := fun _ => True) (p := fun s => s.marks.multisig = true)
    (q := fun l => (l.2.isCounted && !l.2.isDao && l.2.isMultisig) = true) trivial
    fun s l s' hstep _ => ⟨trivial, by rw [hstep.marks, ← Bool.or_eq_true]⟩
  have hopened : ¬ t.opened.unspent.marks.multisig = true := Bool.false_ne_true
  rw [hmulti, hiff, or_iff_right hopened, ← hls]
  constructor
  · rintro ⟨l, hl, hmultisig⟩
    exact ⟨l.2, List.mem_map_of_mem hl, hmultisig⟩
  · rintro ⟨a, ha, hmultisig⟩
    obtain ⟨l, hl, rfl⟩ := List.mem_map.1 ha
    exact ⟨l, hl, hmultisig⟩

end Session

end LedgerNervos
