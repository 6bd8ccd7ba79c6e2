import LedgerNervos.Sign.Tally

/-!
# The books

What the screens are made from, and what it is computed from, without what the callbacks need
while they read a cell: `Books` is the abstract state of the ledger.  `InputTaken`, `OutputTaken`
and `DataTaken` say what taking an input, an output or the data of an output changes in the books,
when the transaction is not refused, and the runs of `LedgerNervos.Sign.Tally` are runs of them.
-/

namespace LedgerNervos

variable {env : Env} {P : NvramData → Prop} {g g' g₁ : SignState}

/-- The abstract state of the ledger. -/
structure Books where
  /-- The own lock argument. -/
  own : StandardLockArg
  /-- The lock argument of the change. -/
  change : StandardLockArg
  /-- The owner of the last deposit. -/
  owner : StandardLockArg
  /-- What comes from deposits. -/
  daoInput : UInt64
  /-- What comes from own cells that are no deposits. -/
  ownInput : UInt64
  /-- What comes from cells that are no deposits. -/
  plainInput : UInt64
  tag : OperationTag
  contractType : ContractType
  flags : Flags
  /-- What goes to others. -/
  plainOutput : UInt64
  /-- What goes back. -/
  changeOutput : UInt64
  /-- What goes into deposits. -/
  daoOutput : UInt64
  /-- The outputs that are deposits. -/
  daoBitmask : UInt64
  outputs : List Output
  outputCount : ℕ
  isSelfTransfer : Bool

def SignState.books (g : SignState) : Books where
  own := g.currentLockArg
  change := g.changeLockArg
  owner := g.daoCellOwner
  daoInput := g.daoInputAmount
  ownInput := g.inputAmount.1
  plainInput := g.inputAmount.2
  tag := g.maybe.v.tag
  contractType := g.maybe.v.contractType
  flags := g.maybe.v.flags
  plainOutput := g.tx.plainOutputAmount
  changeOutput := g.tx.changeAmount
  daoOutput := g.tx.daoOutputAmount
  daoBitmask := g.tx.daoBitmask
  outputs := g.tx.outputs
  outputCount := g.tx.outputCount
  isSelfTransfer := g.tx.isSelfTransfer

/-! ### The last callbacks of a cell -/

/-- An operation is chosen. -/
theorem chooseDao_eq {tag : OperationTag} (h : (g.chooseDao tag).maybe.isUnsafe = false) :
    g.chooseDao tag = g.setTag tag ∧ (g.maybe.v.tag = tag ∨ g.maybe.v.tag = .notSet) := by
  unfold SignState.chooseDao at h ⊢
  split_ifs at h ⊢ with hother
  · cases h
  · refine ⟨rfl, ?_⟩
    by_cases htag : g.maybe.v.tag = tag
    · exact .inl htag
    · exact .inr (by by_contra hset; exact hother ⟨htag, hset⟩)

/-- The operation that an input with a deposit stands for. -/
def withdrawalTag (nonzero : Bool) : OperationTag := if nonzero then .daoWithdraw else .daoPrepare

/-- A deposit that an input refers to is counted. -/
theorem finishInputCellData_dao {nd : NvramData} (hact : g.cellState.active = true)
    (hdao : g.cellState.isDao = true)
    (hsafe : (g.finishInputCellData nd).maybe.isUnsafe = false) :
    g.cellState.dataSize = 8 ∧
      (g.maybe.v.tag = withdrawalTag g.cellState.daoDataIsNonzero ∨ g.maybe.v.tag = .notSet) ∧
      g.finishInputCellData nd = { g with
        daoCellOwner := LockArg.hash g.lockArgTmp
        daoInputAmount := g.daoInputAmount + g.cellState.capacity
        maybe.v.tag := withdrawalTag g.cellState.daoDataIsNonzero } := by
  simp only [SignState.finishInputCellData, if_neg (not_inactive hact), if_pos hdao]
    at hsafe ⊢
  by_cases hsize : g.cellState.dataSize = 8
  · rw [if_neg (not_not_intro hsize)] at hsafe ⊢
    cases hnonzero : g.cellState.daoDataIsNonzero with
    | true =>
      rw [hnonzero, if_pos rfl] at hsafe
      obtain ⟨heq, htag⟩ := chooseDao_eq hsafe
      exact ⟨hsize, htag, by rw [if_pos rfl]; exact heq⟩
    | false =>
      rw [hnonzero, if_neg Bool.false_ne_true] at hsafe
      obtain ⟨heq, htag⟩ := chooseDao_eq hsafe
      exact ⟨hsize, htag, by rw [if_neg Bool.false_ne_true]; exact heq⟩
  · rw [if_pos hsize] at hsafe
    cases hsafe

/-- Another cell that an input refers to is counted. -/
theorem finishInputCellData_plain {nd : NvramData} (hact : g.cellState.active = true)
    (hdao : g.cellState.isDao = false)
    (hsafe : (g.finishInputCellData nd).maybe.isUnsafe = false) :
    (g.cellState.dataSize ≠ 0 → nd.contractDataType ≠ .disallow) ∧
      g.finishInputCellData nd = { g with
        maybe.v.contractType :=
          if 0 < g.cellState.dataSize then .unknown else g.maybe.v.contractType
        inputAmount :=
          (if !g.cellState.lockArgNonequal then g.inputAmount.1 + g.cellState.capacity
            else g.inputAmount.1,
          g.inputAmount.2 + g.cellState.capacity)
        signingMultisigInput := g.signingMultisigInput || g.cellState.isMultisig } := by
  have hplain : ¬ g.cellState.isDao = true := by rw [hdao]; exact Bool.false_ne_true
  simp only [SignState.finishInputCellData, if_neg (not_inactive hact), if_neg hplain]
    at hsafe ⊢
  by_cases hbad : g.cellState.dataSize ≠ 0 ∧ nd.contractDataType = .disallow
  · rw [if_pos hbad] at hsafe
    cases hsafe
  · rw [if_neg hbad]
    exact ⟨fun hsize hnd => hbad ⟨hsize, hnd⟩, rfl⟩

/-- The comparison of the lock argument with the last one. -/
theorem inputLockArgEnd_eq (hsafe : g.inputLockArgEnd.maybe.isUnsafe = false) :
    ∃ last n k, g.inputLockArgEnd = { g with
      inp.lastInputLockArg := last
      distinctInputSources := n
      maybe.v.inputCount := k } := by
  unfold SignState.inputLockArgEnd at hsafe ⊢
  dsimp only at hsafe ⊢
  split_ifs at hsafe ⊢
  · exact ⟨_, _, _, rfl⟩
  · cases hsafe
  · exact ⟨_, _, _, rfl⟩
  · exact ⟨_, _, _, rfl⟩
  · exact ⟨_, _, _, rfl⟩

/-! ### Inputs -/

/-- The cell that an input refers to, if there is one, has been read. -/
structure CellSeen (P : NvramData → Prop) (w : List UInt8) (o : Option CellOutputVal)
    (g g' : SignState) : Prop where
  state : ∃ c tmp cmp last n k, g' = { g with
    cellState := c
    lockArgTmp := tmp
    lockArgCmp := cmp
    inp.lastInputLockArg := last
    distinctInputSources := n
    maybe.v.inputCount := k }
  capacity : g'.cellState.capacity = (o.map CellOutputVal.capacity).getD 0
  isDao : g'.cellState.isDao = o.any CellOutputVal.isDao
  isMultisig : g'.cellState.isMultisig = o.any CellOutputVal.isMultisig
  nonequal : g'.cellState.lockArgNonequal = false ↔ ∀ s ∈ o, s.lock.args <+: w
  nonzero : g'.cellState.daoDataIsNonzero = false
  strict : Strict P → ∀ s ∈ o, s.Standard

theorem Selected.cellSeen {o : Option CellOutputVal} (h : Selected (ReadCell P) o g g')
    (hg : g.cellState = {}) (hsafe : g'.maybe.isUnsafe = false) :
    CellSeen P (g.currentLockArg.1 ++ g.changeLockArg.1.take 8) o g g' := by
  cases h with
  | nothing idle =>
    obtain ⟨_, _, rfl⟩ := idle
    exact ⟨⟨_, _, _, _, _, _, rfl⟩, by rw [hg]; rfl, by rw [hg]; rfl, by rw [hg]; rfl,
      by simp [hg], by rw [hg], fun _ => nofun⟩
  | item before active taken behind =>
    obtain ⟨_, _, rfl⟩ := before
    obtain ⟨_, _, rfl⟩ := behind
    obtain ⟨c, tmp, ⟨hstate, hnonequal, -⟩, hstrict, rfl⟩ := taken
    obtain ⟨last, n, k, hend⟩ := inputLockArgEnd_eq (by exact hsafe)
    rw [hend]
    refine ⟨⟨_, _, _, _, _, _, rfl⟩, ?_, ?_, ?_, ?_, ?_, fun hP s hs => ?_⟩
    · rw [hstate]
      rfl
    · rw [hstate]
      rfl
    · rw [hstate]
      rfl
    · simpa using hnonequal
    · rw [hstate, hg]
    · obtain rfl := Option.some.inj hs
      exact hstrict hP

namespace AnnotatedCellInputVal

/-- The capacity of the cell that the input refers to. -/
def capacity (a : AnnotatedCellInputVal) : UInt64 := (a.cell.map CellOutputVal.capacity).getD 0

/-- The input refers to a deposit. -/
def isDao (a : AnnotatedCellInputVal) : Bool := a.cell.any CellOutputVal.isDao

/-- The args of the lock script of the cell are found at the start of `w`. -/
def isOwn (w : List UInt8) (a : AnnotatedCellInputVal) : Bool :=
  a.cell.all fun o => o.lock.args.isPrefixOf w

/-- The cell is counted: there are data for it. -/
def isCounted (a : AnnotatedCellInputVal) : Bool := a.data.isSome

/-- There are data that are not empty. -/
def hasData (a : AnnotatedCellInputVal) : Bool := a.data.any fun d => d ≠ []

/-- There are data that are not zero. -/
def hasNonzeroData (a : AnnotatedCellInputVal) : Bool := a.data.any fun d => d.any (· ≠ 0)

end AnnotatedCellInputVal

/-- Taking an input. -/
structure InputTaken (b : Books) (a : AnnotatedCellInputVal) (b' : Books) : Prop where
  books : b' = { b with
    owner := b'.owner
    daoInput := b.daoInput + if a.isCounted && a.isDao then a.capacity else 0
    ownInput := b.ownInput +
      if a.isCounted && !a.isDao && a.isOwn (b.own.1 ++ b.change.1.take 8) then a.capacity else 0
    plainInput := b.plainInput + if a.isCounted && !a.isDao then a.capacity else 0
    tag := if a.isCounted && a.isDao then withdrawalTag a.hasNonzeroData else b.tag
    contractType := if a.hasData && !a.isDao then .unknown else b.contractType }
  tag : (a.isCounted && a.isDao) = true →
    b.tag = withdrawalTag a.hasNonzeroData ∨ b.tag = .notSet

/-- The books do not tell idle states apart. -/
theorem Idle.books (h : Idle g g') : g'.books = g.books := by
  obtain ⟨_, _, rfl⟩ := h
  rfl

theorem Idle.maybe (h : Idle g g') : g'.maybe = g.maybe := by
  obtain ⟨_, _, rfl⟩ := h
  rfl

theorem Idle.cellState (h : Idle g g') :
    g'.cellState.capacity = g.cellState.capacity ∧ g'.cellState.isDao = g.cellState.isDao ∧
      g'.cellState.lockArgNonequal = g.cellState.lockArgNonequal ∧
      g'.cellState.daoDataIsNonzero = g.cellState.daoDataIsNonzero := by
  obtain ⟨_, _, rfl⟩ := h
  exact ⟨rfl, rfl, rfl, rfl⟩

theorem CellSeen.books {w : List UInt8} {o : Option CellOutputVal} (h : CellSeen P w o g g') :
    g'.books = g.books := by
  obtain ⟨c, tmp, cmp, last, n, k, rfl⟩ := h.state
  rfl

theorem min_fifteen_eq_eight {n : ℕ} (h : min 15 n = 8) : n = 8 := by omega

/-- The cell of an input that has been read is counted. -/
theorem CountCell.effect {a : AnnotatedCellInputVal} {d : List UInt8} (h : CountCell P d g g')
    (hact : g.cellState.active = true) (hsafe : g'.maybe.isUnsafe = false)
    (hdata : a.data = some d) (hcapacity : g.cellState.capacity = a.capacity)
    (hisDao : g.cellState.isDao = a.isDao)
    (hown : (!g.cellState.lockArgNonequal) =
      a.isOwn (g.currentLockArg.1 ++ g.changeLockArg.1.take 8))
    (hblank : g.cellState.daoDataIsNonzero = false) :
    InputTaken g.books a g'.books ∧ (Strict P → d.length = if a.isDao then 8 else 0) := by
  obtain ⟨nd, hnd, rfl⟩ := h
  have hcounted : a.isCounted = true := by rw [AnnotatedCellInputVal.isCounted, hdata]; rfl
  have hhasData : a.hasData = decide (0 < min 15 d.length) := by
    rw [AnnotatedCellInputVal.hasData, hdata]
    exact decide_eq_decide.2 (by rw [← List.length_pos_iff]; omega)
  have hnonzero : (g.readData d).cellState.daoDataIsNonzero = a.hasNonzeroData := by
    rw [AnnotatedCellInputVal.hasNonzeroData, hdata]
    simp [SignState.readData, hblank, hact]
  cases hdao : a.isDao with
  | true =>
    obtain ⟨hsize, htag, heq⟩ := finishInputCellData_dao (g := g.readData d) hact
      (hisDao.trans hdao) hsafe
    rw [hnonzero] at htag heq
    refine ⟨⟨?_, fun _ => htag⟩, fun _ => min_fifteen_eq_eight hsize⟩
    rw [heq]
    simp [hcounted, hdao, SignState.books, SignState.readData, hcapacity]
  | false =>
    obtain ⟨hstrict, heq⟩ := finishInputCellData_plain (g := g.readData d) hact
      (hisDao.trans hdao) hsafe
    refine ⟨⟨?_, fun hbad => ?_⟩, fun hP => ?_⟩
    · rw [heq]
      simp only [SignState.books, SignState.readData, hcounted, hdao, hhasData, hown, hcapacity]
      simp only [Bool.not_false, Bool.and_true, Bool.true_and, Bool.and_false, if_true,
        Bool.false_eq_true, if_false, decide_eq_true_eq, UInt64.add_zero, Books.mk.injEq,
        true_and, and_true]
      split_ifs
      · rfl
      · exact (UInt64.add_zero _).symm
    · rw [hdao, Bool.and_false] at hbad
      cases hbad
    · by_contra hne
      refine hstrict ?_ (hP nd hnd)
      change min 15 d.length ≠ 0
      rw [if_neg Bool.false_ne_true] at hne
      omega

/-- **An input.** -/
theorem TakeInput.effect {a : AnnotatedCellInputVal} (h : TakeInput P g a g') :
    InputTaken g.books a g'.books ∧
      (Strict P → (∀ o ∈ a.cell, o.Standard) ∧
        ∀ d ∈ a.data, d.length = if a.isDao then 8 else 0) := by
  obtain ⟨g₁, g₂, hread, hcount, hg'⟩ := h.taken
  have hsafe := h.safe
  have hbooks : g'.books = g₂.books := by rw [hg']; rfl
  have hmaybe : g'.maybe = g₂.maybe := by rw [hg']
  rw [hmaybe] at hsafe
  rw [hbooks]
  clear hg' hbooks hmaybe
  cases hdata : a.data with
  | none =>
    -- the cell is not counted
    rw [hdata] at hcount
    have hidle := hcount.idle
    have hsafe₁ : g₁.maybe.isUnsafe = false := by rwa [hidle.maybe] at hsafe
    have hseen := hread.cellSeen h.between.cellState hsafe₁
    refine ⟨⟨?_, fun hbad => ?_⟩, fun hP => ⟨hseen.strict hP, nofun⟩⟩
    · rw [hidle.books, hseen.books]
      simp [AnnotatedCellInputVal.isCounted, AnnotatedCellInputVal.hasData, hdata, SignState.books]
    · rw [AnnotatedCellInputVal.isCounted, hdata] at hbad
      cases hbad
  | some d =>
    rw [hdata] at hcount
    obtain ⟨s₁, s₂, hbefore, hact, hcounted, hbehind⟩ := hcount.taken
    rw [hbehind.maybe] at hsafe
    have hsafe₁ : s₁.maybe.isUnsafe = false := by
      obtain ⟨nd, -, rfl⟩ := hcounted
      exact (SignState.worsens_finishInputCellData nd (s₁.readData d)).safe hsafe
    rw [hbefore.maybe] at hsafe₁
    have hseen := hread.cellSeen h.between.cellState hsafe₁
    obtain ⟨hcapacity, hisDao, hnonequal, hnonzero⟩ := hbefore.cellState
    have hbooks : s₁.books = g.books := hbefore.books.trans hseen.books
    have hown : s₁.currentLockArg = g.currentLockArg := congrArg Books.own hbooks
    have hchange : s₁.changeLockArg = g.changeLockArg := congrArg Books.change hbooks
    have hisOwn : (!s₁.cellState.lockArgNonequal) =
        a.isOwn (s₁.currentLockArg.1 ++ s₁.changeLockArg.1.take 8) := by
      rw [hnonequal, hown, hchange, Bool.eq_iff_iff, Bool.not_eq_true', hseen.nonequal,
        AnnotatedCellInputVal.isOwn, Option.all_eq_true]
      simp only [List.isPrefixOf_iff_prefix, Option.mem_def]
    obtain ⟨htaken, hlength⟩ := hcounted.effect hact hsafe hdata
      (hcapacity.trans hseen.capacity) (hisDao.trans hseen.isDao) hisOwn
      (hnonzero.trans hseen.nonzero)
    rw [hbooks, ← hbehind.books] at htaken
    refine ⟨htaken, fun hP => ⟨hseen.strict hP, fun d' hd' => ?_⟩⟩
    obtain rfl := Option.some.inj hd'
    exact hlength hP

/-! ### Outputs -/

/-- What an output is to the owner of the key. -/
inductive OutputKind where
  /-- A payment to others. -/
  | plain
  /-- Something that goes back. -/
  | change
  | dao
deriving DecidableEq, Repr

namespace CellOutputVal

/-- The kind of an output, given the lock argument of the change and the owner of the last
deposit. -/
def kind (change owner : StandardLockArg) (o : CellOutputVal) : OutputKind :=
  if o.isDao then .dao
  else if o.lock.args.isPrefixOf (change.1 ++ owner.1.take 8) && !o.isMultisig then .change
  else .plain

/-- The owner of the last deposit, behind an output. -/
def nextOwner (owner : StandardLockArg) (o : CellOutputVal) : StandardLockArg :=
  if o.isDao then LockArg.hash (Bytes.ofList 28 o.lock.args) else owner

end CellOutputVal

theorem outputEnd_dao (hdao : g.cellState.isDao = true) (h : g.outputEnd env = .ok g')
    (hsafe : g'.maybe.isUnsafe = false) :
    g.cellState.lockArgNonequal = false ∧ g' = { g with
      daoCellOwner := LockArg.hash g.lockArgTmp
      tx.daoOutputAmount := g.tx.daoOutputAmount + g.cellState.capacity
      tx.daoBitmask := g.tx.daoBitmask ||| bitInt env g.tx.currentOutputIndex
      maybe.v.flags.hasChangeAddress := true } := by
  simp only [SignState.outputEnd, if_pos hdao] at h
  split_ifs at h with hother
  · obtain rfl := Except.ok.inj h
    cases hsafe
  · obtain rfl := Except.ok.inj h
    exact ⟨by simpa using fun hne => hother (.inl hne), rfl⟩

theorem outputEnd_change (hdao : g.cellState.isDao = false)
    (hown : g.cellState.lockArgNonequal = false) (hsingle : g.cellState.isMultisig = false)
    (h : g.outputEnd env = .ok g') : g' = { g with
      tx.changeAmount := g.tx.changeAmount + g.cellState.capacity
      maybe.v.flags.hasChangeAddress := true } := by
  simp only [SignState.outputEnd, hdao, hown, hsingle, Bool.false_eq_true, or_self, if_false] at h
  exact (Except.ok.inj h).symm

/-- What an output says when it is a payment. -/
def SignState.payment (g : SignState) : Output where
  capacity := g.cellState.capacity
  destination := g.lockArgTmp
  isMultisig := g.cellState.isMultisig

/-- The output that is being read is a payment to others. -/
def SignState.isPayment (g : SignState) : Bool :=
  !g.cellState.isDao && (g.cellState.lockArgNonequal || g.cellState.isMultisig)

/-- The payments `p` and `q` get one line when they follow each other. -/
def Output.SameLine (p q : Output) : Prop :=
  LockArg.hash p.destination = LockArg.hash q.destination ∧ p.isMultisig = q.isMultisig

/-- The payment `p` gets a line of its own on the screens, or is added to the last line. -/
inductive LineTaken (p : Output) (b b' : Books) : Prop
  | fresh (room : b.outputCount < maxOutputs)
      (tag : b.flags.hasDestinationAddress = false ∧ b.outputCount = 0 ∧ b'.tag = b.tag ∨
        b.flags.hasDestinationAddress = true ∧
          ¬ (b.outputs.getD (b.outputCount - 1) {}).SameLine p ∧
          b'.tag = .multiOutputTransfer ∧ (b.tag = .notSet ∨ b.tag = .multiOutputTransfer))
      (outputs : b'.outputs = b.outputs.modify b.outputCount fun e =>
        { p with capacity := e.capacity + p.capacity })
      (outputCount : b'.outputCount = b.outputCount + 1)
  | last (open_ : b.flags.hasDestinationAddress = true) (tag : b'.tag = b.tag)
      (same : (b.outputs.getD (b.outputCount - 1) {}).SameLine p)
      (outputs : b'.outputs = b.outputs.modify (b.outputCount - 1) fun e =>
        { e with capacity := e.capacity + p.capacity })
      (outputCount : b'.outputCount = b.outputCount)

theorem books_newOutput_addToOutput (g : SignState) (n : ℕ) (hn : n = g.tx.outputCount) :
    (g.newOutput n).addToOutput.books = { g.books with
      plainOutput := g.tx.plainOutputAmount + g.cellState.capacity
      flags := { g.maybe.v.flags with hasDestinationAddress := true }
      outputs := g.tx.outputs.modify n fun e =>
        { g.payment with capacity := e.capacity + g.payment.capacity }
      outputCount := n + 1 } := by
  subst hn
  simp only [SignState.newOutput, SignState.addToOutput, SignState.books, Nat.add_sub_cancel,
    List.modify_modify_eq, Function.comp_def]
  rfl

/-- **A payment** goes to the first destination, to a new one, or to that of the last payment. -/
theorem outputEnd_payment (hpayment : g.isPayment = true) (h : g.outputEnd env = .ok g')
    (hsafe : g'.maybe.isUnsafe = false) :
    LineTaken g.payment g.books g'.books ∧ g'.books = { g.books with
      plainOutput := g.tx.plainOutputAmount + g.cellState.capacity
      flags := { g.maybe.v.flags with hasDestinationAddress := true }
      tag := g'.books.tag
      outputs := g'.books.outputs
      outputCount := g'.books.outputCount } := by
  have hdao : g.cellState.isDao = false := by
    simpa using (Bool.and_eq_true_iff.1 hpayment).1
  have hother : g.cellState.lockArgNonequal = true ∨ g.cellState.isMultisig = true := by
    simpa using (Bool.and_eq_true_iff.1 hpayment).2
  simp only [SignState.outputEnd, hdao, if_pos hother, Bool.false_eq_true, if_false] at h
  have hflag : g.books.flags.hasDestinationAddress = g.maybe.v.flags.hasDestinationAddress := rfl
  split_ifs at h with hfirst hnone hnew htag hfull
  · obtain rfl := Except.ok.inj h
    have hcount : g.tx.outputCount = 0 := by simpa using hnone
    rw [books_newOutput_addToOutput g 0 hcount.symm]
    refine ⟨.fresh ?_ (.inl ⟨hflag.trans (by simpa using hfirst), hcount, rfl⟩) ?_ ?_, rfl⟩
    · rw [show g.books.outputCount = 0 from hcount]
      exact Nat.zero_lt_succ _
    · rw [show g.books.outputCount = 0 from hcount]
      rfl
    · rw [show g.books.outputCount = 0 from hcount]
  · obtain rfl := Except.ok.inj h
    cases hsafe
  · obtain rfl := Except.ok.inj h
    cases hsafe
  · obtain rfl := Except.ok.inj h
    rw [books_newOutput_addToOutput (g.setTag .multiOutputTransfer) _ rfl]
    refine ⟨.fresh (Nat.not_le.1 hfull) (.inr ⟨hflag.trans (by simpa using hfirst), fun hsame => ?_,
      rfl, ?_⟩) rfl rfl, rfl⟩
    · rcases hnew with hnew | hnew
      · exact hnew hsame.1
      · exact hnew hsame.2
    · by_cases hset : g.maybe.v.tag = .notSet
      · exact .inl hset
      · exact .inr (by by_contra hmulti; exact htag ⟨hset, hmulti⟩)
  · obtain rfl := Except.ok.inj h
    rw [not_or, not_not, not_not] at hnew
    exact ⟨.last (hflag.trans (by simpa using hfirst)) rfl hnew rfl rfl, rfl⟩

/-- The payment `p` is the output `o`; of args with more than 28 bytes nothing is known. -/
structure PaymentOf (p : Output) (o : CellOutputVal) : Prop where
  capacity : p.capacity = o.capacity
  isMultisig : p.isMultisig = o.isMultisig
  destination : o.lock.args.length ≤ 28 → p.destination = Bytes.ofList 28 o.lock.args

/-- Taking an output, with its kind and its number. -/
structure OutputTaken (env : Env) (b : Books) (l : OutputKind × UInt32 × CellOutputVal)
    (b' : Books) : Prop where
  kind : l.1 = l.2.2.kind b.change b.owner
  books : b' = { b with
    owner := l.2.2.nextOwner b.owner
    plainOutput := b.plainOutput + if l.1 = .plain then l.2.2.capacity else 0
    changeOutput := b.changeOutput + if l.1 = .change then l.2.2.capacity else 0
    daoOutput := b.daoOutput + if l.1 = .dao then l.2.2.capacity else 0
    daoBitmask := if l.1 = .dao then b.daoBitmask ||| bitInt env l.2.1 else b.daoBitmask
    flags := {
      hasDestinationAddress := b.flags.hasDestinationAddress || l.1 = .plain
      hasChangeAddress := b.flags.hasChangeAddress || l.1 ≠ .plain }
    tag := b'.tag
    outputs := b'.outputs
    outputCount := b'.outputCount }
  line : if l.1 = .plain then ∃ p, PaymentOf p l.2.2 ∧ LineTaken p b b'
    else b'.tag = b.tag ∧ b'.outputs = b.outputs ∧ b'.outputCount = b.outputCount

/-- **An output.** -/
theorem TakeOutput.effect {i : UInt32} {o : CellOutputVal} (h : TakeOutput env P g (i, o) g') :
    OutputTaken env g.books (o.kind g.changeLockArg g.daoCellOwner, i, o) g'.books ∧
      (Strict P → o.Standard) := by
  obtain ⟨⟨c, tmp, ⟨hstate, hnonequal, htmp⟩, hstrict, hend⟩, hsafe⟩ := h
  refine ⟨?_, hstrict⟩
  have hcapacity : c.capacity = o.capacity := by rw [hstate]
  have hisDao : c.isDao = o.isDao := by rw [hstate]
  have hisMultisig : c.isMultisig = o.isMultisig := by rw [hstate]
  generalize hs : ({ g.outputStart i with
    cellState := c
    lockArgTmp := tmp
    lockArgCmp := .changeLockArg } : SignState) = s at hend
  have hbooks : s.books = g.books := by rw [← hs]; rfl
  have hcell : s.cellState = c := by rw [← hs]
  have hlock : s.lockArgTmp = tmp := by rw [← hs]
  have hindex : s.tx.currentOutputIndex = i := by rw [← hs]; rfl
  rw [← hbooks]
  have hchange : s.changeLockArg = g.changeLockArg := congrArg Books.change hbooks
  have howner : s.daoCellOwner = g.daoCellOwner := congrArg Books.owner hbooks
  rw [← hchange, ← howner]
  have hown : c.lockArgNonequal = false ↔
      o.lock.args.isPrefixOf (s.changeLockArg.1 ++ s.daoCellOwner.1.take 8) = true := by
    rw [hnonequal, List.isPrefixOf_iff_prefix, hchange, howner]
    rfl
  clear hs hbooks hchange howner hnonequal
  subst hcell
  cases hdao : o.isDao with
  | true =>
    obtain ⟨hequal, rfl⟩ := outputEnd_dao (hisDao.trans hdao) hend hsafe
    have hkind : o.kind s.changeLockArg s.daoCellOwner = .dao := by
      rw [CellOutputVal.kind, if_pos hdao]
    have hlen : o.lock.args.length ≤ 28 := by
      have hle := (List.isPrefixOf_iff_prefix.1 (hown.1 hequal)).length_le
      simpa using hle
    have hnext : o.nextOwner s.daoCellOwner = LockArg.hash s.lockArgTmp := by
      rw [CellOutputVal.nextOwner, if_pos hdao, hlock, htmp hlen]
    rw [hkind]
    refine ⟨hkind.symm, ?_, rfl, rfl, rfl⟩
    simp [SignState.books, hnext, hcapacity, hindex]
  | false =>
    have hnext : o.nextOwner s.daoCellOwner = s.daoCellOwner := by
      rw [CellOutputVal.nextOwner, hdao]
      rfl
    by_cases hback : s.cellState.lockArgNonequal = false ∧ o.isMultisig = false
    · have hkind : o.kind s.changeLockArg s.daoCellOwner = .change := by
        simp [CellOutputVal.kind, hdao, hown.1 hback.1, hback.2]
      obtain rfl := outputEnd_change (hisDao.trans hdao) hback.1 (hisMultisig.trans hback.2) hend
      rw [hkind]
      refine ⟨hkind.symm, ?_, rfl, rfl, rfl⟩
      simp [SignState.books, hnext, hcapacity]
    · have hother : s.cellState.lockArgNonequal = true ∨ s.cellState.isMultisig = true := by
        rw [← Bool.not_eq_false, ← Bool.not_eq_false, hisMultisig]
        exact not_and_or.1 hback
      have hkind : o.kind s.changeLockArg s.daoCellOwner = .plain := by
        rw [hown] at hback
        simp only [CellOutputVal.kind, hdao, Bool.false_eq_true, if_false]
        exact if_neg fun h => hback (by simpa using h)
      rw [hkind]
      have hpayment : s.isPayment = true := by
        rw [SignState.isPayment, hisDao, hdao]
        simpa using hother
      obtain ⟨hline, hbooks'⟩ := outputEnd_payment hpayment hend hsafe
      refine ⟨hkind.symm, ?_, s.payment,
        ⟨hcapacity, hisMultisig, fun hlen => hlock.trans (htmp hlen)⟩, hline⟩
      rw [hbooks']
      simp [SignState.books, hnext, hcapacity]

/-! ### The data of the outputs -/

/-- The bit for the output number `i` is set. -/
def flagged (env : Env) (mask : UInt64) (i : UInt32) : Bool := mask &&& bitU64 env i ≠ 0

/-- Taking the data of an output, with their number. -/
structure DataTaken (env : Env) (b : Books) (l : UInt32 × List UInt8) (b' : Books) : Prop where
  books : b' = { b with
    tag := b'.tag
    contractType :=
      if !flagged env b.daoBitmask l.1 && l.2 ≠ [] then .unknown else b.contractType }
  tag : if flagged env b.daoBitmask l.1 then
      (b'.tag = .daoPrepare ∨ b'.tag = .daoDeposit) ∧ (b.tag = b'.tag ∨ b.tag = .notSet)
    else b'.tag = b.tag
  length : flagged env b.daoBitmask l.1 = true → l.2.length = 8

theorem finishOutputCellData_dao {nd : NvramData} (hdao : g.cellState.isDao = true)
    (hsafe : (g.finishOutputCellData nd).maybe.isUnsafe = false) :
    g.cellState.dataSize = 8 ∧ ∃ tag, (tag = .daoPrepare ∨ tag = .daoDeposit) ∧
      (g.maybe.v.tag = tag ∨ g.maybe.v.tag = .notSet) ∧
      g.finishOutputCellData nd = g.setTag tag := by
  simp only [SignState.finishOutputCellData, if_pos hdao] at hsafe ⊢
  split_ifs at hsafe ⊢ with hsize hnonzero
  · cases hsafe
  · obtain ⟨heq, htag⟩ := chooseDao_eq hsafe
    exact ⟨not_not.1 hsize, _, .inl rfl, htag, heq⟩
  · obtain ⟨heq, htag⟩ := chooseDao_eq hsafe
    exact ⟨not_not.1 hsize, _, .inr rfl, htag, heq⟩

theorem finishOutputCellData_plain {nd : NvramData} (hdao : g.cellState.isDao = false)
    (hsafe : (g.finishOutputCellData nd).maybe.isUnsafe = false) :
    (g.cellState.dataSize ≠ 0 → nd.contractDataType ≠ .disallow) ∧
      g.finishOutputCellData nd = { g with maybe.v.contractType :=
        if 0 < g.cellState.dataSize then .unknown else g.maybe.v.contractType } := by
  simp only [SignState.finishOutputCellData, hdao, Bool.false_eq_true, if_false] at hsafe ⊢
  by_cases hbad : g.cellState.dataSize ≠ 0 ∧ nd.contractDataType = .disallow
  · rw [if_pos hbad] at hsafe
    cases hsafe
  · rw [if_neg hbad]
    refine ⟨fun hsize hnd => hbad ⟨hsize, hnd⟩, ?_⟩
    split_ifs <;> rfl

/-- **The data of an output.** -/
theorem TakeData.effect {i : UInt32} {d : List UInt8} (h : TakeData env P g (i, d) g') :
    DataTaken env g.books (i, d) g'.books ∧
      (Strict P → d.length = if flagged env g.tx.daoBitmask i then 8 else 0) := by
  obtain ⟨⟨nd, hnd, rfl⟩, hsafe⟩ := h
  have hpositive : (0 < min 15 d.length) ↔ d ≠ [] := by
    rw [← List.length_pos_iff]
    omega
  generalize hs : (g.validateOutputDataStart env i).readData d = s at hsafe
  have hbooks : s.books = g.books := by rw [← hs]; rfl
  have hsize : s.cellState.dataSize = min 15 d.length := by rw [← hs]; rfl
  have hisDao : s.cellState.isDao = flagged env s.books.daoBitmask i := by rw [← hs]; rfl
  rw [← hbooks, show g.tx.daoBitmask = s.books.daoBitmask from
    (congrArg Books.daoBitmask hbooks).symm]
  cases hflag : flagged env s.books.daoBitmask i with
  | true =>
    obtain ⟨height, tag, hkind, htag, heq⟩ :=
      finishOutputCellData_dao (hisDao.trans hflag) hsafe
    have hlength := min_fifteen_eq_eight (hsize.symm.trans height)
    rw [heq]
    refine ⟨⟨?_, ?_, fun _ => hlength⟩, fun _ => hlength⟩
    · rw [hflag]
      rfl
    · rw [if_pos hflag]
      exact ⟨hkind, htag⟩
  | false =>
    obtain ⟨hstrict, heq⟩ := finishOutputCellData_plain (hisDao.trans hflag) hsafe
    rw [heq]
    refine ⟨⟨?_, ?_, fun hbad => ?_⟩, fun hP => ?_⟩
    · simp only [hflag, hsize, hpositive, Bool.not_false, Bool.true_and, decide_eq_true_eq]
      rfl
    · rw [hflag]
      rfl
    · rw [hflag] at hbad
      cases hbad
    · by_contra hne
      refine hstrict ?_ (hP nd hnd)
      rw [if_neg Bool.false_ne_true] at hne
      omega

/-! ### The end of the outputs -/

/-- The outputs are closed: a transaction without payments and with change is a transfer to
oneself, unless it is about deposits. -/
inductive OutputsClosed (b b' : Books) : Prop
  | kept (books : b' = { b with isSelfTransfer := b'.isSelfTransfer })
      (isSelfTransfer : b'.isSelfTransfer = true → b.isSelfTransfer = true)
  | selfTransfer (plainOutput : b.plainOutput = 0) (outputCount : b.outputCount = 0)
      (destination : b.flags.hasDestinationAddress = false) (books : b' = { b with
        plainOutput := b.changeOutput
        changeOutput := 0
        flags := {}
        outputs := b'.outputs
        outputCount := 1
        isSelfTransfer := true })

/-- What does not depend on the payments does not change at the end of the outputs. -/
theorem OutputsClosed.frame {β : Type} {f : Books → β} {b b' : Books} (h : OutputsClosed b b')
    (hf : ∀ (b : Books) plainOutput changeOutput flags outputs outputCount isSelfTransfer,
      f { b with plainOutput, changeOutput, flags, outputs, outputCount, isSelfTransfer } = f b) :
    f b' = f b := by
  cases h with
  | kept books _ =>
    rw [books]
    exact hf b _ _ _ _ _ _
  | selfTransfer _ _ _ books =>
    rw [books]
    exact hf b _ _ _ _ _ _

theorem SignState.outputsEnd_effect (h : g.outputsEnd = .ok g') :
    OutputsClosed g.books g'.books := by
  unfold SignState.outputsEnd at h
  dsimp only at h
  split_ifs at h with hdao hplain hself hcount
  · obtain rfl := Except.ok.inj h
    exact .kept rfl id
  · obtain rfl := Except.ok.inj h
    exact .kept rfl fun hbad => by
      rw [Bool.not_eq_true'] at hplain
      exact absurd (hplain.symm.trans hbad) Bool.false_ne_true
  · obtain rfl := Except.ok.inj h
    have hflags : (!g.maybe.v.flags.hasDestinationAddress && g.maybe.v.flags.hasChangeAddress) =
        true := by simpa using hplain
    refine .selfTransfer (not_not.1 hself) (not_not.1 hcount) ?_ ?_
    · change g.maybe.v.flags.hasDestinationAddress = false
      simpa using (Bool.and_eq_true_iff.1 hflags).1
    · simp [SignState.books, hflags]

/-! ### The books of a session -/

/-- The books before the inputs. -/
def Books.opening (own change : StandardLockArg) : Books :=
  ({ currentLockArg := own, changeLockArg := change } : SignState).books

/-- The outputs with their kinds and numbers. -/
def classified (change : StandardLockArg) :
    StandardLockArg → UInt32 → List CellOutputVal → List (OutputKind × UInt32 × CellOutputVal)
  | _, _, [] => []
  | owner, i, o :: os =>
    (o.kind change owner, i, o) :: classified change (o.nextOwner owner) (i + 1) os

/-- Every output has a kind, and it has one. -/
theorem map_classified (change owner : StandardLockArg) (i : UInt32) (os : List CellOutputVal) :
    (classified change owner i os).map Prod.snd = numbered i os := by
  induction os generalizing owner i with
  | nil => rfl
  | cons o os ih => rw [classified, numbered, List.map_cons, ih]

theorem Runs.outputsTaken {i : UInt32} {os : List CellOutputVal}
    (h : Runs (TakeOutput env P) g (numbered i os) g') :
    Runs (OutputTaken env) g.books (classified g.changeLockArg g.daoCellOwner i os) g'.books := by
  induction os generalizing g i with
  | nil =>
    rw [Runs.nil_iff.1 h]
    exact .nil _
  | cons o os ih =>
    obtain ⟨g₁, h₁, hrest⟩ := Runs.cons_iff.1 h
    obtain ⟨htaken, -⟩ := h₁.effect
    have hchange : g₁.changeLockArg = g.changeLockArg := congrArg Books.change htaken.books
    have howner : g₁.daoCellOwner = o.nextOwner g.daoCellOwner :=
      congrArg Books.owner htaken.books
    have hruns := ih hrest
    rw [hchange, howner] at hruns
    exact .cons htaken hruns

/-- What is read of the cells under the strict settings. -/
structure StrictTaken (env : Env) (v : AnnotatedTransactionVal) (mask : UInt64) : Prop where
  cell : ∀ a ∈ v.inputs.getD [], ∀ o ∈ a.cell, o.Standard
  data : ∀ a ∈ v.inputs.getD [], ∀ d ∈ a.data, d.length = if a.isDao then 8 else 0
  output : ∀ o ∈ numbered 0 (v.outputs.getD []), o.2.Standard
  outputData : ∀ d ∈ numbered 0 (v.outputsData.getD []),
    d.2.length = if flagged env mask d.1 then 8 else 0

namespace Transcript

variable {v : AnnotatedTransactionVal} (t : Transcript env P v)

/-- The books behind the inputs. -/
theorem books_spent (hok : t.last.maybe.hardReject = false)
    (hsafe : t.last.maybe.isUnsafe = false) :
    Runs InputTaken (.opening t.opened.currentLockArg t.opened.changeLockArg) (v.inputs.getD [])
      t.spent.books := by
  obtain ⟨g₁, hruns, hlast⟩ := t.takes_inputs hok hsafe
  have hbooks : Runs InputTaken (.opening t.opened.currentLockArg t.opened.changeLockArg)
      (v.inputs.getD []) g₁.books :=
    hruns.view (I := fun _ => True) SignState.books trivial (fun _ _ _ _ _ => trivial)
      fun _ _ _ _ hstep _ => hstep.effect.1
  -- nothing is known of the outputs yet, and `finish_inputs` does not forget anything
  have hframe := hbooks.frame (f := fun b : Books => ((b.plainOutput, b.changeOutput, b.daoOutput),
    b.daoBitmask, b.outputs, b.outputCount, b.isSelfTransfer)) fun b a b' _ hstep => by
      rw [hstep.books]
  have hsame : t.spent.books = g₁.books := by
    change t.spent.hashless.books = g₁.books
    rw [hlast]
    simp only [Books.opening, SignState.books, Prod.mk.injEq] at hframe
    simp only [SignState.books, SignState.finishInputs, hframe]
  rwa [hsame]

/-- The books behind the outputs. -/
theorem books_paid (hok : t.last.maybe.hardReject = false)
    (hsafe : t.last.maybe.isUnsafe = false) :
    ∃ b, Runs (OutputTaken env) t.spent.books
        (classified t.spent.changeLockArg t.spent.daoCellOwner 0 (v.outputs.getD [])) b ∧
      OutputsClosed b t.paid.books := by
  obtain ⟨g₁, g₂, hruns, hlast, hend⟩ := t.takes_outputs hok hsafe
  have hsame : g₂.books = g₁.books := by
    rcases hlast with rfl | ⟨n, rfl⟩
    · rfl
    · rfl
  have hclosed : OutputsClosed g₂.books t.paid.hashless.books := SignState.outputsEnd_effect hend
  exact ⟨g₁.books, hruns.outputsTaken, hsame ▸ hclosed⟩

/-- The books behind the data of the outputs. -/
theorem books_stored (hok : t.last.maybe.hardReject = false)
    (hsafe : t.last.maybe.isUnsafe = false) :
    Runs (DataTaken env) t.paid.books (numbered 0 (v.outputsData.getD [])) t.stored.books := by
  obtain ⟨g₁, hruns, hlast⟩ := t.takes_outputsData hok hsafe
  have hbooks : Runs (DataTaken env) t.paid.books (numbered 0 (v.outputsData.getD [])) g₁.books :=
    hruns.view (I := fun _ => True) SignState.books trivial (fun _ _ _ _ _ => trivial)
      fun _ _ _ _ hstep _ => hstep.effect.1
  have hsame : t.stored.books = g₁.books := by
    change t.stored.hashless.books = g₁.books
    rcases hlast with h | ⟨n, h⟩
    · rw [h]
    · rw [h]
      rfl
  rwa [hsame]

/-- What no output changes, and what does not depend on the payments, is behind the outputs as it
was before them. -/
theorem paid_frame {β : Type} {f : Books → β} (hok : t.last.maybe.hardReject = false)
    (hsafe : t.last.maybe.isUnsafe = false)
    (houtput : ∀ b l b', OutputTaken env b l b' → f b' = f b)
    (hf : ∀ (b : Books) plainOutput changeOutput flags outputs outputCount isSelfTransfer,
      f { b with plainOutput, changeOutput, flags, outputs, outputCount, isSelfTransfer } = f b) :
    f t.paid.books = f t.spent.books := by
  obtain ⟨b, houtputs, hclosed⟩ := t.books_paid hok hsafe
  exact (hclosed.frame hf).trans (houtputs.frame fun b l b' _ => houtput b l b')

theorem strictTaken (hP : Strict P) (hok : t.last.maybe.hardReject = false)
    (hsafe : t.last.maybe.isUnsafe = false) : StrictTaken env v t.paid.tx.daoBitmask := by
  obtain ⟨_, hinputs, -⟩ := t.takes_inputs hok hsafe
  obtain ⟨_, _, houtputs, -⟩ := t.takes_outputs hok hsafe
  obtain ⟨_, hdata, -⟩ := t.takes_outputsData hok hsafe
  refine ⟨hinputs.forall_mem fun _ _ _ hstep => (hstep.effect.2 hP).1,
    hinputs.forall_mem fun _ _ _ hstep => (hstep.effect.2 hP).2,
    houtputs.forall_mem fun _ o _ hstep => (TakeOutput.effect hstep).2 hP, ?_⟩
  exact hdata.forall_mem_of_invariant (I := fun s => s.tx.daoBitmask = t.paid.tx.daoBitmask) rfl
    fun s d s' hstep hmask => by
      obtain ⟨htaken, hlength⟩ := TakeData.effect hstep
      refine ⟨(congrArg Books.daoBitmask htaken.books).trans hmask, ?_⟩
      rw [← hmask]
      exact hlength hP

end Transcript

end LedgerNervos
