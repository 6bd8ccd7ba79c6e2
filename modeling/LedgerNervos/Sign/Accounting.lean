import LedgerNervos.Sign.Finalized
import LedgerNervos.Sign.Lines

/-!
# Accounting

The amounts on the screens are sums of the capacities of the cells, modulo `2 ^ 64`: every cell
that an input refers to, and every output, is counted in one place.  `Accounts` says what the
amounts in the state are when the prompt is shown, whatever has been read, and `Accounted` what
follows for transactions that come with the cells which their inputs refer to.
-/

namespace LedgerNervos

variable {env : Env} {P : NvramData → Prop} {g g' : SignState}

/-! ### Sums -/

/-- Capacities that only count when `p` holds. -/
theorem sum_map_filter {α : Type} (p : α → Bool) (f : α → UInt64) (l : List α) :
    (l.map fun a => if p a then f a else 0).sum = ((l.filter p).map f).sum := by
  induction l with
  | nil => rfl
  | cons a l ih =>
    rw [List.map_cons, List.sum_cons, ih, List.filter_cons]
    split_ifs
    · rw [List.map_cons, List.sum_cons]
    · exact UInt64.zero_add _

/-- What the cells that the inputs refer to are worth. -/
def inputTotal (p : AnnotatedCellInputVal → Bool) (as : List AnnotatedCellInputVal) : UInt64 :=
  ((as.filter p).map AnnotatedCellInputVal.capacity).sum

/-- What the outputs of the kind `k` are worth. -/
def outputTotal (k : OutputKind) (os : List (OutputKind × UInt32 × CellOutputVal)) : UInt64 :=
  ((os.filter fun l => l.1 = k).map fun l => l.2.2.capacity).sum

/-- The sums behind the inputs. -/
theorem Runs.inputTotals {b b' : Books} {as : List AnnotatedCellInputVal}
    (h : Runs InputTaken b as b') :
    b'.daoInput = b.daoInput + inputTotal (fun a => a.isCounted && a.isDao) as ∧
      b'.plainInput = b.plainInput + inputTotal (fun a => a.isCounted && !a.isDao) as ∧
      b'.ownInput = b.ownInput + inputTotal (fun a => a.isCounted && !a.isDao &&
        a.isOwn (b.own.1 ++ b.change.1.take 8)) as := by
  refine ⟨?_, ?_, ?_⟩
  · rw [inputTotal, ← sum_map_filter]
    exact h.sum (f := Books.daoInput) fun _ _ _ hstep => by rw [hstep.books]
  · rw [inputTotal, ← sum_map_filter]
    exact h.sum (f := Books.plainInput) fun _ _ _ hstep => by rw [hstep.books]
  · rw [inputTotal, ← sum_map_filter]
    refine h.sum_of_invariant (I := fun s => s.own = b.own ∧ s.change = b.change)
      (f := Books.ownInput) ⟨rfl, rfl⟩ fun s a s' hstep hs => ?_
    rw [hstep.books]
    refine ⟨hs, ?_⟩
    rw [← hs.1, ← hs.2]

/-- The sums behind the outputs. -/
theorem Runs.outputTotals {b b' : Books} {ls : List (OutputKind × UInt32 × CellOutputVal)}
    (h : Runs (OutputTaken env) b ls b') :
    b'.plainOutput = b.plainOutput + outputTotal .plain ls ∧
      b'.changeOutput = b.changeOutput + outputTotal .change ls ∧
      b'.daoOutput = b.daoOutput + outputTotal .dao ls := by
  have hkind (k : OutputKind) : outputTotal k ls =
      (ls.map fun l => if l.1 = k then l.2.2.capacity else 0).sum := by
    rw [outputTotal, ← sum_map_filter]
    simp only [decide_eq_true_eq]
  refine ⟨?_, ?_, ?_⟩
  · rw [hkind]
    exact h.sum (f := Books.plainOutput) fun _ _ _ hstep => by rw [hstep.books]
  · rw [hkind]
    exact h.sum (f := Books.changeOutput) fun _ _ _ hstep => by rw [hstep.books]
  · rw [hkind]
    exact h.sum (f := Books.daoOutput) fun _ _ _ hstep => by rw [hstep.books]

/-! ### Tags -/

/-- An input that refers to a deposit which is being withdrawn. -/
def AnnotatedCellInputVal.isWithdrawal (a : AnnotatedCellInputVal) : Bool :=
  a.isCounted && a.isDao && a.hasNonzeroData

/-- The operations that inputs stand for. -/
theorem InputTaken.tag_cases {b b' : Books} {a : AnnotatedCellInputVal} (h : InputTaken b a b') :
    (b'.tag = b.tag ∨ b'.tag = .daoPrepare ∨ b'.tag = .daoWithdraw) ∧
      (b'.tag = .daoWithdraw ↔ b.tag = .daoWithdraw ∨ a.isWithdrawal = true) := by
  have htag : b'.tag = if (a.isCounted && a.isDao) = true then withdrawalTag a.hasNonzeroData
      else b.tag := by rw [h.books]
  rw [AnnotatedCellInputVal.isWithdrawal]
  cases hdao : (a.isCounted && a.isDao) with
  | false =>
    rw [hdao] at htag
    simp [htag]
  | true =>
    have hbefore := h.tag hdao
    rw [hdao, if_pos rfl] at htag
    rw [htag]
    cases hnonzero : a.hasNonzeroData with
    | true => simp [withdrawalTag]
    | false =>
      rw [hnonzero] at hbefore
      rcases hbefore with hbefore | hbefore <;> simp [withdrawalTag, hbefore]

/-- A transaction is a withdrawal if an input refers to a deposit that is being withdrawn. -/
theorem Runs.inputTags {b b' : Books} {as : List AnnotatedCellInputVal}
    (h : Runs InputTaken b as b') (hb : b.tag = .notSet) :
    b'.tag ≠ .multiOutputTransfer ∧
      (b'.tag = .daoWithdraw ↔ ∃ a ∈ as, a.isWithdrawal = true) := by
  constructor
  · refine h.invariant (I := fun b => b.tag ≠ .multiOutputTransfer) (by rw [hb]; nofun)
      fun s a s' _ hstep hs => ?_
    rcases hstep.tag_cases.1 with h | h | h
    · rw [h]
      exact hs
    · rw [h]
      nofun
    · rw [h]
      nofun
  · have hiff := h.iff_exists (I := fun _ => True) (p := fun b => b.tag = .daoWithdraw)
      (q := fun a => a.isWithdrawal = true) trivial
      fun _ _ _ hstep _ => ⟨trivial, hstep.tag_cases.2⟩
    rw [hb] at hiff
    simpa using hiff

/-- Outputs do not withdraw anything. -/
theorem OutputTaken.tag_withdraw {b b' : Books} {l : OutputKind × UInt32 × CellOutputVal}
    (h : OutputTaken env b l b') : b'.tag = .daoWithdraw ↔ b.tag = .daoWithdraw := by
  have hline := h.line
  by_cases hplain : l.1 = .plain
  · rw [if_pos hplain] at hline
    obtain ⟨p, -, hline⟩ := hline
    cases hline with
    | fresh room tag outputs outputCount =>
      rcases tag with ⟨-, -, htag⟩ | ⟨-, -, htag, hbefore⟩
      · rw [htag]
      · rw [htag]
        refine iff_of_false nofun ?_
        rcases hbefore with hbefore | hbefore
        · rw [hbefore]
          nofun
        · rw [hbefore]
          nofun
    | last open_ tag same outputs outputCount => rw [tag]
  · rw [if_neg hplain] at hline
    rw [hline.1]

/-- The data of an output can only choose an operation when there is none yet. -/
def TagChosen (b b' : Books) : Prop :=
  b'.tag = b.tag ∨ b.tag = .notSet ∧ (b'.tag = .daoPrepare ∨ b'.tag = .daoDeposit)

theorem DataTaken.tagChosen {b b' : Books} {l : UInt32 × List UInt8} (h : DataTaken env b l b') :
    TagChosen b b' := by
  have htag := h.tag
  by_cases hflag : flagged env b.daoBitmask l.1 = true
  · rw [if_pos hflag] at htag
    obtain ⟨hkind, hsame | hunset⟩ := htag
    · exact .inl hsame.symm
    · exact .inr ⟨hunset, hkind⟩
  · rw [if_neg hflag] at htag
    exact .inl htag

theorem Runs.tagChosen {b b' : Books} {ls : List (UInt32 × List UInt8)}
    (h : Runs (DataTaken env) b ls b') : TagChosen b b' :=
  h.invariant (I := TagChosen b) (.inl rfl) fun s l s' _ hstep hs => by
    rcases hs with hs | ⟨hunset, hs⟩
    · rcases hstep.tagChosen with hstep | ⟨hunset, hstep⟩
      · exact .inl (hstep.trans hs)
      · exact .inr ⟨hs.symm.trans hunset, hstep⟩
    · rcases hstep.tagChosen with hstep | ⟨hagain, -⟩
      · exact .inr ⟨hunset, hstep.symm ▸ hs⟩
      · rw [hagain] at hs
        rcases hs with hs | hs
        · cases hs
        · cases hs

/-- An operation that no data of an output stand for. -/
theorem TagChosen.tag_iff {b b' : Books} (h : TagChosen b b') {tag : OperationTag}
    (htag : tag = .multiOutputTransfer ∨ tag = .daoWithdraw) : b'.tag = tag ↔ b.tag = tag := by
  rcases h with h | ⟨hunset, h⟩
  · rw [h]
  · rw [hunset]
    rcases htag with rfl | rfl
    all_goals rcases h with h | h <;> rw [h] <;> exact iff_of_false nofun nofun

/-! ### The amounts in the state -/

section Accounts

variable {v : AnnotatedTransactionVal} (t : Transcript env P v)

/-- The outputs of a session, each with its kind and its number. -/
def Transcript.kinds : List (OutputKind × UInt32 × CellOutputVal) :=
  classified t.spent.changeLockArg t.spent.daoCellOwner 0 (v.outputs.getD [])

/-- What an own cell begins with: the lock argument of the key that signs, as it is in memory. -/
def Transcript.ownWindow : List UInt8 :=
  t.opened.currentLockArg.1 ++ t.opened.changeLockArg.1.take 8

/-- The amounts in the books are those of the session. -/
structure Accounts (b : Books) : Prop where
  daoInput : b.daoInput = inputTotal (fun a => a.isCounted && a.isDao) (v.inputs.getD [])
  plainInput : b.plainInput = inputTotal (fun a => a.isCounted && !a.isDao) (v.inputs.getD [])
  ownInput : b.ownInput =
    inputTotal (fun a => a.isCounted && !a.isDao && a.isOwn t.ownWindow) (v.inputs.getD [])
  daoOutput : b.daoOutput = outputTotal .dao t.kinds
  /-- A transfer to oneself shows what goes back as the amount. -/
  plainOutput : b.plainOutput = outputTotal (if b.isSelfTransfer then .change else .plain) t.kinds
  changeOutput : b.changeOutput = if b.isSelfTransfer then 0 else outputTotal .change t.kinds
  payments : b.isSelfTransfer = true → payments t.kinds = []
  lines : b.isSelfTransfer = false →
    ∃ groups, Lines b groups ∧
      List.Forall₂ PaymentOf groups.flatten (LedgerNervos.payments t.kinds)
  multiOutput : b.tag = .multiOutputTransfer → b.isSelfTransfer = false
  withdrawal : b.tag = .daoWithdraw ↔ ∃ a ∈ v.inputs.getD [], a.isWithdrawal = true

variable {t}

/-- The books are the same but for operations and contract data that have been noticed. -/
structure SameAmounts (b b' : Books) : Prop where
  books : b' = { b with tag := b'.tag, contractType := b'.contractType }
  tag : ∀ tag, tag = .multiOutputTransfer ∨ tag = .daoWithdraw → (b'.tag = tag ↔ b.tag = tag)

theorem SameAmounts.trans {b b₁ b' : Books} (h : SameAmounts b b₁) (h' : SameAmounts b₁ b') :
    SameAmounts b b' where
  books := by
    have hback := congrArg (fun b₁ : Books => { b₁ with
      tag := b'.tag
      contractType := b'.contractType }) h.books
    exact h'.books.trans hback
  tag tag htag := (h'.tag tag htag).trans (h.tag tag htag)

theorem SameAmounts.lines {b b' : Books} {groups : List (List Output)} (h : SameAmounts b b')
    (hlines : Lines b groups) : Lines b' groups where
  lines := by
    rw [h.books]
    exact hlines.lines
  outputCount := by
    rw [h.books]
    exact hlines.outputCount
  le := hlines.le
  hasDestination := by
    rw [h.books]
    exact hlines.hasDestination
  tag := (h.tag .multiOutputTransfer (.inl rfl)).trans hlines.tag

/-- The amounts do not depend on the other operations. -/
theorem Accounts.of_same {b b' : Books} (h : Accounts t b) (hsame : SameAmounts b b') :
    Accounts t b' := by
  have hlines {groups : List (List Output)} : Lines b groups → Lines b' groups := hsame.lines
  have hmulti := hsame.tag .multiOutputTransfer (.inl rfl)
  have hwithdraw := hsame.tag .daoWithdraw (.inr rfl)
  have hbooks := hsame.books
  generalize b'.tag = tag at *
  generalize b'.contractType = contractType at *
  subst hbooks
  exact {
    daoInput := h.daoInput
    plainInput := h.plainInput
    ownInput := h.ownInput
    daoOutput := h.daoOutput
    plainOutput := h.plainOutput
    changeOutput := h.changeOutput
    payments := h.payments
    lines := fun hself => by
      obtain ⟨groups, hgroups, hpayments⟩ := h.lines hself
      exact ⟨groups, hlines hgroups, hpayments⟩
    multiOutput := fun hbad => h.multiOutput (hmulti.1 hbad)
    withdrawal := hwithdraw.trans h.withdrawal }

/-- The books behind the inputs say nothing of outputs. -/
theorem Transcript.fresh_spent (hok : t.last.maybe.hardReject = false)
    (hsafe : t.last.maybe.isUnsafe = false) :
    (t.spent.books.plainOutput = 0 ∧ t.spent.books.changeOutput = 0 ∧
      t.spent.books.daoOutput = 0) ∧ t.spent.books.isSelfTransfer = false ∧
      Lines t.spent.books [] := by
  have hinputs := t.books_spent hok hsafe
  obtain ⟨hmulti, -⟩ := hinputs.inputTags rfl
  have hfresh := hinputs.frame (f := fun b : Books => ((b.plainOutput, b.changeOutput,
    b.daoOutput), b.outputs, b.outputCount, b.isSelfTransfer, b.flags)) fun b a b' _ hstep => by
      rw [hstep.books]
  simp only [Prod.mk.injEq] at hfresh
  obtain ⟨hamounts, houtputs, hcount, hself, hflags⟩ := hfresh
  exact ⟨hamounts, hself,
    lines_nil houtputs hcount (congrArg Flags.hasDestinationAddress hflags) hmulti⟩

/-- The amounts behind the outputs, before they are closed. -/
theorem Transcript.accounts_outputs (hok : t.last.maybe.hardReject = false)
    (hsafe : t.last.maybe.isUnsafe = false) :
    ∃ b, Accounts t b ∧ b.isSelfTransfer = false ∧ OutputsClosed b t.paid.books := by
  have hinputs := t.books_spent hok hsafe
  obtain ⟨b, houtputs, hclosed⟩ := t.books_paid hok hsafe
  refine ⟨b, ?_⟩
  obtain ⟨hdaoInput, hplainInput, hownInput⟩ := hinputs.inputTotals
  obtain ⟨-, hwithdraw⟩ := hinputs.inputTags rfl
  obtain ⟨hplain, hchange, hdao⟩ := houtputs.outputTotals
  obtain ⟨⟨hplain₀, hchange₀, hdao₀⟩, hself₀, hlines₀⟩ := t.fresh_spent hok hsafe
  -- the outputs leave the amounts of the inputs alone
  have hspent := houtputs.frame (f := fun b : Books => (b.daoInput, b.plainInput, b.ownInput,
    b.isSelfTransfer)) fun b l b' _ hstep => by rw [hstep.books]
  simp only [Prod.mk.injEq] at hspent
  obtain ⟨hdaoInput', hplainInput', hownInput', hself'⟩ := hspent
  have hself : b.isSelfTransfer = false := hself'.trans hself₀
  have htag := houtputs.frame (f := fun b : Books => decide (b.tag = .daoWithdraw))
    fun b l b' _ hstep => decide_eq_decide.2 hstep.tag_withdraw
  rw [decide_eq_decide] at htag
  obtain ⟨groups, ps, hlines, hps, hflatten⟩ := houtputs.lines hlines₀
  rw [List.flatten_nil, List.nil_append] at hflatten
  refine ⟨{
    daoInput := ?_
    plainInput := ?_
    ownInput := ?_
    daoOutput := ?_
    plainOutput := ?_
    changeOutput := ?_
    payments := fun hbad => absurd (hself.symm.trans hbad) Bool.false_ne_true
    lines := fun _ => ⟨groups, hlines, hflatten ▸ hps⟩
    multiOutput := fun _ => hself
    withdrawal := htag.trans hwithdraw }, hself, hclosed⟩
  · rw [hdaoInput', hdaoInput]
    exact UInt64.zero_add _
  · rw [hplainInput', hplainInput]
    exact UInt64.zero_add _
  · rw [hownInput', hownInput]
    exact UInt64.zero_add _
  · rw [hdao, hdao₀]
    exact UInt64.zero_add _
  · rw [hplain, hplain₀, hself]
    exact UInt64.zero_add _
  · rw [hchange, hchange₀, hself]
    exact UInt64.zero_add _

/-- A transfer to oneself has no payments, and shows what goes back. -/
theorem Accounts.closed {b b' : Books} (h : Accounts t b) (hself : b.isSelfTransfer = false)
    (hclosed : OutputsClosed b b') : Accounts t b' := by
  cases hclosed with
  | kept books isSelfTransfer =>
    have hsame : b'.isSelfTransfer = b.isSelfTransfer := by
      rw [hself, ← Bool.not_eq_true]
      exact fun hbad => absurd (hself.symm.trans (isSelfTransfer hbad)) Bool.false_ne_true
    rw [books, hsame]
    exact h
  | selfTransfer plainOutput outputCount destination books =>
    have hplain := h.plainOutput
    have hchange := h.changeOutput
    obtain ⟨groups, hlines, hpayments⟩ := h.lines hself
    rw [hself] at hplain hchange
    have hnone : groups = [] :=
      List.length_eq_zero_iff.1 (hlines.outputCount.symm.trans outputCount)
    have hmulti : b.tag ≠ .multiOutputTransfer := by
      rw [Ne, hlines.tag, hnone]
      decide
    generalize b'.outputs = outputs at books
    subst books
    exact {
      daoInput := h.daoInput
      plainInput := h.plainInput
      ownInput := h.ownInput
      daoOutput := h.daoOutput
      plainOutput := hchange
      changeOutput := rfl
      payments := fun _ => by
        rw [hnone] at hpayments
        exact List.forall₂_nil_left_iff.1 hpayments
      lines := fun hbad => absurd hbad.symm Bool.false_ne_true
      multiOutput := fun hbad => absurd hbad hmulti
      withdrawal := h.withdrawal }

/-- The data of the outputs and the end of the raw transaction leave the amounts alone. -/
theorem Accepted.sameAmounts {instruction : UInt8} {ps : List Packet} {prompt : Prompt}
    (h : Accepted env P instruction ps prompt g v t) : SameAmounts t.paid.books g.books := by
  have hdata := t.books_stored h.hardReject h.isUnsafe
  have hsame := hdata.frame (f := fun b : Books => { b with
      tag := .none
      contractType := .unknown }) fun b l b' _ hstep => by rw [hstep.books]
  have hstored : SameAmounts t.paid.books t.stored.books := by
    refine ⟨?_, fun tag htag => hdata.tagChosen.tag_iff htag⟩
    have hback := congrArg (fun b : Books => { b with
      tag := t.stored.books.tag
      contractType := t.stored.books.contractType }) hsame
    exact hback
  have hfinalized := h.finalized
  refine hstored.trans ⟨?_, fun tag htag => hfinalized.operation.tag_iff htag⟩
  rw [hfinalized.books]

/-- **The amounts** in the state when the prompt is shown, whatever has been read. -/
theorem Accepted.accounts {instruction : UInt8} {ps : List Packet} {prompt : Prompt}
    (h : Accepted env P instruction ps prompt g v t) : Accounts t g.books := by
  obtain ⟨b, houtputs, hself, hclosed⟩ := t.accounts_outputs h.hardReject h.isUnsafe
  exact (houtputs.closed hself hclosed).of_same h.sameAmounts

end Accounts

/-! ### Accounting -/

/-- Every input comes with as many data as outputs, and refers to one of them. -/
structure Referenced (v : AnnotatedTransactionVal) : Prop where
  balanced : ∀ a ∈ v.inputs.getD [], a.sourceOutputs.length = a.sourceData.length
  inRange : ∀ a ∈ v.inputs.getD [], a.index.toNat < a.sourceOutputs.length

theorem Referenced.isCounted {v : AnnotatedTransactionVal} (h : Referenced v) :
    ∀ a ∈ v.inputs.getD [], a.isCounted = true := by
  intro a ha
  have hin : a.index.toNat < a.sourceData.length := h.balanced a ha ▸ h.inRange a ha
  rw [AnnotatedCellInputVal.isCounted, AnnotatedCellInputVal.data, List.getElem?_eq_getElem hin]
  rfl

/-- What all inputs are worth. -/
def AnnotatedTransactionVal.inputCapacity (v : AnnotatedTransactionVal) : UInt64 :=
  ((v.inputs.getD []).map AnnotatedCellInputVal.capacity).sum

/-- What all outputs are worth. -/
def AnnotatedTransactionVal.outputCapacity (v : AnnotatedTransactionVal) : UInt64 :=
  ((v.outputs.getD []).map CellOutputVal.capacity).sum

/-- Every input is counted once, and every output, and the amounts that are shown are those of the
outputs. -/
structure Accounted {v : AnnotatedTransactionVal} (t : Transcript env P v) (g : SignState) :
    Prop where
  totalFee : g.maybe.v.totalFee =
    if g.maybe.v.tag = .daoWithdraw then -(v.inputCapacity - v.outputCapacity)
    else v.inputCapacity - v.outputCapacity
  daoInput : g.daoInputAmount = inputTotal (fun a => a.isDao) (v.inputs.getD [])
  plainInput : g.inputAmount.2 = inputTotal (fun a => !a.isDao) (v.inputs.getD [])
  /-- Every output has one kind. -/
  kinds : t.kinds.map Prod.snd = numbered 0 (v.outputs.getD [])
  daoOutput : g.tx.daoOutputAmount = outputTotal .dao t.kinds
  plainOutput : g.tx.plainOutputAmount =
    outputTotal (if g.tx.isSelfTransfer then .change else .plain) t.kinds
  changeOutput : g.tx.changeAmount =
    if g.tx.isSelfTransfer then 0 else outputTotal .change t.kinds
  payments : g.tx.isSelfTransfer = true → ∀ l ∈ t.kinds, l.1 ≠ .plain
  amount : g.maybe.v.tag.isDao = false →
    g.maybe.v.amount.2 = outputTotal (if g.tx.isSelfTransfer then .change else .plain) t.kinds
  lines : g.maybe.v.tag = .multiOutputTransfer →
    ((g.tx.outputs.take g.tx.outputCount).map Output.capacity).sum = g.maybe.v.amount.2

/-- The outputs, kind by kind. -/
theorem sum_outputTotal (ls : List (OutputKind × UInt32 × CellOutputVal)) :
    outputTotal .plain ls + outputTotal .dao ls + outputTotal .change ls =
      (ls.map fun l => l.2.2.capacity).sum := by
  induction ls with
  | nil => rfl
  | cons l ls ih =>
    rw [List.map_cons, List.sum_cons, ← ih]
    obtain ⟨k, i, o⟩ := l
    cases k
    all_goals
      simp only [outputTotal, List.filter_cons, decide_true, decide_false, if_true, if_false,
        List.map_cons, List.sum_cons, reduceCtorEq, Bool.false_eq_true]
      grind

/-- What is counted, one kind after the other. -/
theorem inputTotal_add (p q : AnnotatedCellInputVal → Bool) (as : List AnnotatedCellInputVal) :
    inputTotal (fun a => p a && !q a) as + inputTotal (fun a => p a && q a) as =
      inputTotal p as := by
  induction as with
  | nil => rfl
  | cons a as ih =>
    simp only [inputTotal, List.filter_cons] at ih ⊢
    cases p a <;> cases q a
    all_goals
      simp only [Bool.and_self, Bool.and_true, Bool.and_false, Bool.not_true, Bool.not_false,
        Bool.false_eq_true, if_true, if_false, List.map_cons, List.sum_cons]
      grind

theorem Transcript.map_kinds {v : AnnotatedTransactionVal} (t : Transcript env P v) :
    t.kinds.map (fun l => l.2.2.capacity) = (v.outputs.getD []).map CellOutputVal.capacity := by
  rw [← map_numbered CellOutputVal.capacity 0,
    ← map_classified t.spent.changeLockArg t.spent.daoCellOwner, List.map_map]
  rfl

theorem outputTotal_plain_of_payments {ls : List (OutputKind × UInt32 × CellOutputVal)}
    (h : payments ls = []) : outputTotal .plain ls = 0 := by
  rw [outputTotal, List.map_eq_nil_iff.1 h]
  rfl

section Remainder

variable {v : AnnotatedTransactionVal} {t : Transcript env P v}

theorem Accounts.inputs (h : Accounts t g.books) : g.inputAmount.2 + g.daoInputAmount =
    inputTotal AnnotatedCellInputVal.isCounted (v.inputs.getD []) := by
  rw [show g.inputAmount.2 = _ from h.plainInput, show g.daoInputAmount = _ from h.daoInput,
    inputTotal_add]

theorem Accounts.outputs (h : Accounts t g.books) :
    g.tx.plainOutputAmount + g.tx.daoOutputAmount + g.tx.changeAmount = v.outputCapacity := by
  rw [show g.tx.plainOutputAmount = _ from h.plainOutput,
    show g.tx.daoOutputAmount = _ from h.daoOutput,
    show g.tx.changeAmount = _ from h.changeOutput, AnnotatedTransactionVal.outputCapacity,
    ← t.map_kinds, ← sum_outputTotal]
  cases hself : g.books.isSelfTransfer with
  | false => rfl
  | true =>
    rw [outputTotal_plain_of_payments (h.payments hself)]
    simp only [if_true]
    grind

/-- What is left over is what the inputs are worth without the outputs. -/
theorem Accounts.remainder (h : Accounts t g.books) : g.remainder =
    inputTotal AnnotatedCellInputVal.isCounted (v.inputs.getD []) - v.outputCapacity := by
  rw [SignState.remainder, h.inputs, h.outputs]

end Remainder

/-- The amount of a transfer is that of its lines. -/
theorem Accepted.amount_lines {instruction : UInt8} {ps : List Packet} {prompt : Prompt}
    {v : AnnotatedTransactionVal} {t : Transcript env P v}
    (h : Accepted env P instruction ps prompt g v t) (htag : g.maybe.v.tag.isDao = false)
    (hself : g.tx.isSelfTransfer = false) :
    ((g.tx.outputs.take g.tx.outputCount).map Output.capacity).sum = g.maybe.v.amount.2 := by
  have hplain := h.accounts.plainOutput
  obtain ⟨groups, hlines, hpayments⟩ := h.accounts.lines hself
  have hsum := hlines.sum
  rw [map_capacity_payments hpayments, payments, List.map_map] at hsum
  rw [show g.books.isSelfTransfer = false from hself] at hplain
  rw [h.finalized.operation.amount htag, ← h.finalized.amounts.2.1]
  exact hsum.trans hplain.symm

/-- **Accounting**, for a transaction that comes with the cells which its inputs refer to. -/
theorem Accepted.accounted {instruction : UInt8} {ps : List Packet} {prompt : Prompt}
    {v : AnnotatedTransactionVal} {t : Transcript env P v}
    (h : Accepted env P instruction ps prompt g v t) (hv : Referenced v) : Accounted t g := by
  have haccounts := h.accounts
  have hfinalized := h.finalized
  have hcounted (q : AnnotatedCellInputVal → Bool) :
      inputTotal (fun a => a.isCounted && q a) (v.inputs.getD []) =
        inputTotal q (v.inputs.getD []) := by
    rw [inputTotal, List.filter_congr fun a ha => by rw [hv.isCounted a ha, Bool.true_and]]
    rfl
  have hall : inputTotal AnnotatedCellInputVal.isCounted (v.inputs.getD []) = v.inputCapacity := by
    rw [inputTotal, List.filter_eq_self.2 hv.isCounted]
    rfl
  obtain ⟨hremainder, hplain, -, -, -, -⟩ := hfinalized.amounts
  have hrest : t.stored.remainder = v.inputCapacity - v.outputCapacity := by
    rw [← hremainder, haccounts.remainder, hall]
  have hshown (htag : g.maybe.v.tag.isDao = false) :
      g.maybe.v.amount.2 = g.tx.plainOutputAmount :=
    (hfinalized.operation.amount htag).trans hplain.symm
  exact {
    totalFee := hrest ▸ hfinalized.totalFee
    daoInput := haccounts.daoInput.trans (hcounted _)
    plainInput := haccounts.plainInput.trans (hcounted _)
    kinds := map_classified _ _ _ _
    daoOutput := haccounts.daoOutput
    plainOutput := haccounts.plainOutput
    changeOutput := haccounts.changeOutput
    payments := fun hself l hl hbad => by
      have hnone := List.filter_eq_nil_iff.1 (List.map_eq_nil_iff.1 (haccounts.payments hself)) l hl
      exact hnone (decide_eq_true hbad)
    amount := fun htag => (hshown htag).trans haccounts.plainOutput
    lines := fun htag => h.amount_lines (by rw [htag]; rfl) (haccounts.multiOutput htag) }

/-- **Value accounting.**  When a session leads to the prompt for a transaction whose inputs come
with the cells they refer to, the fee is what the inputs are worth without the outputs, every input
and every output is counted once, and the amounts that are shown are those of the outputs. -/
theorem value_accounted (env : Env) (instruction : UInt8) (ps : List Packet) (prompt : Prompt)
    (g : SignState) (h : signSession env instruction ps = some (prompt, g)) :
    (∃ v, ∃ t : Transcript env (fun _ => True) v,
      Accepted env (fun _ => True) instruction ps prompt g v t) ∧
    ∀ v (t : Transcript env (fun _ => True) v),
      Accepted env (fun _ => True) instruction ps prompt g v t →
        (Referenced v → Accounted t g) := by
  refine ⟨signSession_transcript (fun _ _ => trivial) h, fun v t haccepted => ?_⟩
  exact haccepted.accounted

theorem value_accounted_payment :
    ∃ prompt g v, ∃ t : Transcript Env.reference (fun _ => True) v,
      signSession Env.reference 0x03 (cutPackets 3 payment.encode) = some (prompt, g) ∧
        Referenced v ∧ Accounted t g := by
  have hsome : (signSession Env.reference 0x03 (cutPackets 3 payment.encode)).isSome = true := by
    decide +kernel
  obtain ⟨⟨prompt, g⟩, h⟩ := Option.isSome_iff_exists.1 hsome
  obtain ⟨⟨v, t, haccepted⟩, hall⟩ := value_accounted Env.reference 0x03 _ prompt g h
  have haccounted := hall v t haccepted
  obtain rfl := haccepted.value_eq_cut (by decide +kernel) (by decide) (by decide) (by decide)
  have hreferenced : Referenced payment.value := ⟨by decide, by decide⟩
  exact ⟨prompt, g, _, t, h, hreferenced, haccounted hreferenced⟩

end LedgerNervos
