import LedgerNervos.Sign.Payments
import LedgerNervos.Sign.Signers

/-!
# The kinds of transfers

Which transfer a transaction without deposits is shown as depends on how many lines its payments
need and on how many sources its inputs have.  `Accepted.classified_iff` says that the screens and
the tag are those that belong to these two numbers, but for one case: a cell with a multisig lock
is not noticed when no data come for it, and then passes in a transfer with several sources.
-/

namespace LedgerNervos

variable {env : Env} {P : NvramData → Prop} {g g' x : SignState}

/-- There is no deposit, neither among the outputs nor among the cells that the inputs refer to. -/
structure AnnotatedTransactionVal.NoDeposit (v : AnnotatedTransactionVal) : Prop where
  output : ∀ o ∈ v.outputs.getD [], o.isDao = false
  cell : ∀ a ∈ v.inputs.getD [], a.isDao = false

/-! ### Tags before the end of the raw transaction -/

/-- The tags that are chosen while the transaction is read. -/
def OperationTag.early : OperationTag → Bool
  | notSet | multiOutputTransfer | daoDeposit | daoPrepare | daoWithdraw => true
  | _ => false

theorem OperationTag.early_cases {tag : OperationTag} (h : tag.early = true)
    (hdao : tag.isDao = false) : tag = .multiOutputTransfer ∨ tag = .notSet := by
  cases tag
  case multiOutputTransfer => exact .inl rfl
  case notSet => exact .inr rfl
  all_goals first
    | exact absurd h (by decide)
    | exact absurd hdao (by decide)

theorem InputTaken.tag_early {b b' : Books} {a : AnnotatedCellInputVal} (h : InputTaken b a b')
    (hb : b.tag.early = true) : b'.tag.early = true := by
  rcases h.tag_cases.1 with h | h | h <;> rw [h]
  · exact hb
  · rfl
  · rfl

theorem OutputTaken.tag_early {b b' : Books} {l : OutputKind × UInt32 × CellOutputVal}
    (h : OutputTaken env b l b') (hb : b.tag.early = true) : b'.tag.early = true := by
  have hline := h.line
  by_cases hplain : l.1 = .plain
  · rw [if_pos hplain] at hline
    obtain ⟨p, -, hline⟩ := hline
    cases hline with
    | fresh room tag outputs outputCount =>
      rcases tag with ⟨-, -, htag⟩ | ⟨-, -, htag, -⟩
      · rwa [htag]
      · rw [htag]
        rfl
    | last open_ tag same outputs outputCount => rwa [tag]
  · rw [if_neg hplain] at hline
    rwa [hline.1]

/-- Some output is a payment, or something goes back. -/
theorem Runs.outputFlags {b b' : Books} {ls : List (OutputKind × UInt32 × CellOutputVal)}
    (h : Runs (OutputTaken env) b ls b') (hne : ls ≠ []) :
    b'.flags.hasDestinationAddress = true ∨ b'.flags.hasChangeAddress = true := by
  have hplain := h.iff_exists (I := fun _ => True) (q := fun l => l.1 = .plain)
    (p := fun b => b.flags.hasDestinationAddress = true) trivial
    fun b l b' hstep _ => ⟨trivial, by rw [hstep.books]; simp⟩
  have hback := h.iff_exists (I := fun _ => True) (q := fun l => l.1 ≠ .plain)
    (p := fun b => b.flags.hasChangeAddress = true) trivial
    fun b l b' hstep _ => ⟨trivial, by rw [hstep.books]; simp⟩
  obtain ⟨l, hl⟩ := List.exists_mem_of_ne_nil ls hne
  by_cases hkind : l.1 = .plain
  · exact .inl (hplain.2 (.inr ⟨l, hl, hkind⟩))
  · exact .inr (hback.2 (.inr ⟨l, hl, hkind⟩))

/-! ### When the outputs are closed -/

/-- Outside operations on deposits, the outputs are those of a transfer to oneself when there are
only ones that go back. -/
theorem outputsEnd_plain (hmask : x.tx.daoBitmask = 0) (htag : x.maybe.v.tag.isDao = false)
    (h : x.outputsEnd = .ok g') : g'.maybe.v.tag = x.maybe.v.tag ∧
      if x.maybe.v.flags.hasDestinationAddress = false ∧ x.maybe.v.flags.hasChangeAddress = true
      then g'.tx.isSelfTransfer = true ∧ g'.tx.outputs = x.tx.outputs.modify 0 fun o =>
        { o with destination := o.destination.write 0 x.changeLockArg.1 }
      else g'.tx.isSelfTransfer = false ∧ g'.tx.outputs = x.tx.outputs := by
  have hself : (!x.maybe.v.flags.hasDestinationAddress && x.maybe.v.flags.hasChangeAddress) = true ↔
      x.maybe.v.flags.hasDestinationAddress = false ∧
        x.maybe.v.flags.hasChangeAddress = true := by simp
  unfold SignState.outputsEnd at h
  dsimp only at h
  split_ifs at h with hdao hplain hamount hcount
  · rcases hdao with hdao | hdao | hdao
    · exact absurd hmask hdao
    · rw [hdao] at htag
      cases htag
    · rw [hdao] at htag
      cases htag
  · obtain rfl := Except.ok.inj h
    rw [Bool.not_eq_true', ← Bool.not_eq_true, hself] at hplain
    rw [if_neg hplain]
    exact ⟨rfl, by simpa using hplain, rfl⟩
  · obtain rfl := Except.ok.inj h
    rw [Bool.not_eq_true', Bool.not_eq_false, hself] at hplain
    rw [if_pos hplain]
    exact ⟨rfl, by simpa using hplain, rfl⟩

theorem daoMask_of_noDeposit {os : List CellOutputVal} (h : ∀ o ∈ os, o.isDao = false) :
    daoMask env os = 0 := by
  have hnone (i : UInt32) (m : UInt64) : (numbered i os).foldl
      (fun m l => if l.2.isDao then m ||| bitInt env l.1 else m) m = m := by
    induction os generalizing i with
    | nil => rfl
    | cons o os ih =>
      obtain ⟨ho, hos⟩ := List.forall_mem_cons.1 h
      rw [numbered, List.foldl_cons, ho, if_neg Bool.false_ne_true]
      exact ih hos (i + 1)
  exact hnone 0 0

/-- There is no deposit in the sense of the screens either. -/
theorem AnnotatedTransactionVal.NoDeposit.not_hasDeposit {v : AnnotatedTransactionVal}
    (h : v.NoDeposit) : ¬ v.HasDeposit env := by
  rintro (⟨a, ha, hdao⟩ | ⟨d, -, hflag⟩)
  · rw [h.cell a ha, Bool.and_false] at hdao
    cases hdao
  · rw [daoMask_of_noDeposit h.output, flagged, UInt64.zero_and] at hflag
    exact absurd hflag (by decide)

theorem hash_write_zero (c : StandardLockArg) :
    LockArg.hash ((Bytes.zero 28).write 0 c.1) = c := by
  apply Subtype.ext
  have hc := c.2
  simp [LockArg.hash, Bytes.write, List.take_take, hc]

section Session

variable {v : AnnotatedTransactionVal} {t : Transcript env P v} {instruction : UInt8}
  {ps : List Packet} {prompt : Prompt}

/-- The books when the outputs are closed. -/
theorem Transcript.books_closing {tr : List (SignState × Callback)}
    (htrace : t.outputTrace = tr ++ [(x, .outputsEnd)])
    (hvisits : Visits (SignState.Step env P) t.spent tr x) (hok : x.maybe.hardReject = false)
    (hsafe : x.maybe.isUnsafe = false) :
    Runs (OutputTaken env) t.spent.books
      (classified t.spent.changeLockArg t.spent.daoCellOwner 0 (v.outputs.getD [])) x.books := by
  obtain ⟨g₁, hruns, hlast⟩ := t.outputs_taken htrace hvisits hok hsafe
  have hbooks : x.hashless.books = g₁.books := by
    rcases hlast with ⟨-, h⟩ | ⟨n, h⟩
    · rw [h]
    · rw [h]
      rfl
  exact hbooks ▸ hruns.outputsTaken

/-- What the state `x`, in which the outputs are closed, says of the transfer that is shown for the
state `g`. -/
structure TransferOf (x g : SignState) : Prop where
  tag : g.maybe.v.tag = if 2 ≤ x.tx.outputCount then .multiOutputTransfer else .notSet
  isSelfTransfer : g.tx.isSelfTransfer = true ↔ x.tx.outputCount = 0
  address : (g.tx.outputs.getD 0 {}).address =
    if x.tx.outputCount = 0 then .sighashAddress x.changeLockArg
    else (x.tx.outputs.getD 0 {}).address

/-- The tag before the end of the raw transaction is one that is chosen while it is read. -/
theorem Accepted.tag_closing (h : Accepted env P instruction ps prompt g v t) (hv : v.NoDeposit)
    (houtputs : Runs (OutputTaken env) t.spent.books t.kinds x.books)
    (hclosed : OutputsClosed x.books t.paid.books) :
    t.stored.maybe.v.tag = x.maybe.v.tag ∧
      (x.maybe.v.tag = .multiOutputTransfer ∨ x.maybe.v.tag = .notSet) := by
  have hspent := (t.books_spent h.hardReject h.isUnsafe).invariant
    (I := fun b => b.tag.early = true) rfl fun b a b' _ hstep hb => hstep.tag_early hb
  have hearly : x.maybe.v.tag.early = true :=
    houtputs.invariant (I := fun b => b.tag.early = true) hspent
      fun b l b' _ hstep hb => hstep.tag_early hb
  have hshown : t.stored.maybe.v.tag.isDao = false := by
    rw [← h.finalized.operation.tag_isDao, ← Bool.not_eq_true, h.tag_isDao]
    exact hv.not_hasDeposit
  have hpaid : t.paid.maybe.v.tag = x.maybe.v.tag :=
    hclosed.frame (f := Books.tag) fun _ _ _ _ _ _ _ => rfl
  have hstored : t.stored.maybe.v.tag = x.maybe.v.tag := by
    rcases (t.books_stored h.hardReject h.isUnsafe).tagChosen with hsame | ⟨-, hdao | hdao⟩
    · exact hsame.trans hpaid
    · rw [show t.stored.maybe.v.tag = _ from hdao] at hshown
      cases hshown
    · rw [show t.stored.maybe.v.tag = _ from hdao] at hshown
      cases hshown
  exact ⟨hstored, OperationTag.early_cases hearly (hstored ▸ hshown)⟩

/-- The books before the end of the raw transaction are those of a transfer. -/
theorem Accepted.transferOf (h : Accepted env P instruction ps prompt g v t)
    (hv : v.NoDeposit) (hne : v.outputs.getD [] ≠ []) :
    ∃ x, (∀ y, (y, Callback.outputsEnd) ∈ t.outputTrace ↔ y = x) ∧ TransferOf x t.stored := by
  obtain ⟨-, -, hpaidOk, -⟩ := t.hardReject_parts h.hardReject
  obtain ⟨-, hpaidSafe, -⟩ := t.isUnsafe_parts h.isUnsafe
  obtain ⟨tr, x, htrace, hvisits, houtput, hworse, hend⟩ := t.outputs_run
  have houtputs : Runs (OutputTaken env) t.spent.books t.kinds x.books :=
    Transcript.books_closing htrace hvisits (hworse.ok hpaidOk) (hworse.safe hpaidSafe)
  have hclosed := SignState.outputsEnd_effect hend
  obtain ⟨hstored, hopen⟩ := h.tag_closing hv houtputs hclosed
  -- the lines say how many destinations there are
  obtain ⟨-, -, hlines₀⟩ := t.fresh_spent h.hardReject h.isUnsafe
  obtain ⟨-, groups, hlines, -⟩ := hvisits.lines houtput (hworse.safe hpaidSafe) hlines₀
  have hcount : x.tx.outputCount = groups.length := hlines.outputCount
  have hmulti : x.maybe.v.tag = .multiOutputTransfer ↔ 2 ≤ x.tx.outputCount := by
    rw [hcount]
    exact hlines.tag
  have hdestination : x.maybe.v.flags.hasDestinationAddress = true ↔ x.tx.outputCount ≠ 0 := by
    rw [hcount, Ne, List.length_eq_zero_iff]
    exact hlines.hasDestination
  have hkinds : t.kinds ≠ [] := by
    intro hnil
    have hmap := t.map_kinds
    rw [hnil] at hmap
    exact hne (List.map_eq_nil_iff.1 hmap.symm)
  have hflags := houtputs.outputFlags hkinds
  have hclear : x.maybe.v.flags.hasDestinationAddress = false ↔ x.tx.outputCount = 0 := by
    rw [← Bool.not_eq_true, hdestination, not_not]
  have hback (hnone : x.tx.outputCount = 0) : x.maybe.v.flags.hasDestinationAddress = false ∧
      x.maybe.v.flags.hasChangeAddress = true :=
    ⟨hclear.2 hnone, hflags.resolve_left fun hbad => hdestination.1 hbad hnone⟩
  have hmask : x.tx.daoBitmask = 0 := by
    have hpaid := t.daoBitmask_paid h.hardReject h.isUnsafe
    rw [daoMask_of_noDeposit hv.output] at hpaid
    exact (hclosed.frame (f := Books.daoBitmask) fun _ _ _ _ _ _ _ => rfl).symm.trans hpaid
  obtain ⟨-, hself⟩ := outputsEnd_plain hmask (by rcases hopen with h | h <;> rw [h] <;> rfl) hend
  -- the data of the outputs leave the lines alone
  have hsame := (t.books_stored h.hardReject h.isUnsafe).frame
    (f := fun b : Books => (b.isSelfTransfer, b.outputs)) fun b l b' _ hstep => by
      rw [hstep.books]
  rw [Prod.mk.injEq] at hsame
  obtain ⟨hsameSelf, hsameOutputs⟩ := hsame
  have hclosing (y : SignState) : (y, Callback.outputsEnd) ∈ t.outputTrace ↔ y = x := by
    rw [htrace, List.mem_append, List.mem_singleton, Prod.mk.injEq]
    exact ⟨fun hy => hy.elim (fun hy => absurd rfl (houtput _ hy).2) And.left,
      fun hy => .inr ⟨hy, rfl⟩⟩
  refine ⟨x, hclosing, ?_, ?_, ?_⟩
  · rw [hstored]
    split_ifs with htwo
    · exact hmulti.2 htwo
    · exact hopen.resolve_left fun hbad => htwo (hmulti.1 hbad)
  · rw [show t.stored.tx.isSelfTransfer = t.paid.tx.isSelfTransfer from hsameSelf]
    by_cases hnone : x.tx.outputCount = 0
    · rw [if_pos (hback hnone)] at hself
      exact iff_of_true hself.1 hnone
    · rw [if_neg fun hbad => hnone (hclear.1 hbad.1)] at hself
      exact iff_of_false (by rw [hself.1]; exact Bool.false_ne_true) hnone
  · rw [show t.stored.tx.outputs = t.paid.tx.outputs from hsameOutputs]
    by_cases hnone : x.tx.outputCount = 0
    · -- the change address takes the place of a destination
      have hfresh : x.tx.outputs = List.replicate maxOutputs {} := by
        obtain ⟨lines, hlineOf, -, houtputs⟩ := hlines.lines
        obtain rfl := List.length_eq_zero_iff.1 (hcount.symm.trans hnone)
        obtain rfl := List.forall₂_nil_right_iff.1 hlineOf
        exact houtputs
      rw [if_pos (hback hnone)] at hself
      rw [hself.2, hfresh, if_pos hnone]
      exact congrArg ScreenValue.sighashAddress (hash_write_zero x.changeLockArg)
    · rw [if_neg fun hbad => hnone (hclear.1 hbad.1)] at hself
      rw [hself.2, if_neg hnone]

end Session

/-! ### The transfer that is shown -/

/-- The transfer that is shown for the state `g` is the one that belongs to the number of lines in
the state `x`, in which the outputs are closed, and to the number of sources. -/
structure Classified (v : AnnotatedTransactionVal) (screens : List Screen) (g x : SignState) :
    Prop where
  multiOutput : g.maybe.v.tag = .multiOutputTransfer ↔ 2 ≤ x.tx.outputCount
  multiInput : g.maybe.v.tag = .multiInputTransfer ↔
    x.tx.outputCount ≤ 1 ∧ 1 < g.distinctInputSources
  selfTransfer : g.maybe.v.tag = .selfTransfer ↔
    x.tx.outputCount = 0 ∧ ¬ 1 < g.distinctInputSources
  plainTransfer : g.maybe.v.tag = .plainTransfer ↔
    x.tx.outputCount = 1 ∧ ¬ 1 < g.distinctInputSources
  /-- The one destination is that of the only line, or the change address. -/
  destination : g.maybe.v.tag ≠ .multiOutputTransfer → ∀ value,
    ⟨.text "Destination", value⟩ ∈ screens ↔ value =
      if x.tx.outputCount = 0 then .sighashAddress x.changeLockArg
      else (x.tx.outputs.getD 0 {}).address
  /-- Several destinations do not go with several sources. -/
  single : ¬ (2 ≤ x.tx.outputCount ∧ 1 < g.distinctInputSources)
  /-- A multisig lock does not go with several sources. -/
  multisig : g.maybe.v.tag = .multiInputTransfer →
    ∀ a ∈ v.inputs.getD [], a.isMultisig = false

/-- The transfer with a number of lines and a number of sources. -/
def transferTag (lines : ℕ) (sources : UInt32) : OperationTag :=
  if 2 ≤ lines then .multiOutputTransfer
  else if 1 < sources then .multiInputTransfer
  else if lines = 0 then .selfTransfer
  else .plainTransfer

theorem transferTag_iff {n : ℕ} {s : UInt32} (h : ¬ (2 ≤ n ∧ 1 < s)) :
    (transferTag n s = .multiOutputTransfer ↔ 2 ≤ n) ∧
      (transferTag n s = .multiInputTransfer ↔ n ≤ 1 ∧ 1 < s) ∧
      (transferTag n s = .selfTransfer ↔ n = 0 ∧ ¬ 1 < s) ∧
      (transferTag n s = .plainTransfer ↔ n = 1 ∧ ¬ 1 < s) := by
  have hsingle : 2 ≤ n → ¬ 1 < s := fun htwo hseveral => h ⟨htwo, hseveral⟩
  unfold transferTag
  split_ifs with htwo hseveral hnone
  all_goals
    simp only [false_iff, true_iff]
    grind

/-- The end of the raw transaction chooses the transfer. -/
theorem Operation.transferTag {w : ParsedTransaction} (h : Operation g w) (hx : TransferOf x g) :
    w.tag = LedgerNervos.transferTag x.tx.outputCount g.distinctInputSources ∧
      ¬ (2 ≤ x.tx.outputCount ∧ 1 < g.distinctInputSources) ∧
      (1 < g.distinctInputSources → g.signingMultisigInput = false) := by
  obtain ⟨hstored, hself, -⟩ := hx
  have hfew (tag : OperationTag) (hne : tag ≠ .multiOutputTransfer) (htag : g.maybe.v.tag = tag) :
      ¬ 2 ≤ x.tx.outputCount := fun htwo => by
    rw [hstored, if_pos htwo] at htag
    exact hne htag.symm
  have hother (tag : OperationTag) (hne : tag ≠ .multiOutputTransfer) (hset : tag ≠ .notSet)
      (htag : g.maybe.v.tag = tag) : False := by
    have hfew := hfew tag hne htag
    rw [hstored, if_neg hfew] at htag
    exact hset htag.symm
  unfold LedgerNervos.transferTag
  cases h with
  | single stored single tag amount =>
    have hfew : ¬ 2 ≤ x.tx.outputCount := by
      rcases stored with stored | stored
      · exact hfew _ (by decide) stored
      · exact hfew _ (by decide) stored
    rw [tag, if_neg hfew, if_neg single]
    exact ⟨if_congr hself rfl rfl, fun hbad => hfew hbad.1, fun hbad => absurd hbad single⟩
  | multiInputTransfer stored several single signing tag inputCount amount =>
    have hfew : ¬ 2 ≤ x.tx.outputCount := by
      rcases stored with stored | stored
      · exact hfew _ (by decide) stored
      · exact hfew _ (by decide) stored
    rw [tag, if_neg hfew, if_pos several]
    exact ⟨rfl, fun hbad => hfew hbad.1, fun _ => single⟩
  | multiOutputTransfer stored single tag amount =>
    have htwo : 2 ≤ x.tx.outputCount := by
      by_contra hfew
      rw [hstored, if_neg hfew] at stored
      cases stored
    rw [tag, if_pos htwo]
    exact ⟨rfl, fun hbad => single hbad.2, fun hbad => absurd hbad single⟩
  | selfTransfer stored tag amount => exact (hother _ (by decide) (by decide) stored).elim
  | daoDeposit stored tag daoAmount => exact (hother _ (by decide) (by decide) stored).elim
  | daoPrepare stored tag balance daoAmount => exact (hother _ (by decide) (by decide) stored).elim
  | daoWithdraw stored tag daoOutput plainOutput daoAmount =>
    exact (hother _ (by decide) (by decide) stored).elim

/-- The screens for a transfer with one line show its destination. -/
theorem destination_mem {nd : NvramData} {screens : List Screen}
    (htag : g.maybe.v.tag = .plainTransfer ∨ g.maybe.v.tag = .selfTransfer ∨
      g.maybe.v.tag = .multiInputTransfer)
    (h : g.screens nd = some screens) (value : ScreenValue) :
    ⟨.text "Destination", value⟩ ∈ screens ↔ value = (g.tx.outputs.getD 0 {}).address := by
  unfold SignState.screens at h
  dsimp only at h
  rcases htag with hplain | hself | hsources
  · -- the screen for contract data may follow
    rw [hplain] at h
    obtain rfl := Option.some.inj h
    by_cases hallow : nd.contractDataType = .allow
    · simp [hallow]
    · simp [hallow]
  · rw [hself] at h
    obtain rfl := Option.some.inj h
    simp
  · rw [hsources] at h
    obtain rfl := Option.some.inj h
    simp

/-- The end of the raw transaction, and the witnesses, count no sources. -/
theorem Transcript.sources_last {v : AnnotatedTransactionVal} (t : Transcript env P v) :
    t.last.distinctInputSources = t.stored.distinctInputSources := by
  have hlast := congrArg SignState.distinctInputSources t.unwitnessed_last
  obtain ⟨_, _, _, -, hstep⟩ := t.finalize
  simp only [dispatch, Except.ok.injEq, Prod.mk.injEq] at hstep
  refine hlast.trans (Eq.trans (b := t.finalized.distinctInputSources) rfl ?_)
  rw [← hstep.1]
  unfold SignState.finalizeRawTransaction
  dsimp only
  split <;> (try split_ifs) <;> rfl

section Session

variable {v : AnnotatedTransactionVal} {t : Transcript env P v} {instruction : UInt8}
  {ps : List Packet} {prompt : Prompt}

/-- **The kinds of transfers** are those that belong to the numbers of lines and of sources, if and
only if data come for the cells with a multisig lock when there are several sources. -/
theorem Accepted.classified_iff (h : Accepted env P instruction ps prompt g v t)
    (hv : v.NoDeposit) (hne : v.outputs.getD [] ≠ []) :
    ∃ x, (∀ y, (y, Callback.outputsEnd) ∈ t.outputTrace ↔ y = x) ∧
      (Classified v prompt.screens g x ↔ (1 < g.distinctInputSources →
        ∀ a ∈ v.inputs.getD [], a.isMultisig = true → a.isCounted = true)) := by
  obtain ⟨x, hx, hstored, hself, haddress⟩ := h.transferOf hv hne
  obtain ⟨nd, -, hprompt⟩ := h.complete
  have hscreens := SignState.signComplete_screens hprompt
  have hsources : g.distinctInputSources = t.stored.distinctInputSources := by
    rw [h.last]
    exact t.sources_last
  have houtputs : g.tx.outputs = t.stored.tx.outputs :=
    congrArg Books.outputs h.finalized.books
  have hmultisig := t.multisig_stored h.hardReject h.isUnsafe
  obtain ⟨htag, hsingle, hrefused⟩ := h.finalized.operation.transferTag ⟨hstored, hself, haddress⟩
  rw [← hsources] at htag hsingle hrefused
  obtain ⟨hmultiOutput, hmultiInput, hselfTransfer, hplain⟩ := transferTag_iff hsingle
  rw [← htag] at hmultiOutput hmultiInput hselfTransfer hplain
  refine ⟨x, hx, fun hclassified hseveral a ha hmulti => ?_, fun hcounted => ?_⟩
  · have hfew : ¬ 2 ≤ x.tx.outputCount := fun htwo => hsingle ⟨htwo, hseveral⟩
    have hnone := hclassified.multisig (hmultiInput.2 ⟨by omega, hseveral⟩) a ha
    rw [hnone] at hmulti
    cases hmulti
  · refine ⟨hmultiOutput, hmultiInput, hselfTransfer, hplain, fun hone value => ?_, hsingle,
      fun hinput a ha => ?_⟩
    · have hfew : ¬ 2 ≤ x.tx.outputCount := fun htwo => hone (hmultiOutput.2 htwo)
      rw [destination_mem ?_ hscreens, houtputs, haddress]
      by_cases hseveral : 1 < g.distinctInputSources
      · exact .inr (.inr (hmultiInput.2 ⟨by omega, hseveral⟩))
      · by_cases hnone : x.tx.outputCount = 0
        · exact .inr (.inl (hselfTransfer.2 ⟨hnone, hseveral⟩))
        · exact .inl (hplain.2 ⟨by omega, hseveral⟩)
    · -- a cell that has been counted would have been noticed
      have hseveral := (hmultiInput.1 hinput).2
      rw [← Bool.not_eq_true]
      intro hmulti
      have hnoticed := hmultisig.2 ⟨a, ha, by
        rw [hcounted hseveral a ha hmulti, hv.cell a ha, hmulti]
        rfl⟩
      rw [hrefused hseveral] at hnoticed
      cases hnoticed

end Session

/-- **Transfer classification.**  When a session leads to the prompt for a transaction with outputs
and without deposits, the transfer that is shown is the one that belongs to the number of lines
when the outputs are closed, and to the number of sources, if and only if data come for the cells
with a multisig lock when there are several sources. -/
theorem transfers_classified_iff (env : Env) (instruction : UInt8) (ps : List Packet)
    (prompt : Prompt) (g : SignState) (h : signSession env instruction ps = some (prompt, g)) :
    (∃ v, ∃ t : Transcript env (fun _ => True) v,
      Accepted env (fun _ => True) instruction ps prompt g v t) ∧
    ∀ v (t : Transcript env (fun _ => True) v),
      Accepted env (fun _ => True) instruction ps prompt g v t →
        (v.NoDeposit → v.outputs.getD [] ≠ [] →
          ∃ x, (∀ y, (y, Callback.outputsEnd) ∈ t.outputTrace ↔ y = x) ∧
            (Classified v prompt.screens g x ↔ (1 < g.distinctInputSources →
              ∀ a ∈ v.inputs.getD [], a.isMultisig = true → a.isCounted = true))) := by
  refine ⟨signSession_transcript (fun _ _ => trivial) h, fun v t haccepted => ?_⟩
  exact haccepted.classified_iff

/-- A payment of two owners. -/
def jointPayment : AnnotatedTransaction :=
  { payment with
    inputCount := 2
    raw := { payment.raw with inputs := payment.raw.inputs ++
      [⟨⟨.zero 8, ⟨.zero 32, 0⟩⟩, coinbase ⟨500, sighashLock (List.replicate 20 9), none⟩ []⟩] } }

theorem transfers_classified_iff_jointPayment :
    ∃ prompt g v, ∃ t : Transcript Env.reference (fun _ => True) v,
      signSession Env.reference 0x03 (cutPackets 5 jointPayment.encode) = some (prompt, g) ∧
        g.maybe.v.tag = .multiInputTransfer ∧
        ∃ x, (∀ y, (y, Callback.outputsEnd) ∈ t.outputTrace ↔ y = x) ∧
          Classified v prompt.screens g x := by
  have hsome : (signSession Env.reference 0x03 (cutPackets 5 jointPayment.encode)).any
      (fun r => r.2.maybe.v.tag = .multiInputTransfer) = true := by
    decide +kernel
  obtain ⟨⟨prompt, g⟩, h, htag⟩ := (Option.any_eq_true _ _).1 hsome
  obtain ⟨⟨v, t, haccepted⟩, hall⟩ := transfers_classified_iff Env.reference 0x03 _ prompt g h
  have hiff := hall v t haccepted
  obtain rfl := haccepted.value_eq_cut (by decide +kernel) (by decide) (by decide) (by decide)
  obtain ⟨x, hx, hiff⟩ := hiff ⟨by decide, by decide⟩ (by decide)
  exact ⟨prompt, g, _, t, h, of_decide_eq_true htag, x, hx, hiff.2 fun _ => by decide⟩

/-- A payment of the owner of the key, and of a cell with a multisig lock in a transaction that
comes without data. -/
def datalessMultisig : AnnotatedTransaction :=
  { payment with
    inputCount := 2
    raw := { payment.raw with inputs := payment.raw.inputs ++
      [⟨⟨.zero 8, ⟨.zero 32, 0⟩⟩, { coinbase ⟨500, ⟨⟨multisigLockScript,
        length_multisigLockScript⟩, 1, List.replicate 20 9⟩, none⟩ [] with outputsData := [] }⟩] } }

/-- A cell with a multisig lock passes in a transfer with several sources when no data come for
it. -/
theorem datalessMultisig_unrefused :
    ∃ prompt g, signSession Env.reference 0x03 (cutPackets 5 datalessMultisig.encode) =
        some (prompt, g) ∧
      ∀ v (t : Transcript Env.reference (fun _ => True) v),
        Accepted Env.reference (fun _ => True) 0x03 (cutPackets 5 datalessMultisig.encode) prompt g
          v t → v.NoDeposit ∧ v.outputs.getD [] ≠ [] ∧ ∀ x, ¬ Classified v prompt.screens g x := by
  have hsome : (signSession Env.reference 0x03 (cutPackets 5 datalessMultisig.encode)).any
      (fun r => r.2.maybe.v.tag = .multiInputTransfer) = true := by
    decide +kernel
  obtain ⟨⟨prompt, g⟩, h, htag⟩ := (Option.any_eq_true _ _).1 hsome
  refine ⟨prompt, g, h, fun v t haccepted => ?_⟩
  obtain rfl := haccepted.value_eq_cut (by decide +kernel) (by decide) (by decide) (by decide)
  refine ⟨⟨by decide, by decide⟩, by decide, fun x hclassified => ?_⟩
  exact absurd (hclassified.multisig (of_decide_eq_true htag)) (by decide)

end LedgerNervos
