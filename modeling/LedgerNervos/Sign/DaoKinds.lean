import LedgerNervos.Sign.DataFlag
import LedgerNervos.Sign.Owner

/-!
# The kinds of the deposits

A transaction on deposits makes new ones, prepares their withdrawal, or withdraws them.  Which of
these is found is said by the data of the cells that the inputs refer to, and by those of the
outputs whose numbers have a mark.  `kinds_unmixed_iff` says when this is the operation that all
deposits are about.
-/

namespace LedgerNervos

variable {env : Env} {P : NvramData → Prop} {g g' : SignState}

/-! ### Operations on deposits -/

namespace AnnotatedTransactionVal

/-- A transaction that makes new deposits, and touches no others. -/
structure Deposits (v : AnnotatedTransactionVal) : Prop where
  input : ∀ a ∈ v.inputs.getD [], a.isDao = false
  output : ∀ (i : ℕ) o, (v.outputs.getD [])[i]? = some o → o.isDao = true →
    (v.outputsData.getD [])[i]? = some (List.replicate 8 0)

/-- A transaction that prepares the withdrawal of deposits. -/
structure Prepares (v : AnnotatedTransactionVal) : Prop where
  input : ∀ a ∈ v.inputs.getD [], a.isDao = true → ∃ d, a.data = some d ∧ hasNonzero d = false
  output : ∀ (i : ℕ) o, (v.outputs.getD [])[i]? = some o → o.isDao = true →
    ∃ d, (v.outputsData.getD [])[i]? = some d ∧ hasNonzero d = true

/-- A transaction that withdraws prepared deposits. -/
structure Withdraws (v : AnnotatedTransactionVal) : Prop where
  input : ∀ a ∈ v.inputs.getD [], a.isDao = true → ∃ d, a.data = some d ∧ hasNonzero d = true
  output : ∀ o ∈ v.outputs.getD [], o.isDao = false

/-- The mask has the bit for the output number `i`. -/
def marked (env : Env) (v : AnnotatedTransactionVal) (i : ℕ) : Bool :=
  flagged env (daoMask env (v.outputs.getD [])) (UInt32.ofNat i)

/-- Among the data up to those of the output number `i` there is a byte that is not zero. -/
def nonzeroUpTo (v : AnnotatedTransactionVal) (i : ℕ) : Bool :=
  ((v.outputsData.getD []).take (i + 1)).any hasNonzero

variable {v : AnnotatedTransactionVal}

theorem nonzeroUpTo_eq {i : ℕ} {d : List UInt8} (hd : (v.outputsData.getD [])[i]? = some d) :
    v.nonzeroUpTo i = (((v.outputsData.getD []).take i).any hasNonzero || hasNonzero d) := by
  rw [nonzeroUpTo, List.take_add_one, hd, Option.toList_some, List.any_append, List.any_cons,
    List.any_nil, Bool.or_false]

theorem exists_dao (h : v.daoInputs ++ v.daoOutputs ≠ []) :
    (∃ a ∈ v.inputs.getD [], a.isDao = true) ∨
      ∃ (i : ℕ) (o : CellOutputVal), (v.outputs.getD [])[i]? = some o ∧ o.isDao = true := by
  obtain ⟨o, ho⟩ := List.exists_mem_of_ne_nil _ h
  rcases List.mem_append.1 ho with ho | ho
  · obtain ⟨a, ha, hcell, hdao⟩ := mem_daoInputs.1 ho
    exact .inl ⟨a, ha, by rw [AnnotatedCellInputVal.isDao, hcell]; exact hdao⟩
  · obtain ⟨hmem, hdao⟩ := mem_daoOutputs.1 ho
    obtain ⟨i, hi⟩ := List.mem_iff_getElem?.1 hmem
    exact .inr ⟨i, o, hi, hdao⟩

theorem Deposits.not_prepares (h : v.Deposits) (hne : v.daoInputs ++ v.daoOutputs ≠ []) :
    ¬ v.Prepares := by
  intro h'
  rcases exists_dao hne with ⟨a, ha, hdao⟩ | ⟨i, o, ho, hdao⟩
  · rw [h.input a ha] at hdao
    cases hdao
  · obtain ⟨d, hd, hnonzero⟩ := h'.output i o ho hdao
    obtain rfl := Option.some.inj ((h.output i o ho hdao).symm.trans hd)
    exact absurd hnonzero (by decide)

theorem Deposits.not_withdraws (h : v.Deposits) (hne : v.daoInputs ++ v.daoOutputs ≠ []) :
    ¬ v.Withdraws := by
  intro h'
  rcases exists_dao hne with ⟨a, ha, hdao⟩ | ⟨i, o, ho, hdao⟩
  · rw [h.input a ha] at hdao
    cases hdao
  · rw [h'.output o (List.mem_of_getElem? ho)] at hdao
    cases hdao

theorem Prepares.not_withdraws (h : v.Prepares) (hne : v.daoInputs ++ v.daoOutputs ≠ []) :
    ¬ v.Withdraws := by
  intro h'
  rcases exists_dao hne with ⟨a, ha, hdao⟩ | ⟨i, o, ho, hdao⟩
  · obtain ⟨d, hd, hzero⟩ := h.input a ha hdao
    obtain ⟨d', hd', hnonzero⟩ := h'.input a ha hdao
    obtain rfl := Option.some.inj (hd.symm.trans hd')
    exact absurd (hzero.symm.trans hnonzero) Bool.false_ne_true
  · rw [h'.output o (List.mem_of_getElem? ho)] at hdao
    cases hdao

end AnnotatedTransactionVal

/-! ### The operation of a session -/

theorem InputTaken.kept {b b' : Books} {a : AnnotatedCellInputVal} (h : InputTaken b a b')
    (hdao : b.tag.isDao = true) : b'.tag = b.tag := by
  have htag : b'.tag = if (a.isCounted && a.isDao) = true then withdrawalTag a.hasNonzeroData
      else b.tag := by rw [h.books]
  split_ifs at htag with hcounted
  · refine htag.trans ((h.tag hcounted).resolve_right fun hbad => ?_).symm
    rw [hbad] at hdao
    cases hdao
  · exact htag

theorem OutputTaken.kept {b b' : Books} {l : OutputKind × UInt32 × CellOutputVal}
    (h : OutputTaken env b l b') (hdao : b.tag.isDao = true) : b'.tag = b.tag := by
  have hline := h.line
  split_ifs at hline
  · obtain ⟨p, -, hline⟩ := hline
    cases hline with
    | fresh room tag outputs outputCount =>
      rcases tag with ⟨-, -, htag⟩ | ⟨-, -, -, hbefore⟩
      · exact htag
      · rcases hbefore with hbefore | hbefore
        · rw [hbefore] at hdao
          cases hdao
        · rw [hbefore] at hdao
          cases hdao
    | last open_ tag same outputs outputCount => exact tag
  · exact hline.1

theorem withdrawalTag_isDao (b : Bool) : (withdrawalTag b).isDao = true := by cases b <;> rfl

theorem depositTag_isDao (b : Bool) : (depositTag b).isDao = true := by cases b <;> rfl

/-- What the operation on deposits is found by. -/
structure DaoFound (env : Env) (v : AnnotatedTransactionVal) (tag : OperationTag) : Prop where
  input : ∀ a ∈ v.inputs.getD [], (a.isCounted && a.isDao) = true →
    tag = withdrawalTag a.hasNonzeroData
  output : ∀ (i : ℕ) d, (v.outputsData.getD [])[i]? = some d → v.marked env i = true →
    tag = depositTag (v.nonzeroUpTo i) ∧ d.length = 8
  isDao : tag.isDao = true ↔ v.HasDeposit env

section Session

variable {v : AnnotatedTransactionVal} {t : Transcript env P v} {instruction : UInt8}
  {ps : List Packet} {prompt : Prompt}

/-- The tag behind the data is that of each deposit that an input refers to. -/
theorem Transcript.tag_input (hok : t.last.maybe.hardReject = false)
    (hsafe : t.last.maybe.isUnsafe = false) {a : AnnotatedCellInputVal}
    (ha : a ∈ v.inputs.getD []) (hdao : (a.isCounted && a.isDao) = true) :
    t.stored.maybe.v.tag = withdrawalTag a.hasNonzeroData := by
  have hisDao := withdrawalTag_isDao a.hasNonzeroData
  have hspent : t.spent.books.tag = withdrawalTag a.hasNonzeroData :=
    (t.books_spent hok hsafe).of_mem (I := fun b => b.tag = withdrawalTag a.hasNonzeroData) ha
      (fun b b' hstep => by rw [hstep.books]; exact if_pos hdao)
      fun b a' b' hstep hb => (hstep.kept (by rw [hb]; exact hisDao)).trans hb
  obtain ⟨b, houtputs, hclosed⟩ := t.books_paid hok hsafe
  have hpaid := houtputs.invariant (I := fun b => b.tag = withdrawalTag a.hasNonzeroData) hspent
    fun b l b' _ hstep hb => (hstep.kept (by rw [hb]; exact hisDao)).trans hb
  have hclosedTag : t.paid.books.tag = withdrawalTag a.hasNonzeroData :=
    (hclosed.frame (f := Books.tag) fun _ _ _ _ _ _ _ => rfl).trans hpaid
  exact (t.books_stored hok hsafe).invariant
    (I := fun b => b.tag = withdrawalTag a.hasNonzeroData) hclosedTag
    fun b l b' _ hstep hb => (hstep.kept (by rw [hb]; exact hisDao)).trans hb

/-- The tag behind the data is that of each of the data with a mark. -/
theorem Transcript.tag_output (hok : t.last.maybe.hardReject = false)
    (hsafe : t.last.maybe.isUnsafe = false) (houtputs : v.outputs ≠ none) {i : ℕ} {d : List UInt8}
    (hd : (v.outputsData.getD [])[i]? = some d) (hmarked : v.marked env i = true) :
    t.stored.maybe.v.tag = depositTag (v.nonzeroUpTo i) ∧ d.length = 8 := by
  obtain ⟨g₃, hruns, hlast⟩ := t.takes_outputsData hok hsafe
  have hstored : t.stored.maybe.v.tag = g₃.maybe.v.tag := by
    change t.stored.hashless.maybe.v.tag = g₃.maybe.v.tag
    rcases hlast with h | ⟨n, h⟩
    · rw [h]
    · rw [h]
      rfl
  have hpaid : t.paid.hashless.cellState = { active := true } := t.cell_paid hok hsafe houtputs
  rw [numbered_split hd, UInt32.zero_add] at hruns
  obtain ⟨g₁, hbefore, hruns⟩ := Runs.append_iff.1 hruns
  obtain ⟨g₂, hitem, hbehind⟩ := Runs.cons_iff.1 hruns
  obtain ⟨hactive, hnonzero⟩ := hbefore.dataNonzero (by rw [hpaid])
  have hmask : g₁.tx.daoBitmask = daoMask env (v.outputs.getD []) :=
    (hbefore.frame (f := fun s => s.tx.daoBitmask) fun _ _ _ _ hstep =>
      congrArg Books.daoBitmask (TakeData.effect hstep).1.books).trans (t.daoBitmask_paid hok hsafe)
  have hflag : flagged env g₁.tx.daoBitmask (UInt32.ofNat i) = true := by rw [hmask]; exact hmarked
  have htag : g₂.maybe.v.tag = depositTag (v.nonzeroUpTo i) := by
    rw [hitem.tag hflag, hitem.nonzero.2, hactive, hnonzero, hpaid, Bool.true_and, Bool.false_or,
      AnnotatedTransactionVal.nonzeroUpTo_eq hd]
  refine ⟨hstored.trans ?_, (TakeData.effect hitem).1.length hflag⟩
  exact hbehind.invariant (I := fun s => s.maybe.v.tag = depositTag (v.nonzeroUpTo i)) htag
    fun s l s' _ hstep hs =>
      ((TakeData.effect hstep).1.kept (by
        rw [show s.books.tag = _ from hs]; exact depositTag_isDao _)).trans hs

/-- The operation that is shown is that of all deposits that are found. -/
theorem Accepted.daoFound (h : Accepted env P instruction ps prompt g v t)
    (hv : (v.outputs.getD []).length = (v.outputsData.getD []).length) :
    DaoFound env v g.maybe.v.tag := by
  have hshown {tag : OperationTag} (htag : t.stored.maybe.v.tag = tag) (hdao : tag.isDao = true) :
      g.maybe.v.tag = tag := by
    rcases h.finalized.operation.tag_cases with hsame | ⟨hbefore, -⟩
    · exact hsame.trans htag
    · rw [htag] at hbefore
      rcases hbefore with rfl | rfl <;> cases hdao
  refine ⟨fun a ha hdao => ?_, fun i d hd hmarked => ?_, h.tag_isDao⟩
  · exact hshown (Transcript.tag_input h.hardReject h.isUnsafe ha hdao) (withdrawalTag_isDao _)
  · have houtputs : v.outputs ≠ none := by
      intro hnone
      obtain ⟨hi, -⟩ := List.getElem?_eq_some_iff.1 hd
      rw [← hv, hnone] at hi
      exact absurd hi (Nat.not_lt_zero i)
    obtain ⟨htag, hlength⟩ :=
      Transcript.tag_output h.hardReject h.isUnsafe houtputs hd hmarked
    exact ⟨hshown htag (depositTag_isDao _), hlength⟩

end Session

/-! ### Deposits that do not mix -/

/-- Behind the data of each deposit among the outputs, the flag tells its own kind. -/
def KindsOwn {v : AnnotatedTransactionVal} (t : Transcript env P v) : Prop :=
  ∀ s i, (s, .validateOutputDataStart i) ∈ t.dataTrace →
    ∀ o d, (v.outputs.getD [])[i.toNat]? = some o → o.isDao = true →
      (v.outputsData.getD [])[i.toNat]? = some d →
        ((s.validateOutputDataStart env i).readData d).cellState.daoDataIsNonzero = hasNonzero d

/-- Operations on deposits do not mix: the tag tells the one that all deposits are about, and the
kind of a deposit is its own. -/
structure Unmixed {v : AnnotatedTransactionVal} (t : Transcript env P v) (tag : OperationTag) :
    Prop where
  deposit : tag = .daoDeposit ↔ v.Deposits
  prepare : tag = .daoPrepare ↔ v.Prepares
  withdraw : tag = .daoWithdraw ↔ v.Withdraws
  refused : v.Deposits ∨ v.Prepares ∨ v.Withdraws
  own : KindsOwn t

/-- No byte but zero comes before the data of a new deposit. -/
def ClearBefore (v : AnnotatedTransactionVal) : Prop :=
  ∀ (i : ℕ) o d, (v.outputs.getD [])[i]? = some o → o.isDao = true →
    (v.outputsData.getD [])[i]? = some d → hasNonzero d = false →
      ((v.outputsData.getD []).take i).any hasNonzero = false

/-- When the kinds of the deposits are found: there are data for those that inputs refer to, no byte
but zero comes before the data of a new one, and those whose mark is missing are of the kind of one
that is found. -/
structure KindsFound (env : Env) (v : AnnotatedTransactionVal) : Prop where
  counted : ∀ a ∈ v.inputs.getD [], a.isDao = true → a.isCounted = true
  clear : ClearBefore v
  missed : ∀ (i : ℕ) o d, (v.outputs.getD [])[i]? = some o → o.isDao = true →
    (v.outputsData.getD [])[i]? = some d → v.marked env i = false →
      (hasNonzero d = false → d.length = 8) ∧
        ((∃ j < (v.outputsData.getD []).length, v.marked env j = true ∧
            v.nonzeroUpTo j = hasNonzero d) ∨
          hasNonzero d = true ∧
            ∃ a ∈ v.inputs.getD [], a.isDao = true ∧ a.hasNonzeroData = false)

theorem AnnotatedCellInputVal.counted_dao {a : AnnotatedCellInputVal} (hdao : a.isDao = true)
    (h : a.isCounted = true) :
    (a.isCounted && a.isDao) = true ∧ ∃ d, a.data = some d ∧ a.hasNonzeroData = hasNonzero d := by
  refine ⟨by rw [h, hdao]; rfl, ?_⟩
  obtain ⟨d, hd⟩ := Option.isSome_iff_exists.1 h
  exact ⟨d, hd, by rw [AnnotatedCellInputVal.hasNonzeroData, hd]; rfl⟩

theorem eq_replicate_of_hasNonzero {d : List UInt8} (hzero : hasNonzero d = false)
    (hlength : d.length = 8) : d = List.replicate 8 0 := by
  rw [hasNonzero, List.any_eq_false] at hzero
  exact List.eq_replicate_iff.2 ⟨hlength, fun b hb => by simpa using hzero b hb⟩

theorem withdrawalTag_eq_daoPrepare {b : Bool} : .daoPrepare = withdrawalTag b ↔ b = false := by
  cases b <;> decide

theorem withdrawalTag_eq_daoWithdraw {b : Bool} : .daoWithdraw = withdrawalTag b ↔ b = true := by
  cases b <;> decide

theorem withdrawalTag_ne_daoDeposit {b : Bool} : .daoDeposit ≠ withdrawalTag b := by
  cases b <;> decide

theorem depositTag_eq_daoDeposit {b : Bool} : .daoDeposit = depositTag b ↔ b = false := by
  cases b <;> decide

theorem depositTag_eq_daoPrepare {b : Bool} : .daoPrepare = depositTag b ↔ b = true := by
  cases b <;> decide

theorem depositTag_ne_daoWithdraw {b : Bool} : .daoWithdraw ≠ depositTag b := by
  cases b <;> decide

theorem hasDeposit_iff {v : AnnotatedTransactionVal} : v.HasDeposit env ↔
    (∃ a ∈ v.inputs.getD [], (a.isCounted && a.isDao) = true) ∨
      ∃ (j : ℕ) (d : List UInt8), (v.outputsData.getD [])[j]? = some d ∧
        v.marked env j = true := by
  refine or_congr_right ⟨?_, ?_⟩
  · rintro ⟨l, hl, hflag⟩
    obtain ⟨j, hj, hnumber⟩ := mem_numbered.1 hl
    rw [hnumber, UInt32.zero_add] at hflag
    exact ⟨j, l.2, hj, hflag⟩
  · rintro ⟨j, d, hj, hflag⟩
    exact ⟨(UInt32.ofNat j, d), mem_numbered_of_getElem? hj, hflag⟩

section Found

variable {v : AnnotatedTransactionVal} {t : Transcript env P v} {tag : OperationTag}

/-- Deposits that do not mix are all found, or of a kind that is. -/
theorem DaoFound.kindsFound (h : DaoFound env v tag) (hunmixed : Unmixed t tag)
    (hclear : ClearBefore v) : KindsFound env v := by
  refine ⟨fun a ha hdao => ?_, hclear, fun i o d ho hdao hd _ => ?_⟩
  · rcases hunmixed.refused with hkind | hkind | hkind
    · rw [hkind.input a ha] at hdao
      cases hdao
    · obtain ⟨d, hd, -⟩ := hkind.input a ha hdao
      exact Option.isSome_iff_exists.2 ⟨d, hd⟩
    · obtain ⟨d, hd, -⟩ := hkind.input a ha hdao
      exact Option.isSome_iff_exists.2 ⟨d, hd⟩
  · rcases hunmixed.refused with hkind | hkind | hkind
    · obtain rfl := hunmixed.deposit.2 hkind
      obtain rfl := Option.some.inj (hd.symm.trans (hkind.output i o ho hdao))
      refine ⟨fun _ => rfl, .inl ?_⟩
      rcases hasDeposit_iff.1 (h.isDao.1 rfl) with ⟨a, ha, hfound⟩ | ⟨j, d, hj, hmarked⟩
      · exact absurd (h.input a ha hfound) withdrawalTag_ne_daoDeposit
      · refine ⟨j, (List.getElem?_eq_some_iff.1 hj).1, hmarked, ?_⟩
        exact depositTag_eq_daoDeposit.1 (h.output j d hj hmarked).1
    · obtain rfl := hunmixed.prepare.2 hkind
      obtain ⟨d', hd', hnonzero⟩ := hkind.output i o ho hdao
      obtain rfl := Option.some.inj (hd.symm.trans hd')
      refine ⟨fun hzero => absurd (hzero.symm.trans hnonzero) Bool.false_ne_true, ?_⟩
      rcases hasDeposit_iff.1 (h.isDao.1 rfl) with ⟨a, ha, hfound⟩ | ⟨j, d', hj, hmarked⟩
      · exact .inr ⟨hnonzero, a, ha, (Bool.and_eq_true_iff.1 hfound).2,
          withdrawalTag_eq_daoPrepare.1 (h.input a ha hfound)⟩
      · refine .inl ⟨j, (List.getElem?_eq_some_iff.1 hj).1, hmarked, ?_⟩
        rw [hnonzero]
        exact depositTag_eq_daoPrepare.1 (h.output j d' hj hmarked).1
    · rw [hkind.output o (List.mem_of_getElem? ho)] at hdao
      cases hdao

/-- A deposit in a transaction whose kinds are found leads to an operation on deposits. -/
theorem DaoFound.isDao_of_kindsFound (h : DaoFound env v tag) (hfound : KindsFound env v)
    (hv : (v.outputs.getD []).length = (v.outputsData.getD []).length)
    (hne : v.daoInputs ++ v.daoOutputs ≠ []) : tag.isDao = true := by
  have hinput (a : AnnotatedCellInputVal) (ha : a ∈ v.inputs.getD []) (hdao : a.isDao = true) :
      v.HasDeposit env := .inl ⟨a, ha, (a.counted_dao hdao (hfound.counted a ha hdao)).1⟩
  rw [h.isDao]
  rcases AnnotatedTransactionVal.exists_dao hne with ⟨a, ha, hdao⟩ | ⟨i, o, ho, hdao⟩
  · exact hinput a ha hdao
  · obtain ⟨d, hd⟩ := getElem?_of_length_eq hv ho
    cases hmarked : v.marked env i with
    | true => exact hasDeposit_iff.2 (.inr ⟨i, d, hd, hmarked⟩)
    | false =>
      rcases (hfound.missed i o d ho hdao hd hmarked).2 with
        ⟨j, hj, hmarked, -⟩ | ⟨-, a, ha, hdao, -⟩
      · exact hasDeposit_iff.2 (.inr ⟨j, _, List.getElem?_eq_getElem hj, hmarked⟩)
      · exact hinput a ha hdao

theorem DaoFound.deposits (h : DaoFound env v .daoDeposit) (hfound : KindsFound env v)
    (hv : (v.outputs.getD []).length = (v.outputsData.getD []).length) : v.Deposits := by
  have hinput (a : AnnotatedCellInputVal) (ha : a ∈ v.inputs.getD []) : a.isDao = false := by
    rw [← Bool.not_eq_true]
    intro hdao
    have hcounted := (a.counted_dao hdao (hfound.counted a ha hdao)).1
    exact withdrawalTag_ne_daoDeposit (h.input a ha hcounted)
  refine ⟨hinput, fun i o ho hdao => ?_⟩
  obtain ⟨d, hd⟩ := getElem?_of_length_eq hv ho
  rw [hd]
  cases hmarked : v.marked env i with
  | true =>
    obtain ⟨htag, hlength⟩ := h.output i d hd hmarked
    have hzero := depositTag_eq_daoDeposit.1 htag
    rw [AnnotatedTransactionVal.nonzeroUpTo_eq hd, Bool.or_eq_false_iff] at hzero
    rw [eq_replicate_of_hasNonzero hzero.2 hlength]
  | false =>
    obtain ⟨hlength, hkind⟩ := hfound.missed i o d ho hdao hd hmarked
    have hzero : hasNonzero d = false := by
      rcases hkind with ⟨j, hj, hmarked, hsame⟩ | ⟨-, a, ha, hdao, -⟩
      · rw [← hsame]
        exact depositTag_eq_daoDeposit.1
          (h.output j _ (List.getElem?_eq_getElem hj) hmarked).1
      · rw [hinput a ha] at hdao
        cases hdao
    rw [eq_replicate_of_hasNonzero hzero (hlength hzero)]

theorem DaoFound.prepares (h : DaoFound env v .daoPrepare) (hfound : KindsFound env v)
    (hv : (v.outputs.getD []).length = (v.outputsData.getD []).length) : v.Prepares := by
  refine ⟨fun a ha hdao => ?_, fun i o ho hdao => ?_⟩
  · obtain ⟨hcounted, d, hd, hnonzero⟩ := a.counted_dao hdao (hfound.counted a ha hdao)
    refine ⟨d, hd, ?_⟩
    rw [← hnonzero]
    exact withdrawalTag_eq_daoPrepare.1 (h.input a ha hcounted)
  · obtain ⟨d, hd⟩ := getElem?_of_length_eq hv ho
    refine ⟨d, hd, ?_⟩
    cases hmarked : v.marked env i with
    | true =>
      have hnonzero := depositTag_eq_daoPrepare.1 (h.output i d hd hmarked).1
      rw [AnnotatedTransactionVal.nonzeroUpTo_eq hd] at hnonzero
      by_contra hzero
      rw [Bool.not_eq_true] at hzero
      rw [hfound.clear i o d ho hdao hd hzero, hzero] at hnonzero
      cases hnonzero
    | false =>
      rcases (hfound.missed i o d ho hdao hd hmarked).2 with ⟨j, hj, hmarked, hsame⟩ | ⟨hnonzero, -⟩
      · rw [← hsame]
        exact depositTag_eq_daoPrepare.1
          (h.output j _ (List.getElem?_eq_getElem hj) hmarked).1
      · exact hnonzero

theorem DaoFound.withdraws (h : DaoFound env v .daoWithdraw) (hfound : KindsFound env v)
    (hv : (v.outputs.getD []).length = (v.outputsData.getD []).length) : v.Withdraws := by
  have hinput (a : AnnotatedCellInputVal) (ha : a ∈ v.inputs.getD []) (hdao : a.isDao = true) :
      ∃ d, a.data = some d ∧ a.hasNonzeroData = hasNonzero d ∧ hasNonzero d = true := by
    obtain ⟨hcounted, d, hd, hnonzero⟩ := a.counted_dao hdao (hfound.counted a ha hdao)
    refine ⟨d, hd, hnonzero, ?_⟩
    rw [← hnonzero]
    exact withdrawalTag_eq_daoWithdraw.1 (h.input a ha hcounted)
  refine ⟨fun a ha hdao => ?_, fun o ho => ?_⟩
  · obtain ⟨d, hd, -, hnonzero⟩ := hinput a ha hdao
    exact ⟨d, hd, hnonzero⟩
  · rw [← Bool.not_eq_true]
    intro hdao
    obtain ⟨i, hi⟩ := List.mem_iff_getElem?.1 ho
    obtain ⟨d, hd⟩ := getElem?_of_length_eq hv hi
    cases hmarked : v.marked env i with
    | true => exact depositTag_ne_daoWithdraw (h.output i d hd hmarked).1
    | false =>
      rcases (hfound.missed i o d hi hdao hd hmarked).2 with
        ⟨j, hj, hmarked, -⟩ | ⟨-, a, ha, hdao, hzero⟩
      · exact depositTag_ne_daoWithdraw (h.output j _ (List.getElem?_eq_getElem hj) hmarked).1
      · obtain ⟨d, -, hsame, hnonzero⟩ := hinput a ha hdao
        rw [hsame, hnonzero] at hzero
        cases hzero

/-- Deposits whose kinds are found do not mix. -/
theorem DaoFound.unmixed (h : DaoFound env v tag) (hfound : KindsFound env v) (hown : KindsOwn t)
    (hv : (v.outputs.getD []).length = (v.outputsData.getD []).length)
    (hne : v.daoInputs ++ v.daoOutputs ≠ []) : Unmixed t tag := by
  have hdao := h.isDao_of_kindsFound hfound hv hne
  cases htag : tag
  all_goals rw [htag] at h hdao
  case daoDeposit =>
    have hkind := h.deposits hfound hv
    exact ⟨iff_of_true rfl hkind, iff_of_false nofun (hkind.not_prepares hne),
      iff_of_false nofun (hkind.not_withdraws hne), .inl hkind, hown⟩
  case daoPrepare =>
    have hkind := h.prepares hfound hv
    exact ⟨iff_of_false nofun fun hbad => hbad.not_prepares hne hkind, iff_of_true rfl hkind,
      iff_of_false nofun (hkind.not_withdraws hne), .inr (.inl hkind), hown⟩
  case daoWithdraw =>
    have hkind := h.withdraws hfound hv
    exact ⟨iff_of_false nofun fun hbad => hbad.not_withdraws hne hkind,
      iff_of_false nofun fun hbad => hbad.not_withdraws hne hkind, iff_of_true rfl hkind,
      .inr (.inr hkind), hown⟩
  all_goals cases hdao

end Found

section Session

variable {v : AnnotatedTransactionVal} {t : Transcript env P v} {instruction : UInt8}
  {ps : List Packet} {prompt : Prompt}

/-- The kinds of the deposits are their own if and only if no byte but zero comes before the data of
a new one. -/
theorem Transcript.kindsOwn_iff (hok : t.last.maybe.hardReject = false)
    (hsafe : t.last.maybe.isUnsafe = false) : KindsOwn t ↔ ClearBefore v := by
  obtain ⟨hlength, hannounced⟩ := t.outputsData.1.announced
  have houtputs {i : ℕ} {o : CellOutputVal} (ho : (v.outputs.getD [])[i]? = some o) :
      v.outputs ≠ none := by
    intro hnone
    rw [hnone] at ho
    cases ho
  constructor
  · intro hown i o d ho hdao hd hzero
    have hi : i < (v.outputsData.getD []).length := (List.getElem?_eq_some_iff.1 hd).1
    have hnumber : (UInt32.ofNat i).toNat = i := by
      rw [UInt32.toNat_ofNat']
      exact Nat.mod_eq_of_lt (hi.trans hlength)
    obtain ⟨⟨s, _⟩, hs, rfl⟩ := List.mem_map.1 (hannounced i hi)
    have hkind := hown s _ hs o d (hnumber.symm ▸ ho) hdao (hnumber.symm ▸ hd)
    rw [t.flag_before hok hsafe (houtputs ho) hi hs, hzero, Bool.or_false] at hkind
    exact hkind
  · intro hclear s i hs o d ho hdao hd
    have hi : i.toNat < (v.outputsData.getD []).length := (List.getElem?_eq_some_iff.1 hd).1
    rw [← UInt32.ofNat_toNat (x := i)] at hs ⊢
    rw [t.flag_before hok hsafe (houtputs ho) hi hs]
    cases hnonzero : hasNonzero d with
    | true => exact Bool.or_true _
    | false => rw [hclear i.toNat o d ho hdao hd hnonzero, Bool.or_false]

/-- **Operations on deposits do not mix** if and only if the kinds of the deposits are found. -/
theorem Accepted.unmixed_iff (h : Accepted env P instruction ps prompt g v t)
    (hv : (v.outputs.getD []).length = (v.outputsData.getD []).length)
    (hne : v.daoInputs ++ v.daoOutputs ≠ []) : Unmixed t g.maybe.v.tag ↔ KindsFound env v := by
  have hown := Transcript.kindsOwn_iff (t := t) h.hardReject h.isUnsafe
  have hdao := h.daoFound hv
  constructor
  · exact fun hunmixed => hdao.kindsFound hunmixed (hown.1 hunmixed.own)
  · exact fun hfound => hdao.unmixed hfound (hown.2 hfound.clear) hv hne

end Session

/-- **The kinds of the deposits.**  When a session leads to the prompt for a transaction with
deposits, and with as many data as outputs, operations on deposits do not mix if and only if there
are data for the deposits that inputs refer to, no byte but zero comes before the data of a new
one, and those whose mark is missing are of the kind of one that is found. -/
theorem kinds_unmixed_iff (env : Env) (instruction : UInt8) (ps : List Packet) (prompt : Prompt)
    (g : SignState) (h : signSession env instruction ps = some (prompt, g)) :
    (∃ v, ∃ t : Transcript env (fun _ => True) v,
      Accepted env (fun _ => True) instruction ps prompt g v t) ∧
    ∀ v (t : Transcript env (fun _ => True) v),
      Accepted env (fun _ => True) instruction ps prompt g v t →
        ((v.outputs.getD []).length = (v.outputsData.getD []).length →
          v.daoInputs ++ v.daoOutputs ≠ [] →
            (Unmixed t g.maybe.v.tag ↔ KindsFound env v)) := by
  refine ⟨signSession_transcript (fun _ _ => trivial) h, fun v t haccepted => ?_⟩
  exact haccepted.unmixed_iff

/-- A deposit of 1000 that is prepared for its withdrawal. -/
def preparation : AnnotatedTransaction :=
  { payment with raw := { payment.raw with
      inputs := [⟨⟨.zero 8, ⟨.zero 32, 0⟩⟩, coinbase
        ⟨1000, sighashLock referenceLockArg, some daoTypeScript⟩ (List.replicate 8 0)⟩]
      outputs := [⟨1000, sighashLock referenceLockArg, some daoTypeScript⟩]
      outputsData := [List.replicate 8 1] } }

theorem kinds_unmixed_iff_preparation :
    ∃ prompt g v, ∃ t : Transcript Env.reference (fun _ => True) v,
      signSession Env.reference 0x03 (cutPackets 3 preparation.encode) = some (prompt, g) ∧
        Accepted Env.reference (fun _ => True) 0x03 (cutPackets 3 preparation.encode) prompt g v t ∧
          v.daoOutputs ≠ [] ∧ Unmixed t g.maybe.v.tag := by
  have hsome :
      (signSession Env.reference 0x03 (cutPackets 3 preparation.encode)).isSome = true := by
    decide +kernel
  obtain ⟨⟨prompt, g⟩, h⟩ := Option.isSome_iff_exists.1 hsome
  obtain ⟨⟨v, t, haccepted⟩, hall⟩ := kinds_unmixed_iff Env.reference 0x03 _ prompt g h
  have hiff := hall v t haccepted
  obtain rfl := haccepted.value_eq_cut (by decide +kernel) (by decide) (by decide) (by decide)
  refine ⟨prompt, g, _, t, h, haccepted, by decide, (hiff rfl (by decide)).2
    ⟨by decide, fun i o d _ _ hd hzero => ?_, fun i o d _ _ hd hmarked => ?_⟩⟩
  · match i with
    | 0 => rfl
    | i + 1 => cases hd
  · match i with
    | 0 => exact absurd hmarked (by decide)
    | i + 1 => cases hd

/-- A deposit of which a part is prepared for its withdrawal, and the rest is deposited again. -/
def partialPreparation : AnnotatedTransaction :=
  { preparation with raw := { preparation.raw with
      outputs := [⟨600, sighashLock referenceLockArg, some daoTypeScript⟩,
        ⟨400, sighashLock referenceLockArg, some daoTypeScript⟩]
      outputsData := [List.replicate 8 1, List.replicate 8 0] } }

/-- A deposit behind a prepared one is taken for a prepared one. -/
theorem partialPreparation_mixed :
    ∃ prompt g,
      signSession Env.reference 0x03 (cutPackets 4 partialPreparation.encode) = some (prompt, g) ∧
      ∀ v (t : Transcript Env.reference (fun _ => True) v),
        Accepted Env.reference (fun _ => True) 0x03 (cutPackets 4 partialPreparation.encode) prompt
          g v t → (v.outputs.getD []).length = (v.outputsData.getD []).length ∧
            v.daoInputs ++ v.daoOutputs ≠ [] ∧ ¬ Unmixed t g.maybe.v.tag := by
  have hsome :
      (signSession Env.reference 0x03 (cutPackets 4 partialPreparation.encode)).isSome = true := by
    decide +kernel
  obtain ⟨⟨prompt, g⟩, h⟩ := Option.isSome_iff_exists.1 hsome
  refine ⟨prompt, g, h, fun v t haccepted => ?_⟩
  obtain rfl := haccepted.value_eq_cut (by decide +kernel) (by decide) (by decide) (by decide)
  refine ⟨rfl, by decide, fun hunmixed => ?_⟩
  have hfound := (haccepted.unmixed_iff rfl (by decide)).1 hunmixed
  exact absurd (hfound.clear 1 _ _ rfl (by decide) rfl (by decide)) (by decide)

end LedgerNervos
