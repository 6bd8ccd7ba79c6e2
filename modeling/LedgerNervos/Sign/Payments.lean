import LedgerNervos.Sign.Accounting
import LedgerNervos.Sign.Strict

/-!
# Payments

Every output that goes to others should be found on the screens, with its destination.  The
payments of a session are those in the record of its calls (`Transcript.payments`); they are kept
in the lines of the books, whatever the operation turns out to be, but the operations on deposits
do not show these lines.
-/

namespace LedgerNervos

variable {env : Env} {P : NvramData → Prop} {g g' : SignState}

/-! ### The payments of a session -/

/-- Only the end of an output changes the books. -/
theorem SignState.Step.books_output {e : Callback} (h : g.Step env P e g') (he : e.OfOutput)
    (hend : e ≠ .outputEnd) : g'.books = g.books := by
  obtain ⟨nd, io, io', -, hd⟩ := h
  obtain ⟨hpart, hends⟩ := he
  cases e
  case outputEnd => exact absurd rfl hend
  case outputsEnd => exact absurd rfl hends
  all_goals try (rcases hpart with hpart | hpart <;> exact Part.noConfusion hpart)
  all_goals
    simp only [dispatch, Except.ok.injEq, Prod.mk.injEq] at hd
    rw [← hd.1]
  case scriptArgChunk buf =>
    unfold SignState.scriptArgChunk
    dsimp only
    split_ifs
    · rfl
    · rfl
    · split
      · rfl
      · rfl
  case computeNewOffsetsToHash header =>
    have hsame := congrArg SignState.books (hashless_computeNewOffsetsToHash g header)
    exact hsame
  case cellCapacity bs =>
    unfold SignState.cellCapacity
    split_ifs <;> rfl
  case cellLockCodeHash bs =>
    unfold SignState.cellLockCodeHash
    split_ifs <;> rfl
  case cellScriptHashType b =>
    unfold SignState.cellScriptHashType
    split_ifs <;> rfl
  case cellTypeCodeHash bs =>
    unfold SignState.cellTypeCodeHash
    split_ifs <;> rfl
  case cellTypeArgLength length =>
    unfold SignState.cellTypeArgLength
    split_ifs <;> rfl
  case setCellDataSize size =>
    unfold SignState.setCellDataSize
    split_ifs <;> rfl
  case checkCellDataDataChunk bs =>
    unfold SignState.checkCellDataDataChunk
    split_ifs <;> rfl
  all_goals rfl

/-- The payments in a record of calls. -/
def paymentsIn (trace : List (SignState × Callback)) : List Output :=
  (trace.filter fun x => x.2 = .outputEnd && x.1.isPayment).map fun x => x.1.payment

theorem paymentsIn_append (tr tr' : List (SignState × Callback)) :
    paymentsIn (tr ++ tr') = paymentsIn tr ++ paymentsIn tr' := by
  rw [paymentsIn, List.filter_append, List.map_append]
  rfl

/-- A call for an output adds a payment to the lines, if there is one. -/
theorem SignState.Step.lines {e : Callback} {groups : List (List Output)}
    (h : g.Step env P e g') (he : e.OfOutput) (hsafe : g'.maybe.isUnsafe = false)
    (hlines : Lines g.books groups) :
    g'.books.isSelfTransfer = g.books.isSelfTransfer ∧ ∃ groups', Lines g'.books groups' ∧
      groups'.flatten = groups.flatten ++ paymentsIn [(g, e)] := by
  by_cases hend : e = .outputEnd
  · subst hend
    obtain ⟨nd, io, io', -, hd⟩ := h
    simp only [dispatch, map_eq_ok_iff, Prod.mk.injEq] at hd
    obtain ⟨g₁, hd, rfl, -⟩ := hd
    by_cases hpayment : g.isPayment = true
    · have hpayments : paymentsIn [(g, .outputEnd)] = [g.payment] := by
        simp [paymentsIn, hpayment]
      obtain ⟨hline, hbooks⟩ := outputEnd_payment hpayment hd hsafe
      rw [hpayments]
      exact ⟨by rw [hbooks], hline.lines hlines (by rw [hbooks])⟩
    · have hpayments : paymentsIn [(g, .outputEnd)] = [] := by simp [paymentsIn, hpayment]
      rw [hpayments, List.append_nil]
      cases hdao : g.cellState.isDao with
      | true =>
        obtain ⟨-, rfl⟩ := outputEnd_dao hdao hd hsafe
        exact ⟨rfl, groups, hlines.of_eq rfl rfl rfl rfl, rfl⟩
      | false =>
        have hback : g.cellState.lockArgNonequal = false ∧ g.cellState.isMultisig = false := by
          simpa [SignState.isPayment, hdao] using hpayment
        obtain rfl := outputEnd_change hdao hback.1 hback.2 hd
        exact ⟨rfl, groups, hlines.of_eq rfl rfl rfl rfl, rfl⟩
  · have hpayments : paymentsIn [(g, e)] = [] := by simp [paymentsIn, hend]
    rw [hpayments, List.append_nil, h.books_output he hend]
    exact ⟨rfl, groups, hlines, rfl⟩

/-- The lines stand for the payments in the record of the calls. -/
theorem Visits.lines {tr : List (SignState × Callback)} {groups : List (List Output)}
    (h : Visits (SignState.Step env P) g tr g') (htr : ∀ x ∈ tr, x.2.OfOutput)
    (hsafe : g'.maybe.isUnsafe = false) (hlines : Lines g.books groups) :
    g'.books.isSelfTransfer = g.books.isSelfTransfer ∧ ∃ groups', Lines g'.books groups' ∧
      groups'.flatten = groups.flatten ++ paymentsIn tr := by
  induction h generalizing groups with
  | nil s => exact ⟨rfl, groups, hlines, (List.append_nil _).symm⟩
  | @cons s s₁ s' e tr h₁ h ih =>
    obtain ⟨he, htr⟩ := List.forall_mem_cons.1 htr
    obtain ⟨hself₁, groups₁, hlines₁, hflatten₁⟩ := h₁.lines he (h.runs.isUnsafe hsafe) hlines
    obtain ⟨hself', groups', hlines', hflatten'⟩ := ih htr hsafe hlines₁
    refine ⟨hself'.trans hself₁, groups', hlines', ?_⟩
    rw [hflatten', hflatten₁, List.append_assoc, ← paymentsIn_append]
    rfl

section Session

variable {v : AnnotatedTransactionVal} (t : Transcript env P v) {instruction : UInt8}
  {ps : List Packet} {prompt : Prompt}

/-- **The payments** of a session: the outputs that go to others, as they are found when they have
been read. -/
def Transcript.payments : List Output := paymentsIn t.outputTrace

/-- The payments are found before the outputs are closed. -/
theorem Transcript.payments_eq {tr : List (SignState × Callback)} {g₁ : SignState}
    (h : t.outputTrace = tr ++ [(g₁, .outputsEnd)]) : t.payments = paymentsIn tr := by
  rw [Transcript.payments, h, paymentsIn_append]
  exact List.append_nil _

/-- The lines stand for the payments, before the outputs are closed. -/
theorem Transcript.lines_outputs (hok : t.last.maybe.hardReject = false)
    (hsafe : t.last.maybe.isUnsafe = false) :
    ∃ b groups, Lines b groups ∧ groups.flatten = t.payments ∧ b.isSelfTransfer = false ∧
      OutputsClosed b t.paid.books := by
  obtain ⟨tr, s, htrace, hvisits, houtput, hworse, hend⟩ := t.outputs_run
  obtain ⟨_, hpaid, -⟩ := t.isUnsafe_parts hsafe
  obtain ⟨_, hself₀, hlines₀⟩ := t.fresh_spent hok hsafe
  obtain ⟨hself, groups, hlines, hflatten⟩ :=
    hvisits.lines houtput (hworse.safe hpaid) hlines₀
  exact ⟨s.books, groups, hlines, hflatten.trans (t.payments_eq htrace).symm,
    hself.trans hself₀,
    SignState.outputsEnd_effect hend⟩

end Session

/-- What closing the outputs makes of the lines. -/
theorem Lines.closed {b b' : Books} {groups : List (List Output)} (h : Lines b groups)
    (hself : b.isSelfTransfer = false) (hclosed : OutputsClosed b b') :
    (b'.isSelfTransfer = false → Lines b' groups) ∧ (b'.isSelfTransfer = true → groups = []) := by
  cases hclosed with
  | kept books isSelfTransfer =>
    constructor
    · intro _
      rw [books]
      exact h.of_eq rfl rfl rfl rfl
    · intro hbad
      exact absurd (hself.symm.trans (isSelfTransfer hbad)) Bool.false_ne_true
  | selfTransfer plainOutput outputCount destination books =>
    refine ⟨fun hbad => ?_, fun _ => ?_⟩
    · rw [books] at hbad
      cases hbad
    · exact List.length_eq_zero_iff.1 (h.outputCount.symm.trans outputCount)

/-- The payments of a session, in the lines of the state when the prompt is shown; there are none
in a transfer to oneself. -/
theorem Accepted.paymentLines {v : AnnotatedTransactionVal} {t : Transcript env P v}
    {instruction : UInt8} {ps : List Packet} {prompt : Prompt}
    (h : Accepted env P instruction ps prompt g v t) :
    ∃ groups, groups.flatten = t.payments ∧
      (g.tx.isSelfTransfer = false → Lines g.books groups) ∧
      (g.tx.isSelfTransfer = true → groups = []) := by
  obtain ⟨b, groups, hlines, hflatten, hself, hclosed⟩ := t.lines_outputs h.hardReject h.isUnsafe
  obtain ⟨hkept, hnone⟩ := hlines.closed hself hclosed
  have hsame : g.tx.isSelfTransfer = t.paid.tx.isSelfTransfer :=
    congrArg Books.isSelfTransfer h.sameAmounts.books
  rw [hsame]
  exact ⟨groups, hflatten, fun hself => h.sameAmounts.lines (hkept hself), hnone⟩

/-! ### Operations on deposits -/

/-- There is a deposit: an input refers to one, or the data of an output are taken for those of
one. -/
def AnnotatedTransactionVal.HasDeposit (env : Env) (v : AnnotatedTransactionVal) : Prop :=
  (∃ a ∈ v.inputs.getD [], (a.isCounted && a.isDao) = true) ∨
  ∃ d ∈ numbered 0 (v.outputsData.getD []),
    flagged env (daoMask env (v.outputs.getD [])) d.1 = true

theorem InputTaken.tag_isDao {b b' : Books} {a : AnnotatedCellInputVal} (h : InputTaken b a b') :
    b'.tag.isDao = true ↔ b.tag.isDao = true ∨ (a.isCounted && a.isDao) = true := by
  have htag : b'.tag = if (a.isCounted && a.isDao) = true then withdrawalTag a.hasNonzeroData
      else b.tag := by rw [h.books]
  rw [htag]
  split_ifs with hdao
  · refine iff_of_true ?_ (.inr hdao)
    cases a.hasNonzeroData
    · rfl
    · rfl
  · exact ⟨.inl, fun h => h.resolve_right hdao⟩

theorem OutputTaken.tag_isDao {b b' : Books} {l : OutputKind × UInt32 × CellOutputVal}
    (h : OutputTaken env b l b') : b'.tag.isDao = b.tag.isDao := by
  have hline := h.line
  by_cases hplain : l.1 = .plain
  · rw [if_pos hplain] at hline
    obtain ⟨p, -, hline⟩ := hline
    cases hline with
    | fresh room tag outputs outputCount =>
      rcases tag with ⟨-, -, htag⟩ | ⟨-, -, htag, hbefore⟩
      · rw [htag]
      · rcases hbefore with hbefore | hbefore
        · rw [htag, hbefore]
          rfl
        · rw [htag, hbefore]
    | last open_ tag same outputs outputCount => rw [tag]
  · rw [if_neg hplain] at hline
    rw [hline.1]

theorem DataTaken.tag_isDao {b b' : Books} {l : UInt32 × List UInt8} (h : DataTaken env b l b') :
    b'.tag.isDao = true ↔ b.tag.isDao = true ∨ flagged env b.daoBitmask l.1 = true := by
  have htag := h.tag
  by_cases hflag : flagged env b.daoBitmask l.1 = true
  · rw [if_pos hflag] at htag
    refine iff_of_true ?_ (.inr hflag)
    rcases htag.1 with htag | htag
    · rw [htag]
      rfl
    · rw [htag]
      rfl
  · rw [if_neg hflag] at htag
    rw [htag]
    exact ⟨.inl, fun h => h.resolve_right hflag⟩

/-- An operation on deposits is shown if and only if there is a deposit. -/
theorem Accepted.tag_isDao {v : AnnotatedTransactionVal} {t : Transcript env P v}
    {instruction : UInt8} {ps : List Packet} {prompt : Prompt}
    (h : Accepted env P instruction ps prompt g v t) :
    g.maybe.v.tag.isDao = true ↔ v.HasDeposit env := by
  have hok := h.hardReject
  have hsafe := h.isUnsafe
  have hspent := (t.books_spent hok hsafe).iff_exists (I := fun _ => True)
    (p := fun b => b.tag.isDao = true) trivial fun _ _ _ hstep _ => ⟨trivial, hstep.tag_isDao⟩
  have hpaid : t.paid.books.tag.isDao = t.spent.books.tag.isDao :=
    t.paid_frame (f := fun b => b.tag.isDao) hok hsafe (fun _ _ _ hstep => hstep.tag_isDao)
      fun _ _ _ _ _ _ _ => rfl
  have hstored := (t.books_stored hok hsafe).iff_exists
    (I := fun b => b.daoBitmask = daoMask env (v.outputs.getD []))
    (p := fun b => b.tag.isDao = true)
    (q := fun l => flagged env (daoMask env (v.outputs.getD [])) l.1 = true)
    (t.daoBitmask_paid hok hsafe) fun b l b' hstep hb => by
      refine ⟨?_, hb ▸ hstep.tag_isDao⟩
      rw [hstep.books]
      exact hb
  have hopening : ¬ (Books.opening t.opened.currentLockArg t.opened.changeLockArg).tag.isDao =
      true := Bool.false_ne_true
  have hlast : g.maybe.v.tag.isDao = t.stored.books.tag.isDao := h.finalized.operation.tag_isDao
  rw [hlast, hstored, hpaid, hspent, or_iff_right hopening]
  rfl

/-! ### What the screens show -/

/-- The destinations on the screens, each with the amount that is shown for it. -/
def shownPayments (screens : List Screen) : List (UInt64 × ScreenValue) :=
  let find (title : String) : Option ScreenValue :=
    (screens.find? fun s => s.title = .text title).map Screen.value
  let amount : Option UInt64 := match find "Amount" with
    | some (.amount n) => some n
    | some (.amountOf n) => some n.2
    | _ => none
  (screens.filterMap fun s => match s.value with
    | .output o => some (o.capacity, o.address)
    | _ => none) ++
  match amount, find "Destination" with
  | some n, some address => [(n, address)]
  | _, _ => []

/-- The destinations that belong to the operation of a state. -/
def SignState.shownPayments (g : SignState) : List (UInt64 × ScreenValue) :=
  match g.maybe.v.tag with
  | .plainTransfer | .selfTransfer | .multiInputTransfer =>
    [(g.maybe.v.amount.2, (g.tx.outputs.getD 0 {}).address)]
  | .multiOutputTransfer =>
    (g.tx.outputs.take g.tx.outputCount).map fun o => (o.capacity, o.address)
  | _ => []

/-- An operation on deposits shows no destination. -/
theorem shownPayments_of_isDao (h : g.maybe.v.tag.isDao = true) : g.shownPayments = [] := by
  unfold SignState.shownPayments
  split
  all_goals first
    | rfl
    | (rename_i htag; rw [htag] at h; exact absurd h Bool.false_ne_true)

/-- Only a transfer with several outputs shows more than one destination. -/
theorem length_shownPayments_le (h : g.maybe.v.tag ≠ .multiOutputTransfer) :
    g.shownPayments.length ≤ 1 := by
  unfold SignState.shownPayments
  split
  case h_4 htag => exact absurd htag h
  all_goals first
    | exact Nat.le_refl 1
    | exact Nat.zero_le 1

/-- The destinations on the screens. -/
theorem shownPayments_screens {nd : NvramData} {screens : List Screen}
    (hcount : g.maybe.v.tag = .multiOutputTransfer → g.tx.outputCount ≤ g.tx.outputs.length)
    (h : g.screens nd = some screens) : shownPayments screens = g.shownPayments := by
  have haddress (o : Output) : (match o.address with
      | .output o => some (o.capacity, o.address)
      | _ => none) = none := by
    unfold Output.address
    split_ifs
    · rfl
    · rfl
  unfold SignState.screens at h
  unfold SignState.shownPayments
  dsimp only at h ⊢
  cases htag : g.maybe.v.tag
  all_goals rw [htag] at h
  case plainTransfer =>
    obtain rfl := Option.some.inj h
    split_ifs
    · simp [LedgerNervos.shownPayments, haddress]
    · simp [LedgerNervos.shownPayments, haddress]
  case multiOutputTransfer =>
    obtain rfl := Option.some.inj h
    rw [← map_range_getD _ {} (hcount htag)]
    simp [LedgerNervos.shownPayments, List.filterMap_map, Function.comp_def]
  case selfTransfer =>
    obtain rfl := Option.some.inj h
    simp [LedgerNervos.shownPayments, haddress]
  case multiInputTransfer =>
    obtain rfl := Option.some.inj h
    simp [LedgerNervos.shownPayments, haddress]
  all_goals
    cases h
    try simp [LedgerNervos.shownPayments]

/-! ### Shown payments -/

/-- Every payment is found on the screens: in groups of payments that follow each other, each with
its destination and an amount of which it is a part. -/
def PaymentsShown (ps : List Output) (screens : List Screen) : Prop :=
  ∃ groups : List (List Output), groups.flatten = ps ∧ [] ∉ groups ∧
    ∀ (k : ℕ) os, groups[k]? = some os → ∃ s, (shownPayments screens)[k]? = some s ∧
      s.1 = (os.map Output.capacity).sum ∧ ∀ p ∈ os, s.2 = p.address

/-- The destination of a payment does not change while it shares a line with the last one. -/
def SameAddress (p q : Output) : Prop := p.SameLine q → p.address = q.address

/-- An address says which line a payment belongs to. -/
theorem sameLine_of_address_eq {p q : Output} (h : p.address = q.address) : p.SameLine q := by
  unfold Output.address at h
  split_ifs at h with hp hq hq
  · exact ⟨congrArg LockArg.hash (ScreenValue.multisigAddress.inj h), hp.trans hq.symm⟩
  · exact ⟨ScreenValue.sighashAddress.inj h, by rw [Bool.not_eq_true] at hp hq; rw [hp, hq]⟩

theorem Output.SameLine.symm {p q : Output} (h : p.SameLine q) : q.SameLine p :=
  ⟨h.1.symm, h.2.symm⟩

theorem Output.SameLine.trans {p q r : Output} (h : p.SameLine q) (h' : q.SameLine r) :
    p.SameLine r := ⟨h.1.trans h'.1, h.2.trans h'.2⟩

/-- In a line whose payments follow each other with one address, all have that of the line. -/
theorem LineOf.address {e : Output} {os : List Output} (h : LineOf e os)
    (hchain : os.IsChain SameAddress) : ∀ p ∈ os, e.address = p.address := by
  obtain ⟨hnonempty, -, hsame, hdestination⟩ := h
  cases os with
  | nil => exact absurd rfl hnonempty
  | cons p os =>
    have hhead : e.address = p.address := by
      unfold Output.address
      rw [hdestination p rfl, (hsame p (List.mem_cons_self ..)).2]
    clear hnonempty hdestination
    induction os generalizing p with
    | nil =>
      intro q hq
      rw [List.mem_singleton.1 hq]
      exact hhead
    | cons q os ih =>
      obtain ⟨hpq, hchain⟩ := List.isChain_cons_cons.1 hchain
      obtain ⟨hp, hsame⟩ := List.forall_mem_cons.1 hsame
      have hq := hsame q (List.mem_cons_self ..)
      exact List.forall_mem_cons.2 ⟨hhead, ih q hchain hsame (hhead.trans (hpq (hp.symm.trans hq)))⟩

theorem forall₂_getElem? {α β : Type} {R : α → β → Prop} {as : List α} {bs : List β}
    (h : List.Forall₂ R as bs) {k : ℕ} {b : β} (hb : bs[k]? = some b) :
    ∃ a, as[k]? = some a ∧ R a b := by
  induction h generalizing k with
  | nil => cases hb
  | @cons a b' as bs h₁ _ ih =>
    cases k with
    | zero =>
      obtain rfl := Option.some.inj hb
      exact ⟨a, rfl, h₁⟩
    | succ k => exact ih hb

/-- When all payments are disclosed: there is no deposit besides them, and payments that share a
line have one address. -/
structure Disclosed (env : Env) (v : AnnotatedTransactionVal) (ps : List Output) : Prop where
  deposit : v.HasDeposit env → ps = []
  address : ps.IsChain SameAddress

section Session

variable {v : AnnotatedTransactionVal} {t : Transcript env P v} {instruction : UInt8}
  {ps : List Packet} {prompt : Prompt}

/-- What the screens show is what belongs to the operation. -/
theorem Accepted.shownPayments (h : Accepted env P instruction ps prompt g v t) :
    LedgerNervos.shownPayments prompt.screens = g.shownPayments := by
  obtain ⟨nd, -, hprompt⟩ := h.complete
  refine shownPayments_screens (fun hmulti => ?_) (SignState.signComplete_screens hprompt)
  obtain ⟨groups, hlines, -⟩ := h.accounts.lines (h.accounts.multiOutput hmulti)
  exact hlines.outputCount_le

/-- A line of the books is shown, unless the operation is one on deposits. -/
theorem Accepted.line_shown (h : Accepted env P instruction ps prompt g v t)
    (hself : g.tx.isSelfTransfer = false) (htag : g.maybe.v.tag.isDao = false)
    {groups : List (List Output)} (hlines : Lines g.books groups) {k : ℕ} {e : Output}
    (he : (g.tx.outputs.take g.tx.outputCount)[k]? = some e) :
    g.shownPayments[k]? = some (e.capacity, e.address) := by
  obtain ⟨nd, -, hprompt⟩ := h.complete
  obtain ⟨hnone, hset⟩ := SignState.signComplete_tag hprompt
  have hlength : (g.tx.outputs.take g.tx.outputCount).length = groups.length :=
    hlines.take.1.length_eq
  by_cases hmulti : g.maybe.v.tag = .multiOutputTransfer
  · rw [SignState.shownPayments, hmulti, List.getElem?_map, he]
    rfl
  · have hshown : g.shownPayments =
        [(g.maybe.v.amount.2, (g.tx.outputs.getD 0 {}).address)] := by
      unfold SignState.shownPayments
      cases htag' : g.maybe.v.tag
      case none => exact absurd htag' hnone
      case notSet => exact absurd htag' hset
      case multiOutputTransfer => exact absurd htag' hmulti
      all_goals first
        | rfl
        | (rw [htag'] at htag; cases htag)
    -- there is only one line, and the amount is its capacity
    have hcount : ¬ 2 ≤ groups.length := fun hbad => hmulti (hlines.tag.2 hbad)
    have hk := (List.getElem?_eq_some_iff.1 he).1
    have hamount := h.amount_lines htag hself
    generalize hls : g.tx.outputs.take g.tx.outputCount = lines at *
    match lines, k with
    | [e'], 0 =>
      obtain rfl := Option.some.inj he
      have hfirst : g.tx.outputs.getD 0 {} = e' := by
        have hget : (g.tx.outputs.take g.tx.outputCount)[0]? = some e' := by rw [hls]; rfl
        rw [List.getElem?_take, if_pos] at hget
        · rw [List.getD_eq_getElem?_getD, hget]
          rfl
        · rw [show g.tx.outputCount = groups.length from hlines.outputCount, ← hlength]
          exact Nat.zero_lt_one
      have hcapacity : g.maybe.v.amount.2 = e'.capacity := by
        rw [← hamount, List.map_singleton, List.sum_cons, List.sum_nil, UInt64.add_zero]
      rw [hshown, hfirst, hcapacity]
      rfl
    | [], k => exact absurd hk (Nat.not_lt_zero _)
    | [_], k + 1 => exact absurd hk (by simp)
    | _ :: _ :: _, k =>
      rw [← hlength] at hcount
      exact absurd (Nat.le_add_left 2 _) hcount

/-- **No hidden payment**, exactly when all payments are disclosed. -/
theorem Accepted.paymentsShown_iff (h : Accepted env P instruction ps prompt g v t) :
    PaymentsShown t.payments prompt.screens ↔ Disclosed env v t.payments := by
  obtain ⟨groups, hflatten, hlines, hnone⟩ := h.paymentLines
  have hdeposit := h.tag_isDao
  unfold PaymentsShown
  rw [h.shownPayments]
  constructor
  · rintro ⟨groups', hflatten', hne', hall'⟩
    refine ⟨fun hv => ?_, ?_⟩
    · rw [← hflatten']
      cases groups' with
      | nil => rfl
      | cons os groups' =>
        obtain ⟨s, hs, -⟩ := hall' 0 os rfl
        rw [shownPayments_of_isDao (hdeposit.2 hv)] at hs
        cases hs
    · rw [← hflatten', List.isChain_flatten hne']
      constructor
      · -- in a group all payments have one address
        intro os hos
        obtain ⟨k, hk⟩ := List.mem_iff_getElem?.1 hos
        obtain ⟨s, -, -, haddress⟩ := hall' k os hk
        refine (List.pairwise_of_forall_mem_list fun p hp q hq _ => ?_).isChain
        rw [← haddress p hp, ← haddress q hq]
      · -- the next group belongs to the next line, which has another destination
        rw [List.isChain_iff_getElem]
        intro k hk p hp q hq hpq
        obtain ⟨s, hs, -, haddress⟩ := hall' k _ (List.getElem?_eq_getElem (Nat.lt_of_succ_lt hk))
        obtain ⟨s', hs', -, haddress'⟩ := hall' (k + 1) _ (List.getElem?_eq_getElem hk)
        have hmulti : g.maybe.v.tag = .multiOutputTransfer := by
          by_contra hne
          have hlength := (List.getElem?_eq_some_iff.1 hs').1
          have hle := length_shownPayments_le hne
          omega
        obtain ⟨-, hchain⟩ := (hlines (h.accounts.multiOutput hmulti)).take
        unfold SignState.shownPayments at hs hs'
        rw [hmulti] at hs hs'
        dsimp only at hs hs'
        rw [List.getElem?_map, Option.map_eq_some_iff] at hs hs'
        obtain ⟨e, he, rfl⟩ := hs
        obtain ⟨e', he', rfl⟩ := hs'
        have hep := sameLine_of_address_eq (haddress p (List.mem_of_getLast? hp))
        have heq' := sameLine_of_address_eq (haddress' q (List.mem_of_head? hq))
        obtain ⟨hk', rfl⟩ := List.getElem?_eq_some_iff.1 he
        obtain ⟨hk'', rfl⟩ := List.getElem?_eq_some_iff.1 he'
        exact absurd ((hep.trans hpq).trans heq'.symm) (hchain.getElem k hk'')
  · rintro ⟨hv, hchain⟩
    rw [← hflatten] at hv hchain ⊢
    cases hself : g.tx.isSelfTransfer with
    | true =>
      rw [hnone hself]
      exact ⟨[], rfl, List.not_mem_nil, fun k os hk => by cases hk⟩
    | false =>
      have hgroups := hlines hself
      obtain ⟨hlineOf, -⟩ := hgroups.take
      have hne : [] ∉ groups := fun hbad => by
        obtain ⟨k, hk⟩ := List.mem_iff_getElem?.1 hbad
        obtain ⟨e, -, he⟩ := forall₂_getElem? hlineOf hk
        exact he.nonempty rfl
      refine ⟨groups, rfl, hne, fun k os hk => ?_⟩
      obtain ⟨e, he, hline⟩ := forall₂_getElem? hlineOf hk
      have hos := List.mem_of_getElem? hk
      have htag : g.maybe.v.tag.isDao = false := by
        rw [← Bool.not_eq_true, hdeposit]
        intro hbad
        exact hne (List.flatten_eq_nil_iff.1 (hv hbad) os hos ▸ hos)
      exact ⟨_, h.line_shown hself htag hgroups he, hline.capacity,
        hline.address (((List.isChain_flatten hne).1 hchain).1 os hos)⟩

end Session

/-- **Hidden payments.**  When a session leads to the prompt while contract data is refused, every
payment is found on the screens if and only if there is no deposit besides them, and payments that
share a line have one address. -/
theorem payments_shown_iff (env : Env) (instruction : UInt8) (ps : List Packet) (prompt : Prompt)
    (g : SignState) (hstrict : ∀ p ∈ ps, p.nd.contractDataType = .disallow)
    (h : signSession env instruction ps = some (prompt, g)) :
    (∃ v, ∃ t : Transcript env (fun nd => nd.contractDataType = .disallow) v,
      Accepted env (fun nd => nd.contractDataType = .disallow) instruction ps prompt g v t) ∧
    ∀ v (t : Transcript env (fun nd => nd.contractDataType = .disallow) v),
      Accepted env (fun nd => nd.contractDataType = .disallow) instruction ps prompt g v t →
        (PaymentsShown t.payments prompt.screens ↔ Disclosed env v t.payments) := by
  refine ⟨signSession_transcript hstrict h, fun v t haccepted => ?_⟩
  exact haccepted.paymentsShown_iff

/-- The payments belong to the lines, and each line has some. -/
theorem Accepted.payments_lines {v : AnnotatedTransactionVal} {t : Transcript env P v}
    {instruction : UInt8} {ps : List Packet} {prompt : Prompt}
    (h : Accepted env P instruction ps prompt g v t) (hself : g.tx.isSelfTransfer = false) :
    (∀ p ∈ t.payments, ∃ e ∈ g.tx.outputs, e.SameLine p) ∧
      (0 < g.tx.outputCount → t.payments ≠ []) := by
  obtain ⟨groups, hflatten, hlines, -⟩ := h.paymentLines
  have hgroups := hlines hself
  have hlineOf := hgroups.take.1
  rw [← hflatten]
  constructor
  · intro p hp
    obtain ⟨os, hos, hp⟩ := List.mem_flatten.1 hp
    obtain ⟨k, hk⟩ := List.mem_iff_getElem?.1 hos
    obtain ⟨e, he, hline⟩ := forall₂_getElem? hlineOf hk
    exact ⟨e, List.mem_of_mem_take (List.mem_of_getElem? he), hline.same p hp⟩
  · intro hcount hempty
    have hlength : g.tx.outputCount = groups.length := hgroups.outputCount
    rw [hlength] at hcount
    obtain ⟨e, -, hline⟩ := forall₂_getElem? hlineOf (List.getElem?_eq_getElem hcount)
    exact hline.nonempty (List.flatten_eq_nil_iff.1 hempty _ (List.getElem_mem hcount))

theorem payments_shown_iff_payment :
    ∃ prompt g v, ∃ t : Transcript Env.reference (fun nd => nd.contractDataType = .disallow) v,
      signSession Env.reference 0x03 (cutPackets 3 payment.encode) = some (prompt, g) ∧
        t.payments ≠ [] ∧ PaymentsShown t.payments prompt.screens := by
  have hsome : (signSession Env.reference 0x03 (cutPackets 3 payment.encode)).any
      (fun r => r.2.tx.isSelfTransfer = false ∧ 0 < r.2.tx.outputCount ∧
        ∀ e ∈ r.2.tx.outputs, e.isMultisig = false) = true := by
    decide +kernel
  obtain ⟨⟨prompt, g⟩, h, hlines⟩ := (Option.any_eq_true _ _).1 hsome
  obtain ⟨hself, hcount, hsighash⟩ := of_decide_eq_true hlines
  obtain ⟨⟨v, t, haccepted⟩, hall⟩ :=
    payments_shown_iff Env.reference 0x03 _ prompt g (by decide +kernel) h
  have hshown := hall v t haccepted
  obtain ⟨hmem, hnonempty⟩ := haccepted.payments_lines hself
  obtain rfl := haccepted.value_eq_cut (by decide +kernel) (by decide) (by decide) (by decide)
  refine ⟨prompt, g, _, t, h, hnonempty hcount, hshown.2 ⟨fun hbad => ?_, ?_⟩⟩
  · exact absurd hbad (by unfold AnnotatedTransactionVal.HasDeposit; decide)
  · refine (List.pairwise_of_forall_mem_list fun p hp q hq hpq => ?_).isChain
    obtain ⟨e, he, hsame⟩ := hmem p hp
    have hp : p.isMultisig = false := hsame.2.symm.trans (hsighash e he)
    have hq : q.isMultisig = false := hpq.2.symm.trans hp
    simp only [Output.address, hp, hq, Bool.false_eq_true, if_false, hpq.1]

/-- A deposit, and a payment besides it. -/
def depositAndPayment : AnnotatedTransaction :=
  { payment with raw := { payment.raw with
      outputs := payment.raw.outputs ++
        [⟨300, emptyLock, some ⟨⟨daoTypeScriptHash, length_daoTypeScriptHash⟩, 1, []⟩⟩]
      outputsData := [[], List.replicate 8 0] } }

/-- The prompt for a deposit does not tell of a payment besides it. -/
theorem depositAndPayment_hidden :
    ∃ prompt g,
      signSession Env.reference 0x03 (cutPackets 4 depositAndPayment.encode) = some (prompt, g) ∧
      (∀ p ∈ cutPackets 4 depositAndPayment.encode, p.nd.contractDataType = .disallow) ∧
      ∀ v (t : Transcript Env.reference (fun nd => nd.contractDataType = .disallow) v),
        Accepted Env.reference (fun nd => nd.contractDataType = .disallow) 0x03
          (cutPackets 4 depositAndPayment.encode) prompt g v t →
            ¬ PaymentsShown t.payments prompt.screens := by
  have hsome : (signSession Env.reference 0x03 (cutPackets 4 depositAndPayment.encode)).any
      (fun r => r.2.tx.isSelfTransfer = false ∧ 0 < r.2.tx.outputCount) = true := by
    decide +kernel
  obtain ⟨⟨prompt, g⟩, h, hlines⟩ := (Option.any_eq_true _ _).1 hsome
  obtain ⟨hself, hcount⟩ := of_decide_eq_true hlines
  refine ⟨prompt, g, h, by decide +kernel, fun v t haccepted hshown => ?_⟩
  have hnonempty := (haccepted.payments_lines hself).2 hcount
  have hdisclosed := haccepted.paymentsShown_iff.1 hshown
  obtain rfl := haccepted.value_eq_cut (by decide +kernel) (by decide) (by decide) (by decide)
  exact hnonempty (hdisclosed.deposit (by unfold AnnotatedTransactionVal.HasDeposit; decide))

end LedgerNervos
