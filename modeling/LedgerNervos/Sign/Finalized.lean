import LedgerNervos.Sign.Books

/-!
# The end of the raw transaction

`Finalized g g'` says what `finalize_raw_transaction` makes of a transaction that the prompts can
show: the operation, by cases (`Operation`), with the amounts that are shown for it, and the fee.
What follows are the witnesses, and they leave all of it alone (`Transcript.finalized_books`).
-/

namespace LedgerNervos

variable {env : Env} {P : NvramData → Prop} {g g' : SignState} {v : ParsedTransaction}

/-- The tags of operations on deposits. -/
def OperationTag.isDao : OperationTag → Bool
  | daoDeposit | daoPrepare | daoWithdraw => true
  | _ => false

/-- The operation that is shown for the state `g`, in cases: what it is found by, and the amounts
that go with it. -/
inductive Operation (g : SignState) (v : ParsedTransaction) : Prop
  | single (stored : g.maybe.v.tag = .notSet ∨ g.maybe.v.tag = .plainTransfer)
      (single : ¬ 1 < g.distinctInputSources)
      (tag : v.tag = if g.tx.isSelfTransfer then .selfTransfer else .plainTransfer)
      (amount : v.amount.2 = g.tx.plainOutputAmount)
  | selfTransfer (stored : g.maybe.v.tag = .selfTransfer) (tag : v.tag = .selfTransfer)
      (amount : v.amount.2 = g.tx.plainOutputAmount)
  | multiInputTransfer (stored : g.maybe.v.tag = .notSet ∨ g.maybe.v.tag = .plainTransfer)
      (several : 1 < g.distinctInputSources) (single : g.signingMultisigInput = false)
      (signing : g.maybe.v.inputCount.1 ≠ 0)
      (tag : v.tag = .multiInputTransfer)
      (inputCount : v.inputCount = (g.maybe.v.inputCount.1, g.distinctInputSources.toUInt64))
      (amount : v.amount = (g.inputAmount.1, g.tx.plainOutputAmount))
  | multiOutputTransfer (stored : g.maybe.v.tag = .multiOutputTransfer)
      (single : ¬ 1 < g.distinctInputSources)
      (tag : v.tag = .multiOutputTransfer) (amount : v.amount.2 = g.tx.plainOutputAmount)
  | daoDeposit (stored : g.maybe.v.tag = .daoDeposit) (tag : v.tag = .daoDeposit)
      (daoAmount : v.daoAmount = g.tx.daoOutputAmount)
  | daoPrepare (stored : g.maybe.v.tag = .daoPrepare) (tag : v.tag = .daoPrepare)
      (balance : g.tx.daoOutputAmount = g.daoInputAmount)
      (daoAmount : v.daoAmount = g.tx.daoOutputAmount)
  | daoWithdraw (stored : g.maybe.v.tag = .daoWithdraw) (tag : v.tag = .daoWithdraw)
      (daoOutput : g.tx.daoOutputAmount = 0) (plainOutput : g.tx.plainOutputAmount = 0)
      (daoAmount : v.daoAmount = g.daoInputAmount)

/-- The operation that is shown is the stored one, or a transfer. -/
theorem Operation.tag_cases (h : Operation g v) :
    v.tag = g.maybe.v.tag ∨
      (g.maybe.v.tag = .notSet ∨ g.maybe.v.tag = .plainTransfer) ∧
        (v.tag = .plainTransfer ∨ v.tag = .selfTransfer ∨ v.tag = .multiInputTransfer) := by
  cases h with
  | single stored single tag amount =>
    refine .inr ⟨stored, ?_⟩
    rw [tag]
    split_ifs
    · exact .inr (.inl rfl)
    · exact .inl rfl
  | multiInputTransfer stored several single signing tag inputCount amount =>
    exact .inr ⟨stored, .inr (.inr tag)⟩
  | selfTransfer stored tag amount => exact .inl (tag.trans stored.symm)
  | multiOutputTransfer stored single tag amount => exact .inl (tag.trans stored.symm)
  | daoDeposit stored tag daoAmount => exact .inl (tag.trans stored.symm)
  | daoPrepare stored tag balance daoAmount => exact .inl (tag.trans stored.symm)
  | daoWithdraw stored tag daoOutput plainOutput daoAmount =>
    exact .inl (tag.trans stored.symm)

/-- The amount that is shown with a transfer. -/
theorem Operation.amount (h : Operation g v) (htag : v.tag.isDao = false) :
    v.amount.2 = g.tx.plainOutputAmount := by
  cases h with
  | single stored single tag amount => exact amount
  | selfTransfer stored tag amount => exact amount
  | multiInputTransfer stored several single signing tag inputCount amount => rw [amount]
  | multiOutputTransfer stored single tag amount => exact amount
  | daoDeposit stored tag daoAmount =>
    rw [tag] at htag
    cases htag
  | daoPrepare stored tag balance daoAmount =>
    rw [tag] at htag
    cases htag
  | daoWithdraw stored tag daoOutput plainOutput daoAmount =>
    rw [tag] at htag
    cases htag

/-- The amount that is shown with an operation on deposits. -/
theorem Operation.daoAmount (h : Operation g v)
    (htag : v.tag.isDao = true) :
    v.daoAmount = if v.tag = .daoWithdraw then g.daoInputAmount else g.tx.daoOutputAmount := by
  cases h with
  | single stored single tag amount =>
    rw [tag] at htag
    split_ifs at htag
    · cases htag
    · cases htag
  | selfTransfer stored tag amount =>
    rw [tag] at htag
    cases htag
  | multiInputTransfer stored several single signing tag inputCount amount =>
    rw [tag] at htag
    cases htag
  | multiOutputTransfer stored single tag amount =>
    rw [tag] at htag
    cases htag
  | daoDeposit stored tag daoAmount => rw [daoAmount, tag, if_neg (by decide)]
  | daoPrepare stored tag balance daoAmount => rw [daoAmount, tag, if_neg (by decide)]
  | daoWithdraw stored tag daoOutput plainOutput daoAmount => rw [daoAmount, if_pos tag]

/-- The amount that comes from own cells. -/
theorem Operation.ownAmount (h : Operation g v)
    (htag : v.tag = .multiInputTransfer) : v.amount.1 = g.inputAmount.1 := by
  cases h with
  | single stored single tag amount =>
    rw [tag] at htag
    split_ifs at htag
  | multiInputTransfer stored several single signing tag inputCount amount => rw [amount]
  | selfTransfer stored tag amount => exact absurd (tag.symm.trans htag) (by decide)
  | multiOutputTransfer stored single tag amount =>
    exact absurd (tag.symm.trans htag) (by decide)
  | daoDeposit stored tag daoAmount => exact absurd (tag.symm.trans htag) (by decide)
  | daoPrepare stored tag balance daoAmount => exact absurd (tag.symm.trans htag) (by decide)
  | daoWithdraw stored tag daoOutput plainOutput daoAmount =>
    exact absurd (tag.symm.trans htag) (by decide)

theorem Operation.tag_iff (h : Operation g v) {tag : OperationTag}
    (htag : tag = .multiOutputTransfer ∨ tag = .daoWithdraw) :
    v.tag = tag ↔ g.maybe.v.tag = tag := by
  rcases h.tag_cases with h | ⟨hstored, hshown⟩
  · rw [h]
  · refine iff_of_false ?_ ?_
    · rcases htag with rfl | rfl <;> rcases hshown with h | h | h <;> rw [h] <;> nofun
    · rcases htag with rfl | rfl <;> rcases hstored with h | h <;> rw [h] <;> nofun

/-- An operation on deposits is the stored one. -/
theorem Operation.tag_isDao (h : Operation g v) : v.tag.isDao = g.maybe.v.tag.isDao := by
  rcases h.tag_cases with h | ⟨hstored, hshown⟩
  · rw [h]
  · rcases hstored with h | h <;> rcases hshown with h' | h' | h' <;> rw [h, h'] <;> rfl

/-- When the screens for a plain transfer are shown. -/
theorem Operation.plainTransfer_iff (h : Operation g v) : v.tag = .plainTransfer ↔
    (g.maybe.v.tag = .notSet ∨ g.maybe.v.tag = .plainTransfer) ∧
      ¬ 1 < g.distinctInputSources ∧ g.tx.isSelfTransfer = false := by
  cases h with
  | single stored single tag amount =>
    rw [tag]
    cases g.tx.isSelfTransfer with
    | false => exact iff_of_true rfl ⟨stored, single, rfl⟩
    | true => exact iff_of_false (by decide) fun h => absurd h.2.2 (by decide)
  | multiInputTransfer stored several single signing tag inputCount amount =>
    rw [tag]
    exact iff_of_false (by decide) fun h => h.2.1 several
  | selfTransfer stored tag amount =>
    rw [tag, stored]
    exact iff_of_false (by decide) fun h => absurd h.1 (by decide)
  | multiOutputTransfer stored single tag amount =>
    rw [tag, stored]
    exact iff_of_false (by decide) fun h => absurd h.1 (by decide)
  | daoDeposit stored tag daoAmount =>
    rw [tag, stored]
    exact iff_of_false (by decide) fun h => absurd h.1 (by decide)
  | daoPrepare stored tag balance daoAmount =>
    rw [tag, stored]
    exact iff_of_false (by decide) fun h => absurd h.1 (by decide)
  | daoWithdraw stored tag daoOutput plainOutput daoAmount =>
    rw [tag, stored]
    exact iff_of_false (by decide) fun h => absurd h.1 (by decide)

/-- What is left over for the fee. -/
def SignState.remainder (g : SignState) : UInt64 :=
  (g.inputAmount.2 + g.daoInputAmount) -
    (g.tx.plainOutputAmount + g.tx.daoOutputAmount + g.tx.changeAmount)

/-- The state `g'` is that at the end of the raw transaction, when the state before is `g`. -/
structure Finalized (g g' : SignState) : Prop where
  books : g'.books = { g.books with tag := g'.maybe.v.tag }
  operation : Operation g g'.maybe.v
  totalFee : g'.maybe.v.totalFee =
    if g'.maybe.v.tag = .daoWithdraw then -g.remainder else g.remainder

/-- The amounts are those before. -/
theorem Finalized.amounts (h : Finalized g g') :
    g'.remainder = g.remainder ∧ g'.tx.plainOutputAmount = g.tx.plainOutputAmount ∧
      g'.tx.daoOutputAmount = g.tx.daoOutputAmount ∧ g'.daoInputAmount = g.daoInputAmount ∧
      g'.inputAmount = g.inputAmount ∧ g'.tx.isSelfTransfer = g.tx.isSelfTransfer := by
  have hremainder := congrArg (fun b : Books =>
    (b.plainInput + b.daoInput) - (b.plainOutput + b.daoOutput + b.changeOutput)) h.books
  exact ⟨hremainder, congrArg Books.plainOutput h.books, congrArg Books.daoOutput h.books,
    congrArg Books.daoInput h.books,
    Prod.ext (congrArg Books.ownInput h.books) (congrArg Books.plainInput h.books),
    congrArg Books.isSelfTransfer h.books⟩

theorem finalizeRawTransaction_finalized (h : g.finalizeRawTransaction env = g')
    (hsafe : g'.maybe.isUnsafe = false) (htag : g'.maybe.v.tag ≠ .none) : Finalized g g' := by
  have hreject (s : SignState) : s.reject ≠ g' := by
    rintro rfl
    cases hsafe
  unfold SignState.finalizeRawTransaction at h
  dsimp only at h
  split at h
  case h_1 hstored =>
    obtain rfl := h
    exact absurd hstored htag
  case h_2 => exact absurd h (hreject _)
  case h_3 hstored =>
    split_ifs at h with hseveral hmultisig hsigning hself
    · exact absurd h (hreject _)
    · exact absurd h (hreject _)
    · obtain rfl := h
      exact ⟨rfl, .multiInputTransfer (.inl hstored) hseveral (by simpa using hmultisig) hsigning
        rfl rfl rfl, rfl⟩
    · obtain rfl := h
      exact ⟨rfl, .single (.inl hstored) hseveral (if_pos hself).symm rfl, rfl⟩
    · obtain rfl := h
      exact ⟨rfl, .single (.inl hstored) hseveral (if_neg hself).symm rfl, rfl⟩
  case h_4 hstored =>
    split_ifs at h with hseveral hmultisig hsigning hself
    · exact absurd h (hreject _)
    · exact absurd h (hreject _)
    · obtain rfl := h
      exact ⟨rfl, .multiInputTransfer (.inr hstored) hseveral (by simpa using hmultisig) hsigning
        rfl rfl rfl, rfl⟩
    · obtain rfl := h
      exact ⟨rfl, .single (.inr hstored) hseveral (if_pos hself).symm rfl, rfl⟩
    · obtain rfl := h
      exact ⟨rfl, .single (.inr hstored) hseveral (if_neg hself).symm rfl, rfl⟩
  case h_5 hstored =>
    obtain rfl := h
    exact ⟨rfl, .selfTransfer hstored hstored rfl, rfl⟩
  case h_6 hstored =>
    split_ifs at h with hseveral
    · exact absurd h (hreject _)
    · obtain rfl := h
      exact ⟨rfl, .multiOutputTransfer hstored hseveral hstored rfl, rfl⟩
  case h_7 hstored =>
    obtain rfl := h
    exact ⟨rfl, .daoDeposit hstored hstored rfl, rfl⟩
  case h_8 hstored =>
    split_ifs at h with hbalance
    · exact absurd h (hreject _)
    · obtain rfl := h
      exact ⟨rfl, .daoPrepare hstored hstored (not_not.1 hbalance) rfl, rfl⟩
  case h_9 hstored =>
    split_ifs at h with hdao hplain
    · exact absurd h (hreject _)
    · exact absurd h (hreject _)
    · obtain rfl := h
      exact ⟨rfl, .daoWithdraw hstored hstored (not_not.1 hdao) (not_not.1 hplain) rfl, rfl⟩

/-- A prompt is for one of the operations. -/
theorem SignState.signComplete_tag {nd : NvramData} {instruction : UInt8} {prompt : Prompt}
    (h : g.signComplete nd instruction = .ok prompt) :
    g.maybe.v.tag ≠ .none ∧ g.maybe.v.tag ≠ .notSet := by
  constructor
  · intro htag
    rw [signComplete, screens, htag] at h
    cases h
  · intro htag
    rw [signComplete, screens, htag] at h
    cases h

/-- The calls for the witnesses leave what is shown, and what it is computed from, alone. -/
theorem Transcript.unwitnessed_last {v : AnnotatedTransactionVal} (t : Transcript env P v) :
    t.last.unwitnessed = t.finalized.unwitnessed :=
  t.witnesses.2.runs.frame fun _ e _ he hstep => hstep.unwitnessed (t.witnesses.1.part e he)

/-- **The end of the raw transaction**, in a session that leads to the prompt. -/
theorem Accepted.finalized {instruction : UInt8} {ps : List Packet} {prompt : Prompt}
    {v : AnnotatedTransactionVal} {t : Transcript env P v}
    (h : Accepted env P instruction ps prompt g v t) : Finalized t.stored g := by
  obtain ⟨nd, -, hprompt⟩ := h.complete
  have hsame : g.unwitnessed.books = t.finalized.unwitnessed.books ∧
      g.unwitnessed.maybe.v = t.finalized.unwitnessed.maybe.v := by
    rw [h.last, ← t.unwitnessed_last]
    exact ⟨rfl, rfl⟩
  have hbooks : g.books = t.finalized.books := hsame.1
  have hshown : g.maybe.v = t.finalized.maybe.v := hsame.2
  obtain ⟨htag, -⟩ := SignState.signComplete_tag hprompt
  obtain ⟨_, _, _, -, hstep⟩ := t.finalize
  simp only [dispatch, Except.ok.injEq, Prod.mk.injEq] at hstep
  rw [hshown] at htag
  obtain ⟨hend, hoperation, hfee⟩ := finalizeRawTransaction_finalized hstep.1
    (t.witnesses.2.runs.isUnsafe h.isUnsafe) htag
  rw [← hshown] at hend hoperation hfee
  exact ⟨hbooks.trans hend, hoperation, hfee⟩

end LedgerNervos
