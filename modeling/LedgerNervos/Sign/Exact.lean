import LedgerNervos.Sign.Accounting
import Mathlib.Algebra.Order.BigOperators.Group.List
import Mathlib.Algebra.Order.Group.Nat

/-!
# Exact amounts

The amounts are sums modulo `2 ^ 64`, and nothing in the code notices when such a sum wraps around
or a fee is less than nothing.  `Fits` says of a transaction that neither happens; the numbers on
the screens are the sums and differences over the integers (`Exact`) just for such transactions.
-/

namespace LedgerNervos

variable {env : Env} {P : NvramData → Prop} {g g' : SignState}

/-! ### Sums -/

/-- A sum of amounts over the natural numbers. -/
def exactTotal (l : List UInt64) : ℕ := (l.map UInt64.toNat).sum

theorem toNat_sum (l : List UInt64) : l.sum.toNat = exactTotal l % 2 ^ 64 := by
  induction l with
  | nil => rfl
  | cons n l ih =>
    rw [List.sum_cons, UInt64.toNat_add, ih, Nat.add_mod_mod]
    rfl

/-- A sum that fits has not wrapped around. -/
theorem toNat_sum_of_lt {l : List UInt64} (h : exactTotal l < 2 ^ 64) :
    l.sum.toNat = exactTotal l := by
  rw [toNat_sum, Nat.mod_eq_of_lt h]

/-- What is only a part is not more. -/
theorem exactTotal_le {l l' : List UInt64} (h : List.Sublist l l') :
    exactTotal l ≤ exactTotal l' :=
  (h.map UInt64.toNat).sum_le_sum fun _ _ => Nat.zero_le _

/-- A difference is exact when there is nothing to borrow. -/
theorem toNat_sub_exact (a b : UInt64) :
    ((a - b).toNat : ℤ) = (a.toNat : ℤ) - b.toNat ↔ b.toNat ≤ a.toNat := by
  have ha := a.toNat_lt
  have hb := b.toNat_lt
  rw [UInt64.toNat_sub]
  omega

/-! ### What is shown -/

/-- The amounts on a screen. -/
def Screen.amounts (s : Screen) : List UInt64 :=
  match s.value with
  | .amount n => [n]
  | .amountOf n => [n.1, n.2]
  | .output o => [o.capacity]
  | _ => []

/-- The amounts on the screens for a transaction. -/
def SignState.amounts (g : SignState) : List UInt64 :=
  let v := g.maybe.v
  match v.tag with
  | .plainTransfer | .selfTransfer => [v.amount.2, v.totalFee]
  | .multiOutputTransfer =>
    [v.amount.2, v.totalFee] ++ (g.tx.outputs.take g.tx.outputCount).map Output.capacity
  | .multiInputTransfer => [v.amount.1, v.amount.2, v.totalFee]
  | .daoDeposit | .daoPrepare | .daoWithdraw => [v.daoAmount, v.totalFee]
  | .none | .notSet => []

theorem amounts_address (title : ScreenTitle) (o : Output) :
    (⟨title, o.address⟩ : Screen).amounts = [] := by
  unfold Output.address
  split_ifs
  · rfl
  · rfl

/-- The amounts on the screens. -/
theorem amounts_screens {nd : NvramData} {screens : List Screen}
    (hcount : g.maybe.v.tag = .multiOutputTransfer → g.tx.outputCount ≤ g.tx.outputs.length)
    (h : g.screens nd = some screens) : screens.flatMap Screen.amounts = g.amounts := by
  unfold SignState.screens at h
  unfold SignState.amounts
  dsimp only at h ⊢
  cases htag : g.maybe.v.tag
  all_goals rw [htag] at h
  case multiOutputTransfer =>
    obtain rfl := Option.some.inj h
    rw [← map_range_getD _ {} (hcount htag), List.flatMap_append, List.flatMap_map, List.map_map,
      List.map_eq_flatMap]
    rfl
  case plainTransfer =>
    obtain rfl := Option.some.inj h
    simp only [List.flatMap_append, List.flatMap_cons, List.flatMap_nil, amounts_address]
    split_ifs
    · rfl
    · rfl
  case selfTransfer =>
    obtain rfl := Option.some.inj h
    simp only [List.flatMap_cons, List.flatMap_nil, amounts_address]
    rfl
  case multiInputTransfer =>
    obtain rfl := Option.some.inj h
    simp only [List.flatMap_cons, List.flatMap_nil, amounts_address]
    rfl
  all_goals
    cases h
    try rfl

/-! ### What should be shown -/

/-- What the inputs for which `p` holds are worth, over the natural numbers. -/
def inputExact (p : AnnotatedCellInputVal → Bool) (as : List AnnotatedCellInputVal) : ℕ :=
  exactTotal ((as.filter p).map AnnotatedCellInputVal.capacity)

/-- What the outputs of the kind `k` are worth, over the natural numbers. -/
def outputExact (k : OutputKind) (ls : List (OutputKind × UInt32 × CellOutputVal)) : ℕ :=
  exactTotal ((ls.filter fun l => l.1 = k).map fun l => l.2.2.capacity)

namespace AnnotatedTransactionVal

/-- What the cells that the inputs refer to are worth. -/
def inputExact (v : AnnotatedTransactionVal) : ℕ :=
  LedgerNervos.inputExact AnnotatedCellInputVal.isCounted (v.inputs.getD [])

/-- What the outputs are worth. -/
def outputExact (v : AnnotatedTransactionVal) : ℕ :=
  exactTotal ((v.outputs.getD []).map CellOutputVal.capacity)

/-- An input refers to a deposit that is being withdrawn. -/
def isWithdrawal (v : AnnotatedTransactionVal) : Bool :=
  (v.inputs.getD []).any AnnotatedCellInputVal.isWithdrawal

end AnnotatedTransactionVal

section Exact

variable {v : AnnotatedTransactionVal} (t : Transcript env P v)

/-- The sums and differences over the integers that belong on the screens for the operation `tag`:
`self` says that it is a transfer to oneself, and the payments are shown in `groups`. -/
def Transcript.figures (tag : OperationTag) (self : Bool) (groups : List (List Output)) :
    List ℤ :=
  let inputs := v.inputs.getD []
  let shown : ℤ := outputExact (if self then .change else .plain) t.kinds
  let fee : ℤ := v.inputExact - v.outputExact
  match tag with
  | .plainTransfer | .selfTransfer => [shown, fee]
  | .multiOutputTransfer =>
    [shown, fee] ++ groups.map fun os => (exactTotal (os.map Output.capacity) : ℤ)
  | .multiInputTransfer =>
    [(inputExact (fun a => a.isCounted && !a.isDao && a.isOwn t.ownWindow) inputs : ℤ), shown, fee]
  | .daoDeposit | .daoPrepare => [(outputExact .dao t.kinds : ℤ), fee]
  | .daoWithdraw => [(inputExact (fun a => a.isCounted && a.isDao) inputs : ℤ), -fee]
  | .none | .notSet => []

/-- The sums in the books are those over the integers. -/
structure ExactSums (b : Books) : Prop where
  /-- What comes in. -/
  inputs : (b.plainInput + b.daoInput).toNat = v.inputExact
  plainInput : b.plainInput.toNat =
    inputExact (fun a => a.isCounted && !a.isDao) (v.inputs.getD [])
  ownInput : b.ownInput.toNat =
    inputExact (fun a => a.isCounted && !a.isDao && a.isOwn t.ownWindow) (v.inputs.getD [])
  daoInput : b.daoInput.toNat =
    inputExact (fun a => a.isCounted && a.isDao) (v.inputs.getD [])
  /-- What goes out. -/
  outputs : (b.plainOutput + b.daoOutput + b.changeOutput).toNat = v.outputExact
  plainOutput : b.plainOutput.toNat =
    outputExact (if b.isSelfTransfer then .change else .plain) t.kinds
  changeOutput : b.changeOutput.toNat =
    if b.isSelfTransfer then 0 else outputExact .change t.kinds
  daoOutput : b.daoOutput.toNat = outputExact .dao t.kinds

/-- The amounts on the screens `shown`, and the sums they are computed from, are those over the
integers. -/
structure Exact (g : SignState) (shown : List Screen) : Prop where
  /-- Every number that is shown; the payments are grouped by the lines. -/
  figures : ∃ groups, List.Forall₂ PaymentOf groups.flatten (payments t.kinds) ∧
    (g.tx.isSelfTransfer = false → Lines g.books groups) ∧
    ((shown.flatMap Screen.amounts).map fun n => (n.toNat : ℤ)) =
      t.figures g.maybe.v.tag g.tx.isSelfTransfer groups
  sums : ExactSums t g.books
  /-- The fee, or the compensation, is not negative. -/
  balance : if g.maybe.v.tag = .daoWithdraw then v.inputExact ≤ v.outputExact
    else v.outputExact ≤ v.inputExact

end Exact

/-- What comes in and what goes out is less than `2 ^ 64`, and there is enough for what goes out; a
withdrawal gives out at least what comes in. -/
structure Fits (v : AnnotatedTransactionVal) : Prop where
  inputs : v.inputExact < 2 ^ 64
  outputs : v.outputExact < 2 ^ 64
  balance : if v.isWithdrawal then v.inputExact ≤ v.outputExact
    else v.outputExact ≤ v.inputExact

/-! ### When the amounts are exact -/

theorem inputExact_le {p q : AnnotatedCellInputVal → Bool} (h : ∀ a, p a = true → q a = true)
    (as : List AnnotatedCellInputVal) : inputExact p as ≤ inputExact q as :=
  exactTotal_le ((List.monotone_filter_right as h).map _)

section Fits

variable {v : AnnotatedTransactionVal} {t : Transcript env P v}

theorem Transcript.outputExact_le (k : OutputKind) : outputExact k t.kinds ≤ v.outputExact := by
  rw [AnnotatedTransactionVal.outputExact, ← t.map_kinds]
  exact exactTotal_le (List.filter_sublist.map _)

/-- A group of payments is a part of the outputs. -/
theorem Transcript.group_le {groups : List (List Output)}
    (h : List.Forall₂ PaymentOf groups.flatten (payments t.kinds)) {os : List Output}
    (hos : os ∈ groups) : exactTotal (os.map Output.capacity) ≤ v.outputExact := by
  have hle := exactTotal_le ((List.sublist_flatten_of_mem hos).map Output.capacity)
  rw [map_capacity_payments h, payments, List.map_map] at hle
  exact hle.trans (t.outputExact_le .plain)

/-- The lines are exact when the sums in them fit. -/
theorem toNat_lines {lines : List Output} {groups : List (List Output)}
    (h : List.Forall₂ LineOf lines groups)
    (hfits : ∀ os ∈ groups, exactTotal (os.map Output.capacity) < 2 ^ 64) :
    (lines.map Output.capacity).map (fun n => (n.toNat : ℤ)) =
      groups.map fun os => (exactTotal (os.map Output.capacity) : ℤ) := by
  induction h with
  | nil => rfl
  | cons h₁ _ ih =>
    obtain ⟨hfits₁, hfits⟩ := List.forall_mem_cons.1 hfits
    rw [List.map_cons, List.map_cons, List.map_cons, ih hfits, h₁.capacity,
      toNat_sum_of_lt hfits₁]

theorem Accounts.exactSums {b : Books} (h : Accounts t b) (hinputs : b.plainInput + b.daoInput =
      inputTotal AnnotatedCellInputVal.isCounted (v.inputs.getD []))
    (houtputs : b.plainOutput + b.daoOutput + b.changeOutput = v.outputCapacity) (hv : Fits v) :
    ExactSums t b := by
  have hinput {p : AnnotatedCellInputVal → Bool} (hp : ∀ a, p a = true → a.isCounted = true) :
      (inputTotal p (v.inputs.getD [])).toNat = inputExact p (v.inputs.getD []) :=
    toNat_sum_of_lt ((inputExact_le hp _).trans_lt hv.inputs)
  have houtput (k : OutputKind) : (outputTotal k t.kinds).toNat = outputExact k t.kinds :=
    toNat_sum_of_lt ((t.outputExact_le k).trans_lt hv.outputs)
  exact {
    inputs := by rw [hinputs, hinput fun _ => id]; rfl
    plainInput := by rw [h.plainInput, hinput fun a ha => (Bool.and_eq_true_iff.1 ha).1]
    ownInput := by
      rw [h.ownInput, hinput fun a ha =>
        (Bool.and_eq_true_iff.1 (Bool.and_eq_true_iff.1 ha).1).1]
    daoInput := by rw [h.daoInput, hinput fun a ha => (Bool.and_eq_true_iff.1 ha).1]
    outputs := by rw [houtputs]; exact toNat_sum_of_lt hv.outputs
    plainOutput := by rw [h.plainOutput, houtput]
    changeOutput := by
      rw [h.changeOutput]
      split_ifs
      · rfl
      · exact houtput .change
    daoOutput := by rw [h.daoOutput, houtput] }

section Shown

variable {instruction : UInt8} {ps : List Packet} {prompt : Prompt}

/-- A transaction is a withdrawal if an input says so. -/
theorem Accepted.tag_withdraw (h : Accepted env P instruction ps prompt g v t) :
    g.maybe.v.tag = .daoWithdraw ↔ v.isWithdrawal = true := by
  rw [AnnotatedTransactionVal.isWithdrawal, List.any_eq_true]
  exact h.accounts.withdrawal

/-- The fee, or the compensation, is exact when it is not negative. -/
theorem Accepted.fee_exact (h : Accepted env P instruction ps prompt g v t) (hv : Fits v) :
    (g.maybe.v.totalFee.toNat : ℤ) = if g.maybe.v.tag = .daoWithdraw
      then -((v.inputExact : ℤ) - v.outputExact) else v.inputExact - v.outputExact := by
  have hinputs : (inputTotal AnnotatedCellInputVal.isCounted (v.inputs.getD [])).toNat =
      v.inputExact := toNat_sum_of_lt hv.inputs
  have houtputs : v.outputCapacity.toNat = v.outputExact := toNat_sum_of_lt hv.outputs
  have hbalance := hv.balance
  rw [h.finalized.totalFee, ← h.finalized.amounts.1, h.accounts.remainder]
  simp only [h.tag_withdraw]
  split_ifs with hwithdrawal
  · rw [if_pos hwithdrawal, ← hinputs, ← houtputs] at hbalance
    rw [UInt64.neg_sub, (toNat_sub_exact _ _).2 hbalance, hinputs, houtputs]
    omega
  · rw [if_neg hwithdrawal, ← hinputs, ← houtputs] at hbalance
    rw [(toNat_sub_exact _ _).2 hbalance, hinputs, houtputs]

/-- The numbers on the screens are exact when the sums fit. -/
theorem Accepted.figures_exact (h : Accepted env P instruction ps prompt g v t) (hv : Fits v)
    (hsums : ExactSums t g.books) {groups : List (List Output)}
    (hgroups : List.Forall₂ PaymentOf groups.flatten (payments t.kinds))
    (hlines : g.tx.isSelfTransfer = false → Lines g.books groups) :
    g.amounts.map (fun n => (n.toNat : ℤ)) =
      t.figures g.maybe.v.tag g.tx.isSelfTransfer groups := by
  have hfee := h.fee_exact hv
  obtain ⟨-, hplain, hdao, hdaoInput, hinput, -⟩ := h.finalized.amounts
  have hoperation := h.finalized.operation
  have hshown (htag : g.maybe.v.tag.isDao = false) : (g.maybe.v.amount.2.toNat : ℤ) =
      outputExact (if g.tx.isSelfTransfer then .change else .plain) t.kinds := by
    rw [hoperation.amount htag, ← hplain]
    exact congrArg Nat.cast hsums.plainOutput
  have hdeposit (htag : g.maybe.v.tag.isDao = true) : g.maybe.v.daoAmount =
      if g.maybe.v.tag = .daoWithdraw then g.daoInputAmount else g.tx.daoOutputAmount := by
    rw [hoperation.daoAmount htag, hdao, hdaoInput]
  have hdaoOutput : (g.tx.daoOutputAmount.toNat : ℤ) = outputExact .dao t.kinds :=
    congrArg Nat.cast hsums.daoOutput
  unfold SignState.amounts Transcript.figures
  dsimp only
  cases htag : g.maybe.v.tag
  all_goals rw [htag] at hfee hshown hdeposit
  case plainTransfer =>
    rw [List.map_cons, hshown rfl, List.map_cons, hfee]
    rfl
  case selfTransfer =>
    rw [List.map_cons, hshown rfl, List.map_cons, hfee]
    rfl
  case multiOutputTransfer =>
    have hself := h.accounts.multiOutput htag
    rw [List.map_append, List.map_cons, hshown rfl, List.map_cons, hfee]
    exact congrArg _ (toNat_lines (hlines hself).take.1 fun os hos =>
      (t.group_le hgroups hos).trans_lt hv.outputs)
  case multiInputTransfer =>
    have hown : (g.maybe.v.amount.1.toNat : ℤ) = inputExact
        (fun a => a.isCounted && !a.isDao && a.isOwn t.ownWindow) (v.inputs.getD []) := by
      rw [hoperation.ownAmount htag, ← hinput]
      exact congrArg Nat.cast hsums.ownInput
    rw [List.map_cons, hown, List.map_cons, hshown rfl, List.map_cons, hfee]
    rfl
  case daoDeposit =>
    rw [List.map_cons, hdeposit rfl, List.map_cons, hfee, if_neg (by decide), hdaoOutput]
    rfl
  case daoPrepare =>
    rw [List.map_cons, hdeposit rfl, List.map_cons, hfee, if_neg (by decide), hdaoOutput]
    rfl
  case daoWithdraw =>
    have hdaoInput : (g.daoInputAmount.toNat : ℤ) =
        inputExact (fun a => a.isCounted && a.isDao) (v.inputs.getD []) :=
      congrArg Nat.cast hsums.daoInput
    rw [List.map_cons, hdeposit rfl, List.map_cons, hfee, if_pos rfl, hdaoInput]
    rfl
  all_goals rfl

/-- What the lines of the screens are made from. -/
theorem Accepted.groups (h : Accepted env P instruction ps prompt g v t) :
    ∃ groups, List.Forall₂ PaymentOf groups.flatten (payments t.kinds) ∧
      (g.tx.isSelfTransfer = false → Lines g.books groups) := by
  cases hself : g.tx.isSelfTransfer with
  | false =>
    obtain ⟨groups, hlines, hpayments⟩ := h.accounts.lines hself
    exact ⟨groups, hpayments, fun _ => hlines⟩
  | true =>
    refine ⟨[], ?_, fun hbad => absurd hbad (by decide)⟩
    rw [h.accounts.payments hself]
    exact .nil

/-- The amounts are exact if and only if the sums fit. -/
theorem Accepted.exact_iff (h : Accepted env P instruction ps prompt g v t) :
    Exact t g prompt.screens ↔ Fits v := by
  have htag := h.tag_withdraw
  constructor
  · intro hexact
    have hbalance := hexact.balance
    simp only [htag] at hbalance
    refine ⟨?_, ?_, hbalance⟩
    · rw [← hexact.sums.inputs]
      exact UInt64.toNat_lt _
    · rw [← hexact.sums.outputs]
      exact UInt64.toNat_lt _
  · intro hv
    have hsums := h.accounts.exactSums h.accounts.inputs h.accounts.outputs hv
    obtain ⟨groups, hgroups, hlines⟩ := h.groups
    obtain ⟨nd, -, hprompt⟩ := h.complete
    have hbalance := hv.balance
    simp only [← htag] at hbalance
    refine ⟨⟨groups, hgroups, hlines, ?_⟩, hsums, hbalance⟩
    rw [amounts_screens (fun hmulti => (hlines (h.accounts.multiOutput hmulti)).outputCount_le)
      (SignState.signComplete_screens hprompt)]
    exact h.figures_exact hv hsums hgroups hlines

end Shown

end Fits

/-- **Exact amounts.**  When a session leads to the prompt, the numbers on the screens are the sums
and differences over the integers if and only if what comes in and what goes out fit into 64 bits
and there is enough for what goes out. -/
theorem amounts_exact_iff (env : Env) (instruction : UInt8) (ps : List Packet) (prompt : Prompt)
    (g : SignState) (h : signSession env instruction ps = some (prompt, g)) :
    (∃ v, ∃ t : Transcript env (fun _ => True) v,
      Accepted env (fun _ => True) instruction ps prompt g v t) ∧
    ∀ v (t : Transcript env (fun _ => True) v),
      Accepted env (fun _ => True) instruction ps prompt g v t →
        (Exact t g prompt.screens ↔ Fits v) := by
  refine ⟨signSession_transcript (fun _ _ => trivial) h, fun v t haccepted => ?_⟩
  exact haccepted.exact_iff

theorem amounts_exact_iff_payment :
    ∃ prompt g v, ∃ t : Transcript Env.reference (fun _ => True) v,
      signSession Env.reference 0x03 (cutPackets 3 payment.encode) = some (prompt, g) ∧
        Exact t g prompt.screens := by
  have hsome : (signSession Env.reference 0x03 (cutPackets 3 payment.encode)).isSome = true := by
    decide +kernel
  obtain ⟨⟨prompt, g⟩, h⟩ := Option.isSome_iff_exists.1 hsome
  obtain ⟨⟨v, t, haccepted⟩, hall⟩ := amounts_exact_iff Env.reference 0x03 _ prompt g h
  have hexact := hall v t haccepted
  obtain rfl := haccepted.value_eq_cut (by decide +kernel) (by decide) (by decide) (by decide)
  exact ⟨prompt, g, _, t, h, hexact.2 ⟨by decide, by decide, by decide⟩⟩

/-- A transaction that pays out more than comes in. -/
def overspent : AnnotatedTransaction :=
  { payment with raw := { payment.raw with
      outputs := payment.raw.outputs.map fun o => { o with capacity := 2000 } } }

/-- For a transaction that pays out more than comes in the prompt is put up, with a fee of almost
`2 ^ 64`. -/
theorem overspent_inexact :
    ∃ prompt g, signSession Env.reference 0x03 (cutPackets 3 overspent.encode) = some (prompt, g) ∧
      ⟨.text "Fee", .amount (-1000)⟩ ∈ prompt.screens ∧
      ∀ v (t : Transcript Env.reference (fun _ => True) v),
        Accepted Env.reference (fun _ => True) 0x03 (cutPackets 3 overspent.encode) prompt g v t →
          ¬ Exact t g prompt.screens := by
  have hsome : (signSession Env.reference 0x03 (cutPackets 3 overspent.encode)).isSome = true := by
    decide +kernel
  obtain ⟨⟨prompt, g⟩, h⟩ := Option.isSome_iff_exists.1 hsome
  have hfee : (signSession Env.reference 0x03 (cutPackets 3 overspent.encode)).any
      (fun r => decide (⟨.text "Fee", .amount (-1000)⟩ ∈ r.1.screens)) = true := by
    decide +kernel
  rw [h, Option.any_some, decide_eq_true_eq] at hfee
  refine ⟨prompt, g, h, hfee, fun v t haccepted hexact => ?_⟩
  obtain rfl := haccepted.value_eq_cut (by decide +kernel) (by decide) (by decide) (by decide)
  exact absurd (haccepted.exact_iff.1 hexact).balance (by decide)

end LedgerNervos
