import LedgerNervos.Sign.Accounting

/-!
# Contract data

The data of a cell that is no deposit cannot be shown; the screens can only say that there are
some.  `contractType` keeps track of it (`Transcript.contractType_stored`), but only the screens
for a plain transfer show it, and only when the last packet finds that contract data is allowed.
-/

namespace LedgerNervos

variable {env : Env} {P : NvramData → Prop} {g g' : SignState} {instruction : UInt8}
  {prompt : Prompt}

/-! ### The screen -/

/-- The screen that announces contract data. -/
def contractScreen : Screen := ⟨.text "Contract", .contractType .unknown⟩

theorem address_ne_contractType (o : Output) (c : ContractType) : o.address ≠ .contractType c := by
  unfold Output.address
  split_ifs
  · nofun
  · nofun

/-- The screens that announce contract data. -/
theorem contractScreen_mem {nd : NvramData} {screens : List Screen}
    (h : g.screens nd = some screens) :
    contractScreen ∈ screens ↔ g.maybe.v.tag = .plainTransfer ∧
      nd.contractDataType = .allow ∧ g.maybe.v.contractType = .unknown := by
  unfold SignState.screens at h
  dsimp only at h
  have haddress (o : Output) : ¬ ScreenValue.contractType .unknown = o.address :=
    (address_ne_contractType o .unknown).symm
  cases htag : g.maybe.v.tag
  case plainTransfer =>
    rw [htag] at h
    obtain rfl := Option.some.inj h
    by_cases hallow : nd.contractDataType = .allow
    · simp [contractScreen, hallow, haddress, eq_comm]
    · simp [contractScreen, hallow, haddress]
  case none | notSet =>
    rw [htag] at h
    cases h
  case multiOutputTransfer =>
    -- the lines have titles of their own
    rw [htag] at h
    obtain rfl := Option.some.inj h
    simp [contractScreen]
  case selfTransfer | multiInputTransfer | daoDeposit | daoPrepare | daoWithdraw =>
    -- no title is the one for contract data
    rw [htag] at h
    obtain rfl := Option.some.inj h
    simp [contractScreen]

/-- The prompt is put up by the last packet. -/
theorem signPackets_last {first : Bool} {s : ApduSignState} {ps : List Packet}
    (h : signPackets env instruction first s ps = some (prompt, g)) :
    ∃ p, ps.getLast? = some p ∧ g.signComplete p.nd instruction = .ok prompt := by
  induction ps generalizing first s with
  | nil => cases h
  | cons p ps ih =>
    simp only [signPackets] at h
    cases ha : s.handleApdu env p.nd instruction (packetP1 first ps.isEmpty p.noFallback) p.cdata
        p.io with
    | error x => rw [ha] at h; cases h
    | ok r =>
      obtain ⟨a, s', io'⟩ := r
      obtain ⟨_, _, -, -, rfl, hanswer⟩ := ApduSignState.handleApdu_ok ha
      rw [ha] at h
      cases a with
      | prompt prompt' =>
        simp only [Option.some.injEq, Prod.mk.injEq] at h
        obtain ⟨rfl, rfl⟩ := h
        obtain ⟨hlast, hcomplete⟩ := ApduSignState.answer_prompt hanswer
        rw [List.isEmpty_iff.1 hlast]
        exact ⟨p, rfl, hcomplete⟩
      | sent r => cases h
      | reply r =>
        obtain ⟨q, hq, hcomplete⟩ := ih h
        rw [List.getLast?_cons, hq]
        exact ⟨q, rfl, hcomplete⟩

/-! ### The contract type -/

/-- Some cell that is no deposit has data: one that an input refers to, or an output. -/
def AnnotatedTransactionVal.HasContractData (v : AnnotatedTransactionVal) : Prop :=
  (∃ a ∈ v.inputs.getD [], ∃ o d,
    a.cell = some o ∧ a.data = some d ∧ o.isDao = false ∧ d ≠ []) ∨
  ∃ (i : ℕ) (o : CellOutputVal) (d : List UInt8), (v.outputs.getD [])[i]? = some o ∧
    (v.outputsData.getD [])[i]? = some d ∧ o.isDao = false ∧ d ≠ []

/-- Contract data have been found, or data have been taken for those of a deposit. -/
def Books.Noticed (b : Books) : Prop :=
  b.contractType = .unknown ∨ b.tag = .daoPrepare ∨ b.tag = .daoDeposit

theorem InputTaken.contractType {b b' : Books} {a : AnnotatedCellInputVal}
    (h : InputTaken b a b') : b'.contractType =
      if a.hasData && !a.isDao then .unknown else b.contractType := by
  rw [h.books]

theorem DataTaken.noticed {b b' : Books} {l : UInt32 × List UInt8} (h : DataTaken env b l b')
    (hd : l.2 ≠ [] ∨ b.Noticed) : b'.Noticed := by
  have htype : b'.contractType =
      if !flagged env b.daoBitmask l.1 && l.2 ≠ [] then .unknown else b.contractType := by
    rw [h.books]
  have htag := h.tag
  cases hflag : flagged env b.daoBitmask l.1 with
  | true =>
    rw [if_pos hflag] at htag
    exact .inr htag.1
  | false =>
    rw [hflag] at htag htype
    rcases hd with hd | hd | hd
    · refine .inl ?_
      rw [htype]
      exact if_pos (by simpa using hd)
    · refine .inl ?_
      rw [htype, hd]
      exact ite_self _
    · refine .inr ?_
      rw [if_neg Bool.false_ne_true] at htag
      rwa [htag]

namespace Transcript

variable {v : AnnotatedTransactionVal} (t : Transcript env P v)

/-- The contract type behind the inputs is that behind the outputs. -/
theorem contractType_paid (hok : t.last.maybe.hardReject = false)
    (hsafe : t.last.maybe.isUnsafe = false) :
    t.paid.books.contractType = t.spent.books.contractType :=
  t.paid_frame hok hsafe (fun _ _ _ hstep => by rw [hstep.books]) fun _ _ _ _ _ _ _ => rfl

/-- Contract data are noticed. -/
theorem noticed_stored (hok : t.last.maybe.hardReject = false)
    (hsafe : t.last.maybe.isUnsafe = false) (hv : v.HasContractData) : t.stored.books.Noticed := by
  have hdata := t.books_stored hok hsafe
  rcases hv with ⟨a, ha, o, d, hcell, hd, hdao, hne⟩ | ⟨i, o, d, -, hd, -, hne⟩
  · have hcontract : (a.hasData && !a.isDao) = true := by
      rw [AnnotatedCellInputVal.hasData, hd, AnnotatedCellInputVal.isDao, hcell, Option.any_some,
        Option.any_some, hdao, decide_eq_true hne]
      rfl
    have hspent : t.spent.books.contractType = .unknown :=
      (t.books_spent hok hsafe).of_mem (I := fun b => b.contractType = .unknown) ha
        (fun b b' hstep => by rw [hstep.contractType, if_pos hcontract])
        fun b a b' hstep hb => by rw [hstep.contractType, hb]; exact ite_self _
    rw [← t.contractType_paid hok hsafe] at hspent
    exact hdata.invariant (I := Books.Noticed) (.inl hspent)
      fun _ _ _ _ hstep hb => hstep.noticed (.inr hb)
  · exact hdata.of_mem (I := Books.Noticed) (mem_numbered_of_getElem? hd)
      (fun _ _ hstep => hstep.noticed (.inl hne)) fun _ _ _ hstep hb => hstep.noticed (.inr hb)

/-- At the end of the raw transaction, the transaction is taken for a plain transfer: no operation
has been chosen, the cells come from one source, and something goes to others. -/
structure PlainTransfer : Prop where
  tag : t.stored.maybe.v.tag = .notSet ∨ t.stored.maybe.v.tag = .plainTransfer
  source : ¬ 1 < t.stored.distinctInputSources
  self : t.stored.tx.isSelfTransfer = false

/-- No operation on deposits has been chosen. -/
theorem PlainTransfer.isDao_eq_false {t : Transcript env P v} (h : t.PlainTransfer) :
    t.stored.maybe.v.tag.isDao = false := by
  rcases h.tag with htag | htag
  · rw [htag]
    rfl
  · rw [htag]
    rfl

end Transcript

/-- Contract data are announced for plain transfers, while they are allowed. -/
theorem Accepted.announced_iff {ps : List Packet} {v : AnnotatedTransactionVal}
    {t : Transcript env P v} (h : Accepted env P instruction ps prompt g v t) {nd : NvramData}
    (hprompt : g.signComplete nd instruction = .ok prompt) (hv : v.HasContractData) :
    contractScreen ∈ prompt.screens ↔ t.PlainTransfer ∧ nd.contractDataType = .allow := by
  have hoperation := h.finalized.operation
  have hnoticed := t.noticed_stored h.hardReject h.isUnsafe hv
  have htype : g.maybe.v.contractType = t.stored.maybe.v.contractType :=
    congrArg Books.contractType h.finalized.books
  rw [contractScreen_mem (SignState.signComplete_screens hprompt), hoperation.plainTransfer_iff]
  constructor
  · rintro ⟨⟨htag, hsource, hself⟩, hallow, -⟩
    exact ⟨⟨htag, hsource, hself⟩, hallow⟩
  · rintro ⟨hplain, hallow⟩
    refine ⟨⟨hplain.tag, hplain.source, hplain.self⟩, hallow, htype.trans ?_⟩
    -- data that have been taken for those of a deposit have chosen another operation
    have hother {tag : OperationTag} (hbad : t.stored.maybe.v.tag = tag) : tag.isDao = false :=
      hbad ▸ hplain.isDao_eq_false
    rcases hnoticed with hunknown | hdeposit | hprepare
    · exact hunknown
    · exact absurd (hother hdeposit) (by decide)
    · exact absurd (hother hprepare) (by decide)

/-- **Contract data.**  When a session leads to the prompt for a transaction with contract data,
the screens announce them if and only if the transaction is taken for a plain transfer and contract
data are allowed when the last packet arrives. -/
theorem contract_announced_iff (env : Env) (instruction : UInt8) (ps : List Packet)
    (prompt : Prompt) (g : SignState)
    (h : signSession env instruction ps = some (prompt, g)) :
    (∃ v, ∃ t : Transcript env (fun _ => True) v,
      Accepted env (fun _ => True) instruction ps prompt g v t) ∧
    ∃ last, ps.getLast? = some last ∧
      ∀ v (t : Transcript env (fun _ => True) v),
        Accepted env (fun _ => True) instruction ps prompt g v t →
          (v.HasContractData → (contractScreen ∈ prompt.screens ↔
            t.PlainTransfer ∧ last.nd.contractDataType = .allow)) := by
  obtain ⟨last, hlast, hprompt⟩ := signPackets_last h
  exact ⟨signSession_transcript (fun _ _ => trivial) h, last, hlast,
    fun v t haccepted => haccepted.announced_iff hprompt⟩

/-- A payment with contract data. -/
def contractPayment : AnnotatedTransaction :=
  { payment with raw := { payment.raw with outputsData := [[1]] } }

/-- The same transaction, but what is paid goes back to the owner of the key. -/
def contractSelfTransfer : AnnotatedTransaction :=
  { contractPayment with raw := { contractPayment.raw with
      outputs := [⟨600, sighashLock referenceLockArg, none⟩] } }

/-- Packets that find contract data allowed. -/
def allowingPackets (n : ℕ) (bs : List UInt8) : List Packet :=
  (cutPackets n bs).map fun p => { p with nd := { contractDataType := .allow } }

theorem joined_allowingPackets (n : ℕ) {bs : List UInt8} (h : bs.length ≤ n * maxApduSize) :
    joined ((allowingPackets n bs).map Packet.chunk) = bs := by
  rw [allowingPackets, List.map_map]
  exact joined_cutPackets n h

theorem contract_announced_iff_payment :
    ∃ prompt g v, ∃ t : Transcript Env.reference (fun _ => True) v,
      signSession Env.reference 0x03 (allowingPackets 3 contractPayment.encode) =
        some (prompt, g) ∧ v.HasContractData ∧ contractScreen ∈ prompt.screens ∧
        t.PlainTransfer := by
  have hsome : (signSession Env.reference 0x03
      (allowingPackets 3 contractPayment.encode)).any
        (fun r => decide (contractScreen ∈ r.1.screens)) = true := by
    decide +kernel
  obtain ⟨⟨prompt, g⟩, h, hscreen⟩ := (Option.any_eq_true _ _).1 hsome
  obtain ⟨⟨v, t, haccepted⟩, last, -, hall⟩ :=
    contract_announced_iff Env.reference 0x03 _ prompt g h
  have hannounced := hall v t haccepted
  have hvalue : v = contractPayment.value := haccepted.value_eq
    (joined_allowingPackets 3 (by decide +kernel)) (by decide +kernel) (by decide) (by decide)
  have hdata : v.HasContractData := by
    rw [hvalue]
    exact .inr ⟨0, _, _, rfl, rfl, rfl, by decide⟩
  exact ⟨prompt, g, v, t, h, hdata, of_decide_eq_true hscreen,
    ((hannounced hdata).1 (of_decide_eq_true hscreen)).1⟩

/-- Contract data that go back to the owner of the key are not announced. -/
theorem contractSelfTransfer_unannounced :
    ∃ prompt g, signSession Env.reference 0x03 (allowingPackets 3 contractSelfTransfer.encode) =
        some (prompt, g) ∧ contractScreen ∉ prompt.screens ∧
      ∀ v (t : Transcript Env.reference (fun _ => True) v),
        Accepted Env.reference (fun _ => True) 0x03
          (allowingPackets 3 contractSelfTransfer.encode) prompt g v t → v.HasContractData := by
  have hsome : (signSession Env.reference 0x03
      (allowingPackets 3 contractSelfTransfer.encode)).any
        (fun r => decide (contractScreen ∉ r.1.screens)) = true := by
    decide +kernel
  obtain ⟨⟨prompt, g⟩, h, hscreen⟩ := (Option.any_eq_true _ _).1 hsome
  refine ⟨prompt, g, h, of_decide_eq_true hscreen, fun v t haccepted => ?_⟩
  have hvalue : v = contractSelfTransfer.value := haccepted.value_eq
    (joined_allowingPackets 3 (by decide +kernel)) (by decide +kernel) (by decide) (by decide)
  rw [hvalue]
  exact .inr ⟨0, _, _, rfl, rfl, rfl, by decide⟩

end LedgerNervos
