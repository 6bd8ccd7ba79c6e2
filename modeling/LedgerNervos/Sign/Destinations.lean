import LedgerNervos.Display.AddressReader
import LedgerNervos.Sign.Classification
import LedgerNervos.Sign.Grouping

/-!
# Destinations

The address on the screens should name the lock script of the outputs it stands for.  The args of
an output pass through 28 bytes of memory, of which the address shows the first 20, or all when the
lock is a multisig one with a lock period; and payments that follow each other share an address
when the first 20 bytes agree.  `destinations_faithful_iff` says for which outputs the address is
right.
-/

namespace LedgerNervos

variable {env : Env} {P : NvramData → Prop} {g g' x : SignState}

/-! ### Addresses for the args -/

/-- There is an address for the args of the lock script: they have 20 bytes, or there is a lock
period behind them and the lock is a multisig one. -/
def CellOutputVal.Addressable (o : CellOutputVal) : Prop :=
  o.lock.args.length = 20 ∨ o.isMultisig = true ∧ o.lock.args.length = 28 ∧
    o.lock.args.drop 20 ≠ List.replicate 8 0

instance (o : CellOutputVal) : Decidable o.Addressable := inferInstanceAs (Decidable (_ ∨ _))

/-- Outputs with locks of one kind, whose first 20 bytes of args agree, have the same args. -/
def CellOutputVal.KeptApart (o o' : CellOutputVal) : Prop :=
  o.isMultisig = o'.isMultisig → o.lock.args.take 20 = o'.lock.args.take 20 →
    o.lock.args = o'.lock.args

instance (o o' : CellOutputVal) : Decidable (o.KeptApart o') :=
  inferInstanceAs (Decidable (_ → _))

/-- When all outputs `os` are named by the addresses that are shown for them. -/
structure Addressed (os : List CellOutputVal) : Prop where
  addressable : ∀ o ∈ os, o.Addressable
  keptApart : os.IsChain CellOutputVal.KeptApart

/-- Standard locks of one kind with the same args are the same. -/
theorem lockScript_eq {o o' : CellOutputVal} (ho : o.Standard) (ho' : o'.Standard)
    (hkind : o.isMultisig = o'.isMultisig) (hargs : o.lock.args = o'.lock.args) :
    o.lockScript = o'.lockScript := by
  have hcode : o.lock.codeHash = o'.lock.codeHash := by
    have hiff : o.lock.codeHash = multisigLockScript ↔ o'.lock.codeHash = multisigLockScript :=
      decide_eq_decide.1 hkind
    rcases ho.lockCodeHash with hcode | hcode
    · rcases ho'.lockCodeHash with hcode' | hcode'
      · exact hcode.trans hcode'.symm
      · exact (hiff.2 hcode').trans hcode'.symm
    · exact hcode.trans (hiff.1 hcode).symm
  rw [CellOutputVal.lockScript, CellOutputVal.lockScript, hcode, hargs, ho.lockHashType,
    ho'.lockHashType]

/-- The first 20 of 28 bytes, of which the args fill at least as many. -/
theorem hash_ofList_args {args : List UInt8} (h : 20 ≤ args.length) :
    (LockArg.hash (Bytes.ofList 28 args)).1 = args.take 20 := by
  change ((args.take 28 ++ List.replicate (28 - args.length) 0).take 20) = args.take 20
  rw [List.take_append_of_le_length (by rw [List.length_take]; omega), List.take_take]
  rfl

/-- Behind the first 20 bytes of args there is the lock period. -/
theorem lockPeriod_ofList {args : List UInt8} (h : args.length = 20 ∨ args.length = 28) :
    LockArg.lockPeriod (Bytes.ofList 28 args) = .zero 8 ↔
      args.length = 20 ∨ args.drop 20 = List.replicate 8 0 := by
  rw [Subtype.ext_iff]
  change (args.take 28 ++ List.replicate (28 - args.length) 0).drop 20 = List.replicate 8 0 ↔ _
  rcases h with h | h
  · rw [List.take_of_length_le (by omega), h, List.drop_append_of_le_length (by omega),
      List.drop_of_length_le (by omega)]
    exact iff_of_true rfl (.inl rfl)
  · rw [List.take_of_length_le (by omega), h, Nat.sub_self, List.replicate_zero, List.append_nil]
    exact ⟨.inr, fun hzero => hzero.resolve_left (by decide)⟩

/-- The address that a payment is shown with on its own. -/
theorem PaymentOf.lockScript_eq {p : Output} {o : CellOutputVal} (h : PaymentOf p o)
    (ho : o.Standard) (hargs : o.Addressable) : p.lockScript = o.lockScript := by
  have hlength : o.lock.args.length = 20 ∨ o.lock.args.length = 28 :=
    hargs.imp id fun hlocked => hlocked.2.1
  have hdestination := h.destination (by omega)
  have hhash := hash_ofList_args (show 20 ≤ o.lock.args.length by omega)
  have hperiod := lockPeriod_ofList hlength
  rw [← hdestination] at hhash hperiod
  rw [Output.lockScript, Output.addressKind, h.isMultisig, CellOutputVal.lockScript,
    ho.lockHashType]
  by_cases hmultisig : o.isMultisig = true
  · have hcode : o.lock.codeHash = multisigLockScript := of_decide_eq_true hmultisig
    rw [if_pos hmultisig, hcode]
    simp only [AddressKind.lockScript]
    congr 1
    split_ifs with hzero
    · have htwenty : o.lock.args.length = 20 := by
        rcases hargs with htwenty | ⟨-, -, hlocked⟩
        · exact htwenty
        · exact (hperiod.1 hzero).resolve_right hlocked
      rw [hhash, List.take_of_length_le htwenty.le]
    · have hlong : o.lock.args.length = 28 :=
        hlength.resolve_left fun htwenty => hzero (hperiod.2 (.inl htwenty))
      rw [hdestination, Bytes.ofList_of_length hlong]
  · have hcode : o.lock.codeHash = defaultLockScript :=
      ho.lockCodeHash.resolve_right fun hbad => hmultisig (decide_eq_true hbad)
    have htwenty : o.lock.args.length = 20 := hargs.resolve_right fun hbad => hmultisig hbad.1
    rw [if_neg hmultisig, hcode]
    simp only [AddressKind.lockScript]
    rw [hhash, List.take_of_length_le htwenty.le]

/-- What an address names has an address. -/
theorem addressable_of_lockScript {e : Output} {o : CellOutputVal}
    (h : e.lockScript = o.lockScript) : o.Addressable := by
  have hargs : o.lock.args = e.lockScript.args := by rw [h]; rfl
  have hcode : o.lock.codeHash = e.lockScript.codeHash := by rw [h]; rfl
  have hhash : (LockArg.hash e.destination).1.length = 20 := (LockArg.hash e.destination).2
  rw [CellOutputVal.Addressable, hargs]
  unfold Output.lockScript Output.addressKind
  split_ifs with hmultisig
  · simp only [AddressKind.lockScript]
    split_ifs with hperiod
    · exact .inl hhash
    · refine .inr ⟨decide_eq_true (hcode.trans (e.lockScript_kind.1.2 hmultisig)),
        e.destination.2, fun hzero => hperiod (Subtype.ext hzero)⟩
  · exact .inl hhash

/-- The address tells the kind of the lock, and the first 20 bytes of the args. -/
theorem kind_of_lockScript {e : Output} {o : CellOutputVal} (h : e.lockScript = o.lockScript) :
    o.isMultisig = e.isMultisig ∧ o.lock.args.take 20 = (LockArg.hash e.destination).1 := by
  obtain ⟨hkind, hargs⟩ := e.lockScript_kind
  rw [h] at hkind hargs
  refine ⟨?_, hargs⟩
  rw [Bool.eq_iff_iff, ← hkind]
  exact decide_eq_true_iff

/-! ### Lines -/

/-- A relation between entries is one between groups of them. -/
theorem forall₂_flatten {α β : Type} {R : α → β → Prop} {groups : List (List α)} {bs : List β}
    (h : List.Forall₂ R groups.flatten bs) :
    ∃ groups', groups'.flatten = bs ∧ List.Forall₂ (List.Forall₂ R) groups groups' := by
  induction groups generalizing bs with
  | nil => exact ⟨[], (List.forall₂_nil_left_iff.1 h).symm, .nil⟩
  | cons as groups ih =>
    rw [List.flatten_cons] at h
    have hflip := h.flip
    obtain ⟨groups', hflatten, hgroups⟩ := ih (List.forall₂_drop_append _ _ _ hflip).flip
    refine ⟨bs.take as.length :: groups', ?_, .cons ?_ hgroups⟩
    · rw [List.flatten_cons, hflatten, List.take_append_drop]
    · exact (List.forall₂_take_append _ _ _ hflip).flip

/-- The address of a line names the lock scripts of all its payments, when they have addresses and
are kept apart. -/
theorem LineOf.names {e : Output} {ps : List Output} {os : List CellOutputVal}
    (h : LineOf e ps) (hpayments : List.Forall₂ PaymentOf ps os) (ho : ∀ o ∈ os, o.Standard)
    (hargs : ∀ o ∈ os, o.Addressable) (hchain : os.IsChain CellOutputVal.KeptApart) :
    ∀ o ∈ os, e.lockScript = o.lockScript := by
  -- all payments have the kind and the first 20 bytes of the line
  have hkind : ∀ o ∈ os, o.isMultisig = e.isMultisig ∧
      o.lock.args.take 20 = (LockArg.hash e.destination).1 := by
    intro o hmem
    obtain ⟨k, hk⟩ := List.mem_iff_getElem?.1 hmem
    obtain ⟨p, hp, hpo⟩ := forall₂_getElem? hpayments hk
    obtain ⟨hhash, hsame⟩ := h.same p (List.mem_of_getElem? hp)
    obtain ⟨hpkind, hpargs⟩ := kind_of_lockScript (hpo.lockScript_eq (ho o hmem) (hargs o hmem))
    exact ⟨hpkind.trans hsame.symm, hpargs.trans (congrArg Subtype.val hhash).symm⟩
  have hscripts : os.IsChain fun o o' => o.lockScript = o'.lockScript := by
    refine hchain.imp_of_mem_imp fun o o' hmem hmem' hapart => ?_
    obtain ⟨hk, ha⟩ := hkind o hmem
    obtain ⟨hk', ha'⟩ := hkind o' hmem'
    have hsame := hk.trans hk'.symm
    exact lockScript_eq (ho o hmem) (ho o' hmem') hsame (hapart hsame (ha.trans ha'.symm))
  cases hpayments with
  | nil => exact absurd rfl h.nonempty
  | @cons p o ps os hpo _ =>
    have hfirst : e.lockScript = o.lockScript := by
      have hmem := List.mem_cons_self (a := o) (l := os)
      have hsame := (h.same p (List.mem_cons_self ..)).2
      rw [← hpo.lockScript_eq (ho o hmem) (hargs o hmem), Output.lockScript, Output.lockScript,
        Output.addressKind, Output.addressKind, hsame, h.destination p rfl]
    have : IsTrans CellOutputVal fun o o' => o.lockScript = o'.lockScript :=
      ⟨fun _ _ _ => Eq.trans⟩
    have hall := (List.pairwise_cons.1 (List.isChain_iff_pairwise.1 hscripts)).1
    exact List.forall_mem_cons.2 ⟨hfirst, fun o' hmem' => hfirst.trans (hall o' hmem')⟩

/-! ### Transfers to oneself -/

/-- Closing the outputs makes the transaction one to oneself when there is no deposit in the mask,
no payment, and something goes back.  The change address is shown then. -/
theorem outputsEnd_self (htag : x.maybe.v.tag.isDao = false) (hself : x.tx.isSelfTransfer = false)
    (h : x.outputsEnd = .ok g') :
    (g'.tx.isSelfTransfer = true ↔ x.tx.daoBitmask = 0 ∧
      x.maybe.v.flags.hasDestinationAddress = false ∧ x.maybe.v.flags.hasChangeAddress = true) ∧
      (g'.tx.isSelfTransfer = true → g'.tx.outputs = x.tx.outputs.modify 0 fun o =>
        { o with destination := o.destination.write 0 x.changeLockArg.1 }) := by
  by_cases hmask : x.tx.daoBitmask = 0
  · obtain ⟨-, hclosed⟩ := outputsEnd_plain hmask htag h
    split_ifs at hclosed with hflags
    · exact ⟨iff_of_true hclosed.1 ⟨hmask, hflags⟩, fun _ => hclosed.2⟩
    · refine ⟨iff_of_false (Bool.eq_false_iff.1 hclosed.1) fun hbad => hflags hbad.2,
        fun hbad => absurd hbad (Bool.eq_false_iff.1 hclosed.1)⟩
  · -- with a deposit in the mask, nothing happens
    have hsame : x.outputsEnd = .ok x := by
      unfold SignState.outputsEnd
      rw [if_pos (.inl hmask)]
    obtain rfl := Except.ok.inj (hsame.symm.trans h)
    exact ⟨iff_of_false (Bool.eq_false_iff.1 hself) fun hbad => hmask hbad.1,
      fun hbad => absurd hbad (Bool.eq_false_iff.1 hself)⟩

section Session

variable {v : AnnotatedTransactionVal} (t : Transcript env P v) {instruction : UInt8}
  {ps : List Packet} {prompt : Prompt}

/-- The kind of the outputs that a transfer shows: what goes back, if there is nothing else. -/
def Transcript.shownKind : OutputKind :=
  if LedgerNervos.payments t.kinds = [] ∧ daoMask env (v.outputs.getD []) = 0 then .change
  else .plain

/-- The outputs whose destinations are shown, when a transfer is. -/
def Transcript.shownOutputs : List CellOutputVal :=
  (t.kinds.filter fun l => l.1 = t.shownKind).map fun l => l.2.2

variable {t}

/-- Behind the outputs, the flags say of which kinds they are. -/
theorem Transcript.flags_closing (hfresh : t.spent.books.flags = {})
    (houtputs : Runs (OutputTaken env) t.spent.books t.kinds x.books) :
    (x.maybe.v.flags.hasDestinationAddress = false ↔ LedgerNervos.payments t.kinds = []) ∧
      (x.maybe.v.flags.hasChangeAddress = true ↔ ∃ l ∈ t.kinds, l.1 ≠ .plain) := by
  have hplain := houtputs.iff_exists (I := fun _ => True) (q := fun l => l.1 = .plain)
    (p := fun b => b.flags.hasDestinationAddress = true) trivial
    fun b l b' hstep _ => ⟨trivial, by rw [hstep.books]; simp⟩
  have hback := houtputs.iff_exists (I := fun _ => True) (q := fun l => l.1 ≠ .plain)
    (p := fun b => b.flags.hasChangeAddress = true) trivial
    fun b l b' hstep _ => ⟨trivial, by rw [hstep.books]; simp⟩
  rw [hfresh, or_iff_right Bool.false_ne_true] at hplain hback
  refine ⟨?_, hback⟩
  rw [← Bool.not_eq_true, show x.maybe.v.flags.hasDestinationAddress = true ↔ _ from hplain,
    LedgerNervos.payments, List.map_eq_nil_iff, List.filter_eq_nil_iff]
  simp only [decide_eq_true_eq, not_exists, not_and]

/-- The outputs that are shown, and the address that is shown for them in a transfer to oneself. -/
theorem Accepted.shownOutputs (h : Accepted env P instruction ps prompt g v t)
    (htag : g.maybe.v.tag.isDao = false) :
    (g.tx.isSelfTransfer = false → t.shownOutputs = LedgerNervos.payments t.kinds) ∧
      (g.tx.isSelfTransfer = true → t.shownKind = .change ∧
        (g.tx.outputs.getD 0 {}).address = .sighashAddress t.spent.changeLockArg) := by
  obtain ⟨-, -, hpaidOk, -⟩ := t.hardReject_parts h.hardReject
  obtain ⟨-, hpaidSafe, -⟩ := t.isUnsafe_parts h.isUnsafe
  obtain ⟨tr, x, htrace, hvisits, houtput, hworse, hend⟩ := t.outputs_run
  have houtputs : Runs (OutputTaken env) t.spent.books t.kinds x.books :=
    Transcript.books_closing htrace hvisits (hworse.ok hpaidOk) (hworse.safe hpaidSafe)
  have hclosed := SignState.outputsEnd_effect hend
  have hinputs := t.books_spent h.hardReject h.isUnsafe
  have hflags := t.flags_closing
    (hinputs.frame (f := Books.flags) fun b a b' _ hstep => by rw [hstep.books]) houtputs
  have hopen : x.tx.isSelfTransfer = false :=
    (houtputs.frame (f := Books.isSelfTransfer) fun b l b' _ hstep => by rw [hstep.books]).trans
      (t.fresh_spent h.hardReject h.isUnsafe).2.1
  have hmask : x.tx.daoBitmask = daoMask env (v.outputs.getD []) :=
    (hclosed.frame (f := Books.daoBitmask) fun _ _ _ _ _ _ _ => rfl).symm.trans
      (t.daoBitmask_paid h.hardReject h.isUnsafe)
  have hchange : x.changeLockArg = t.spent.changeLockArg :=
    houtputs.frame (f := Books.change) fun b l b' _ hstep => by rw [hstep.books]
  -- an operation on deposits would be kept
  have hplainTag : x.maybe.v.tag.isDao = false := by
    have hpaid : t.paid.maybe.v.tag = x.maybe.v.tag :=
      hclosed.frame (f := Books.tag) fun _ _ _ _ _ _ _ => rfl
    rw [h.finalized.operation.tag_isDao] at htag
    rw [← hpaid]
    rcases (t.books_stored h.hardReject h.isUnsafe).tagChosen with hsame | ⟨hunset, -⟩
    · exact (congrArg OperationTag.isDao hsame).symm.trans htag
    · exact congrArg OperationTag.isDao hunset
  obtain ⟨hself, houtputs⟩ := outputsEnd_self hplainTag hopen hend
  rw [hmask, hflags.1, hflags.2] at hself
  have hsame := h.sameAmounts.books
  have hselfEq : g.tx.isSelfTransfer = t.paid.tx.isSelfTransfer :=
    congrArg Books.isSelfTransfer hsame
  have houtputsEq : g.tx.outputs = t.paid.tx.outputs := congrArg Books.outputs hsame
  rw [hselfEq, houtputsEq]
  constructor
  · intro hother
    by_cases hshown : t.shownKind = .plain
    · rw [Transcript.shownOutputs, hshown]
      rfl
    · -- nothing is shown as there is nothing
      rw [Transcript.shownKind] at hshown
      split_ifs at hshown with hnone
      · have hkinds : t.kinds = [] := by
          by_contra hne
          obtain ⟨l, hl⟩ := List.exists_mem_of_ne_nil _ hne
          refine Bool.eq_false_iff.1 hother (hself.2 ⟨hnone.2, hnone.1, l, hl, fun hplain => ?_⟩)
          have hmem := List.filter_eq_nil_iff.1 (List.map_eq_nil_iff.1 hnone.1) l hl
          exact hmem (decide_eq_true hplain)
        rw [Transcript.shownOutputs, hkinds]
        rfl
      · exact absurd rfl hshown
  · intro hback
    obtain ⟨hzero, hnone, -⟩ := hself.1 hback
    refine ⟨if_pos ⟨hnone, hzero⟩, ?_⟩
    obtain ⟨-, groups, hlines, hflatten⟩ := hvisits.lines houtput (hworse.safe hpaidSafe)
      (t.fresh_spent h.hardReject h.isUnsafe).2.2
    have hblank : x.tx.outputs = List.replicate maxOutputs {} := by
      have hclear := hflags.1.2 hnone
      have hgroups : groups = [] := by
        by_contra hne
        rw [show x.maybe.v.flags.hasDestinationAddress = true from
          hlines.hasDestination.2 hne] at hclear
        cases hclear
      subst hgroups
      obtain ⟨lines, hlineOf, -, houtputs⟩ := hlines.lines
      obtain rfl := List.forall₂_nil_right_iff.1 hlineOf
      exact houtputs
    rw [houtputs hback, hblank, hchange]
    exact congrArg ScreenValue.sighashAddress (hash_write_zero t.spent.changeLockArg)

/-- **The address for every output that is shown.**  The outputs `os` are found on the screens in
groups of ones that follow each other, each with an amount that is theirs, and with an address that
names the lock script of all of them: its code hash, its hash type, and all of its args. -/
def DestinationsNamed (os : List CellOutputVal) (screens : List Screen) : Prop :=
  ∃ groups : List (List CellOutputVal), groups.flatten = os ∧ [] ∉ groups ∧
    ∀ (k : ℕ) os, groups[k]? = some os → ∃ s, (shownPayments screens)[k]? = some s ∧
      s.1 = (os.map CellOutputVal.capacity).sum ∧ ∀ o ∈ os, s.2.Names o.lockScript

/-- Of a transfer with one destination, the amount and the first line are shown. -/
theorem Accepted.shownPayments_single (h : Accepted env P instruction ps prompt g v t)
    (htag : g.maybe.v.tag.isDao = false) (hmulti : g.maybe.v.tag ≠ .multiOutputTransfer) :
    g.shownPayments = [(g.maybe.v.amount.2, (g.tx.outputs.getD 0 {}).address)] := by
  obtain ⟨nd, -, hprompt⟩ := h.complete
  obtain ⟨hnone, hset⟩ := SignState.signComplete_tag hprompt
  unfold SignState.shownPayments
  cases htag' : g.maybe.v.tag
  case none => exact absurd htag' hnone
  case notSet => exact absurd htag' hset
  case multiOutputTransfer => exact absurd htag' hmulti
  all_goals first
    | rfl
    | (rw [htag'] at htag; cases htag)

/-- A transfer to oneself shows all that goes back at the change address. -/
theorem Accepted.shownPayments_self (h : Accepted env P instruction ps prompt g v t)
    (htag : g.maybe.v.tag.isDao = false) (hself : g.tx.isSelfTransfer = true) :
    g.shownPayments = [((t.shownOutputs.map CellOutputVal.capacity).sum,
      .sighashAddress t.spent.changeLockArg)] := by
  obtain ⟨hkind, haddress⟩ := (h.shownOutputs htag).2 hself
  have hmulti : g.maybe.v.tag ≠ .multiOutputTransfer := by
    intro hbad
    rw [show g.tx.isSelfTransfer = false from h.accounts.multiOutput hbad] at hself
    cases hself
  have hamount : g.maybe.v.amount.2 = (t.shownOutputs.map CellOutputVal.capacity).sum := by
    have hplain := h.accounts.plainOutput
    rw [show g.books.isSelfTransfer = true from hself, if_pos rfl] at hplain
    rw [h.finalized.operation.amount htag, ← h.finalized.amounts.2.1,
      show g.tx.plainOutputAmount = _ from hplain, outputTotal, Transcript.shownOutputs, hkind,
      List.map_map]
    rfl
  rw [h.shownPayments_single htag hmulti, hamount, haddress]

/-- What goes back has the kind and the first args of the change address. -/
theorem mem_classified_change {change owner : StandardLockArg} {i j : UInt32}
    {os : List CellOutputVal} {o : CellOutputVal}
    (h : (.change, j, o) ∈ classified change owner i os) :
    o ∈ os ∧ o.isMultisig = false ∧ ∃ owner : StandardLockArg,
      o.lock.args <+: change.1 ++ owner.1.take 8 := by
  induction os generalizing owner i with
  | nil => exact absurd h List.not_mem_nil
  | cons o' os ih =>
    rw [classified, List.mem_cons] at h
    rcases h with h | h
    · obtain ⟨hkind, -, rfl⟩ : .change = o'.kind change owner ∧ j = i ∧ o = o' := by
        simpa using h
      rw [CellOutputVal.kind] at hkind
      split_ifs at hkind with hdao hback
      obtain ⟨hargs, hsingle⟩ := Bool.and_eq_true_iff.1 hback
      exact ⟨List.mem_cons_self .., by simpa using hsingle, owner,
        List.isPrefixOf_iff_prefix.1 hargs⟩
    · obtain ⟨hmem, hrest⟩ := ih h
      exact ⟨List.mem_cons_of_mem _ hmem, hrest⟩

/-- What goes back is named by the change address, when it has an address at all. -/
theorem names_change {change owner : StandardLockArg} {o : CellOutputVal} (ho : o.Standard)
    (hsingle : o.isMultisig = false) (hargs : o.lock.args <+: change.1 ++ owner.1.take 8)
    (haddress : o.Addressable) : (ScreenValue.sighashAddress change).Names o.lockScript := by
  have hlength : o.lock.args.length = 20 := haddress.resolve_right fun hbad => by
    rw [hsingle] at hbad
    cases hbad.1
  have hsame : o.lock.args = change.1 := prefix_iff_eq_iff.2 (.inl hlength) |>.1 hargs
  have hcode : o.lock.codeHash = defaultLockScript :=
    ho.lockCodeHash.resolve_right fun hbad => by
      rw [show o.isMultisig = true from decide_eq_true hbad] at hsingle
      cases hsingle
  intro nd
  have haddr := AddressKind.sighash.readAddress_render nd
    ⟨change.1 ++ (Bytes.zero 8).1, by simp⟩
  have hhash : LockArg.hash ⟨change.1 ++ (Bytes.zero 8).1, by simp⟩ = change :=
    Subtype.ext (List.take_left' change.2)
  simp only [AddressKind.render, AddressKind.lockScript, hhash] at haddr
  rw [CellOutputVal.lockScript, hcode, ho.lockHashType, hsame]
  exact haddr

/-- Under the strict settings, all outputs are ones that the prompts can describe. -/
theorem Accepted.standard_kinds (hP : Strict P)
    (h : Accepted env P instruction ps prompt g v t) : ∀ l ∈ t.kinds, l.2.2.Standard := by
  intro l hl
  have hmem : l.2 ∈ numbered 0 (v.outputs.getD []) := by
    rw [← map_classified t.spent.changeLockArg t.spent.daoCellOwner]
    exact List.mem_map_of_mem hl
  exact (t.strictTaken hP h.hardReject h.isUnsafe).output _ hmem

/-- The outputs that are shown are among the outputs. -/
theorem Transcript.mem_shownOutputs {o : CellOutputVal} (ho : o ∈ t.shownOutputs) :
    ∃ i, (t.shownKind, i, o) ∈ t.kinds := by
  obtain ⟨⟨k, i, o'⟩, hl, rfl⟩ := List.mem_map.1 ho
  obtain ⟨hl, hk⟩ := List.mem_filter.1 hl
  obtain rfl : k = t.shownKind := of_decide_eq_true hk
  exact ⟨i, hl⟩

/-- Only addresses of lines are shown. -/
theorem address_of_mem_shownPayments {s : UInt64 × ScreenValue} (h : s ∈ g.shownPayments) :
    ∃ e : Output, s.2 = e.address := by
  unfold SignState.shownPayments at h
  split at h
  case h_4 =>
    obtain ⟨e, -, rfl⟩ := List.mem_map.1 h
    exact ⟨e, rfl⟩
  case h_5 => exact absurd h List.not_mem_nil
  all_goals
    rw [List.mem_singleton.1 h]
    exact ⟨_, rfl⟩

/-- A transfer shows destinations. -/
theorem Accepted.shownPayments_ne_nil (h : Accepted env P instruction ps prompt g v t)
    (htag : g.maybe.v.tag.isDao = false) : g.shownPayments ≠ [] := by
  by_cases hmulti : g.maybe.v.tag = .multiOutputTransfer
  · obtain ⟨groups, hlines, -⟩ := h.accounts.lines (h.accounts.multiOutput hmulti)
    have htwo := hlines.tag.1 hmulti
    have hlength : (g.tx.outputs.take g.tx.outputCount).length = groups.length :=
      hlines.take.1.length_eq
    rw [SignState.shownPayments, hmulti]
    intro hnil
    rw [List.map_eq_nil_iff.1 hnil, List.length_nil] at hlength
    omega
  · rw [h.shownPayments_single htag hmulti]
    exact List.cons_ne_nil _ _

/-- Outputs that are all named are addressed. -/
theorem Accepted.addressed_of_named (h : Accepted env P instruction ps prompt g v t)
    {os : List CellOutputVal} (hnamed : DestinationsNamed os prompt.screens) : Addressed os := by
  obtain ⟨groups, rfl, hne, hall⟩ := hnamed
  rw [h.shownPayments] at hall
  constructor
  · intro o ho
    obtain ⟨os, hos, ho⟩ := List.mem_flatten.1 ho
    obtain ⟨k, hk⟩ := List.mem_iff_getElem?.1 hos
    obtain ⟨s, hs, -, hnames⟩ := hall k os hk
    obtain ⟨e, he⟩ := address_of_mem_shownPayments (List.mem_of_getElem? hs)
    exact addressable_of_lockScript ((e.names_iff _).1 (he ▸ hnames o ho))
  · rw [List.isChain_flatten hne]
    constructor
    · -- in a group all outputs have one lock script
      intro os hos
      obtain ⟨k, hk⟩ := List.mem_iff_getElem?.1 hos
      obtain ⟨s, -, -, hnames⟩ := hall k os hk
      refine (List.pairwise_of_forall_mem_list fun o ho o' ho' _ _ => ?_).isChain
      exact congrArg LockScript.args ((hnames o ho).inj (hnames o' ho'))
    · -- the next group belongs to the next line, which has another destination
      rw [List.isChain_iff_getElem]
      intro k hk o ho o' ho' hkind hargs
      obtain ⟨s, hs, -, hnames⟩ := hall k _ (List.getElem?_eq_getElem (Nat.lt_of_succ_lt hk))
      obtain ⟨s', hs', -, hnames'⟩ := hall (k + 1) _ (List.getElem?_eq_getElem hk)
      have hmulti : g.maybe.v.tag = .multiOutputTransfer := by
        by_contra hsingle
        have hlength := (List.getElem?_eq_some_iff.1 hs').1
        have hle := length_shownPayments_le hsingle
        omega
      obtain ⟨groups, hlines, -⟩ := h.accounts.lines (h.accounts.multiOutput hmulti)
      obtain ⟨-, hchain⟩ := hlines.take
      rw [SignState.shownPayments, hmulti] at hs hs'
      dsimp only at hs hs'
      rw [List.getElem?_map, Option.map_eq_some_iff] at hs hs'
      obtain ⟨e, he, rfl⟩ := hs
      obtain ⟨e', he', rfl⟩ := hs'
      have ho := (e.names_iff _).1 (hnames o (List.mem_of_getLast? ho))
      have ho' := (e'.names_iff _).1 (hnames' o' (List.mem_of_head? ho'))
      obtain ⟨hk₁, ha₁⟩ := kind_of_lockScript ho
      obtain ⟨hk₂, ha₂⟩ := kind_of_lockScript ho'
      obtain ⟨hlt, rfl⟩ := List.getElem?_eq_some_iff.1 he
      obtain ⟨hlt', rfl⟩ := List.getElem?_eq_some_iff.1 he'
      refine absurd ⟨Subtype.ext ?_, ?_⟩ (hchain.getElem k hlt')
      · exact ha₁.symm.trans (hargs.trans ha₂)
      · exact hk₁.symm.trans (hkind.trans hk₂)

/-- Outputs that are addressed are all named. -/
theorem Accepted.named_of_addressed (hP : Strict P)
    (h : Accepted env P instruction ps prompt g v t) (htag : g.maybe.v.tag.isDao = false)
    (haddressed : Addressed t.shownOutputs) : DestinationsNamed t.shownOutputs prompt.screens := by
  have hstandard := h.standard_kinds hP
  obtain ⟨hpayments, hback⟩ := h.shownOutputs htag
  unfold DestinationsNamed
  rw [h.shownPayments]
  cases hself : g.tx.isSelfTransfer with
  | true =>
    obtain ⟨hkind, -⟩ := hback hself
    rw [h.shownPayments_self htag hself]
    by_cases hnone : t.shownOutputs = []
    · rw [hnone]
      exact ⟨[], rfl, List.not_mem_nil, fun k os hk => by cases hk⟩
    · refine ⟨[t.shownOutputs], by simp, by simpa using Ne.symm hnone, fun k os hk => ?_⟩
      obtain ⟨rfl, rfl⟩ : k = 0 ∧ os = t.shownOutputs := by
        cases k with
        | zero => exact ⟨rfl, (Option.some.inj hk).symm⟩
        | succ k => cases hk
      refine ⟨_, rfl, rfl, fun o ho => ?_⟩
      obtain ⟨i, hmem⟩ := Transcript.mem_shownOutputs ho
      rw [hkind] at hmem
      obtain ⟨-, hsingle, owner, hargs⟩ := mem_classified_change hmem
      exact names_change (hstandard _ hmem) hsingle hargs (haddressed.addressable o ho)
  | false =>
    obtain ⟨groups, hlines, hforall⟩ := h.accounts.lines hself
    have hshown := hpayments hself
    rw [hshown] at haddressed ⊢
    obtain ⟨groups', hflatten, hgroups⟩ := forall₂_flatten hforall
    have hlineOf := hlines.take.1
    have hne : [] ∉ groups' := fun hbad => by
      obtain ⟨k, hk⟩ := List.mem_iff_getElem?.1 hbad
      obtain ⟨ps, hps, hpair⟩ := forall₂_getElem? hgroups hk
      obtain ⟨e, -, hline⟩ := forall₂_getElem? hlineOf hps
      exact hline.nonempty (List.forall₂_nil_right_iff.1 hpair)
    refine ⟨groups', hflatten, hne, fun k os hk => ?_⟩
    obtain ⟨ps, hps, hpair⟩ := forall₂_getElem? hgroups hk
    obtain ⟨e, he, hline⟩ := forall₂_getElem? hlineOf hps
    have hmem : ∀ o ∈ os, o ∈ LedgerNervos.payments t.kinds := by
      intro o ho
      rw [← hflatten]
      exact List.mem_flatten.2 ⟨os, List.mem_of_getElem? hk, ho⟩
    have hos : ∀ o ∈ os, o.Standard := by
      intro o ho
      have hshownMem := hmem o ho
      rw [← hshown] at hshownMem
      obtain ⟨i, hkinds⟩ := Transcript.mem_shownOutputs hshownMem
      exact hstandard _ hkinds
    have hapart := haddressed.keptApart
    rw [← hflatten] at hapart
    refine ⟨_, h.line_shown hself htag hlines he, ?_, fun o ho => ?_⟩
    · rw [hline.capacity, map_capacity_payments hpair]
    · exact (e.names_iff _).2 (hline.names hpair hos
        (fun o ho => haddressed.addressable o (hmem o ho))
        (((List.isChain_flatten hne).1 hapart).1 os (List.mem_of_getElem? hk)) o ho)

/-- **Faithful destinations**, exactly when the outputs that are shown have addresses and are kept
apart. -/
theorem Accepted.destinationsNamed_iff (hP : Strict P)
    (h : Accepted env P instruction ps prompt g v t) :
    (LedgerNervos.shownPayments prompt.screens ≠ [] →
        DestinationsNamed t.shownOutputs prompt.screens) ↔
      (¬ v.HasDeposit env → Addressed t.shownOutputs) := by
  rw [← h.tag_isDao, Bool.not_eq_true]
  constructor
  · intro hnamed htag
    refine h.addressed_of_named (hnamed ?_)
    rw [h.shownPayments]
    exact h.shownPayments_ne_nil htag
  · intro haddressed hshown
    have htag : g.maybe.v.tag.isDao = false := by
      rw [← Bool.not_eq_true]
      intro hdao
      rw [h.shownPayments, shownPayments_of_isDao hdao] at hshown
      exact hshown rfl
    exact h.named_of_addressed hP htag (haddressed htag)

end Session

/-- **Faithful destinations.**  When a session leads to the prompt while contract data is refused,
and the prompt shows destinations, every output that they stand for has the lock script that its
address names if and only if there is an address for its args, and neighbours that differ only
behind the first 20 bytes of their args do not occur. -/
theorem destinations_faithful_iff (env : Env) (instruction : UInt8) (ps : List Packet)
    (prompt : Prompt) (g : SignState) (hstrict : ∀ p ∈ ps, p.nd.contractDataType = .disallow)
    (h : signSession env instruction ps = some (prompt, g)) :
    (∃ v, ∃ t : Transcript env (fun nd => nd.contractDataType = .disallow) v,
      Accepted env (fun nd => nd.contractDataType = .disallow) instruction ps prompt g v t) ∧
    ∀ v (t : Transcript env (fun nd => nd.contractDataType = .disallow) v),
      Accepted env (fun nd => nd.contractDataType = .disallow) instruction ps prompt g v t →
        ((shownPayments prompt.screens ≠ [] → DestinationsNamed t.shownOutputs prompt.screens) ↔
          (¬ v.HasDeposit env → Addressed t.shownOutputs)) := by
  refine ⟨signSession_transcript hstrict h, fun v t haccepted => ?_⟩
  exact haccepted.destinationsNamed_iff fun _ => id

/-- The outputs that are shown are taken from all outputs, in their order. -/
theorem Transcript.shownOutputs_sublist {v : AnnotatedTransactionVal} (t : Transcript env P v) :
    t.shownOutputs.Sublist (v.outputs.getD []) := by
  have hall : t.kinds.map (fun l => l.2.2) = v.outputs.getD [] := by
    have hsnd := congrArg (List.map Prod.snd)
      (map_classified t.spent.changeLockArg t.spent.daoCellOwner 0 (v.outputs.getD []))
    rw [List.map_map] at hsnd
    refine hsnd.trans ?_
    have hid := map_numbered id 0 (v.outputs.getD [])
    rwa [List.map_id] at hid
  rw [← hall]
  exact List.filter_sublist.map _

theorem destinations_faithful_iff_payment :
    ∃ prompt g v, ∃ t : Transcript Env.reference (fun nd => nd.contractDataType = .disallow) v,
      signSession Env.reference 0x03 (cutPackets 3 payment.encode) = some (prompt, g) ∧
        (shownPayments prompt.screens ≠ [] → DestinationsNamed t.shownOutputs prompt.screens) := by
  have hsome : (signSession Env.reference 0x03 (cutPackets 3 payment.encode)).isSome = true := by
    decide +kernel
  obtain ⟨⟨prompt, g⟩, h⟩ := Option.isSome_iff_exists.1 hsome
  obtain ⟨⟨v, t, haccepted⟩, hall⟩ :=
    destinations_faithful_iff Env.reference 0x03 _ prompt g (by decide +kernel) h
  have hiff := hall v t haccepted
  obtain rfl := haccepted.value_eq_cut (by decide +kernel) (by decide) (by decide) (by decide)
  have houtputs : ∀ o ∈ payment.value.outputs.getD [], o.Addressable := by decide
  have hpairs : (payment.value.outputs.getD []).Pairwise CellOutputVal.KeptApart := by decide
  have hsublist := t.shownOutputs_sublist
  exact ⟨prompt, g, _, t, h, hiff.2 fun _ =>
    ⟨fun o ho => houtputs o (hsublist.subset ho), (hpairs.sublist hsublist).isChain⟩⟩

/-- **Faithful addresses.**  The outputs `os` are found on the screens in groups of ones that follow
each other, each with an address.  The text of the address reads back as the lock script of every
output of its group, and outputs with different lock scripts are never shown the same text. -/
def AddressesFaithful (os : List CellOutputVal) (screens : List Screen) : Prop :=
  ∃ groups : List (List CellOutputVal), groups.flatten = os ∧ [] ∉ groups ∧
    (∀ (k : ℕ) os, groups[k]? = some os → ∃ s, (shownPayments screens)[k]? = some s ∧
      s.1 = (os.map CellOutputVal.capacity).sum ∧ ∀ nd, ∃ text, s.2.render nd = .ok text ∧
        ∀ o ∈ os, readAddress text = some o.lockScript) ∧
    ∀ (i j : ℕ) os os' s s', groups[i]? = some os → groups[j]? = some os' →
      (shownPayments screens)[i]? = some s → (shownPayments screens)[j]? = some s' →
        ∀ o ∈ os, ∀ o' ∈ os', o.lockScript ≠ o'.lockScript →
          ∀ nd, s.2.render nd ≠ s'.2.render nd

/-- Addresses that read back as the lock scripts tell these apart. -/
theorem addressesFaithful_iff {os : List CellOutputVal} {screens : List Screen} :
    AddressesFaithful os screens ↔ DestinationsNamed os screens := by
  constructor
  · rintro ⟨groups, hflatten, hne, hread, -⟩
    refine ⟨groups, hflatten, hne, fun k os hk => ?_⟩
    obtain ⟨s, hs, hamount, htext⟩ := hread k os hk
    refine ⟨s, hs, hamount, fun o ho nd => ?_⟩
    obtain ⟨text, hrender, hall⟩ := htext nd
    exact ⟨text, hrender, hall o ho⟩
  · rintro ⟨groups, hflatten, hne, hnamed⟩
    refine ⟨groups, hflatten, hne, fun k os hk => ?_, ?_⟩
    · obtain ⟨s, hs, hamount, hnames⟩ := hnamed k os hk
      refine ⟨s, hs, hamount, fun nd => ?_⟩
      have hos : os ≠ [] := by
        rintro rfl
        exact hne (List.mem_of_getElem? hk)
      -- the text is that of the first output of the group
      obtain ⟨o₀, ho₀⟩ := List.exists_mem_of_ne_nil os hos
      obtain ⟨text, hrender, -⟩ := hnames o₀ ho₀ nd
      refine ⟨text, hrender, fun o ho => ?_⟩
      obtain ⟨text', hrender', hread⟩ := hnames o ho nd
      obtain rfl := Except.ok.inj (hrender'.symm.trans hrender)
      exact hread
    · intro i j os os' s s' hi hj hs hs' o ho o' ho' hother nd hsame
      obtain ⟨_, hs₁, -, hnames⟩ := hnamed i os hi
      obtain ⟨_, hs₂, -, hnames'⟩ := hnamed j os' hj
      obtain rfl := Option.some.inj (hs₁.symm.trans hs)
      obtain rfl := Option.some.inj (hs₂.symm.trans hs')
      obtain ⟨text, hrender, hread⟩ := hnames o ho nd
      obtain ⟨text', hrender', hread'⟩ := hnames' o' ho' nd
      obtain rfl := Except.ok.inj ((hrender.symm.trans hsame).trans hrender')
      exact hother (Option.some.inj (hread.symm.trans hread'))

/-- **The addresses that are shown.**  When a session leads to the prompt while contract data is
refused, and the prompt shows destinations, the address of every output that is shown reads back as
its lock script, with all of its args, and different lock scripts have different addresses, if and
only if there is an address for the args of each, and neighbours that differ only behind the first
20 bytes of their args do not occur. -/
theorem addresses_faithful_iff (env : Env) (instruction : UInt8) (ps : List Packet)
    (prompt : Prompt) (g : SignState) (hstrict : ∀ p ∈ ps, p.nd.contractDataType = .disallow)
    (h : signSession env instruction ps = some (prompt, g)) :
    (∃ v, ∃ t : Transcript env (fun nd => nd.contractDataType = .disallow) v,
      Accepted env (fun nd => nd.contractDataType = .disallow) instruction ps prompt g v t) ∧
    ∀ v (t : Transcript env (fun nd => nd.contractDataType = .disallow) v),
      Accepted env (fun nd => nd.contractDataType = .disallow) instruction ps prompt g v t →
        ((shownPayments prompt.screens ≠ [] → AddressesFaithful t.shownOutputs prompt.screens) ↔
          (¬ v.HasDeposit env → Addressed t.shownOutputs)) := by
  refine ⟨signSession_transcript hstrict h, fun v t haccepted => ?_⟩
  rw [addressesFaithful_iff]
  exact haccepted.destinationsNamed_iff fun _ => id

/-- Two payments, one of them to a multisig lock with a lock period. -/
def periodPayment : AnnotatedTransaction :=
  { payment with raw := { payment.raw with
      outputs := [⟨300, sighashLock (List.replicate 20 7), none⟩,
        ⟨300, ⟨⟨multisigLockScript, length_multisigLockScript⟩, 1, List.replicate 28 8⟩, none⟩]
      outputsData := [[], []] } }

theorem addresses_faithful_iff_periodPayment :
    ∃ prompt g v, ∃ t : Transcript Env.reference (fun nd => nd.contractDataType = .disallow) v,
      signSession Env.reference 0x03 (cutPackets 4 periodPayment.encode) = some (prompt, g) ∧
        (shownPayments prompt.screens).length = 2 ∧
        AddressesFaithful t.shownOutputs prompt.screens := by
  have hsome : (signSession Env.reference 0x03 (cutPackets 4 periodPayment.encode)).any
      (fun r => (shownPayments r.1.screens).length = 2) = true := by
    decide +kernel
  obtain ⟨⟨prompt, g⟩, h, hlength⟩ := (Option.any_eq_true _ _).1 hsome
  have hlength : (shownPayments prompt.screens).length = 2 := of_decide_eq_true hlength
  obtain ⟨⟨v, t, haccepted⟩, hall⟩ :=
    addresses_faithful_iff Env.reference 0x03 _ prompt g (by decide +kernel) h
  have hiff := hall v t haccepted
  obtain rfl := haccepted.value_eq_cut (by decide +kernel) (by decide) (by decide) (by decide)
  have houtputs : ∀ o ∈ periodPayment.value.outputs.getD [], o.Addressable := by decide
  have hpairs : (periodPayment.value.outputs.getD []).Pairwise CellOutputVal.KeptApart := by decide
  have hsublist := t.shownOutputs_sublist
  refine ⟨prompt, g, _, t, h, hlength, hiff.2 (fun _ => ?_) fun hnil => ?_⟩
  · exact ⟨fun o ho => houtputs o (hsublist.subset ho), (hpairs.sublist hsublist).isChain⟩
  · rw [hnil] at hlength
    cases hlength

/-- An output with a multisig lock is a payment. -/
theorem CellOutputVal.kind_of_isMultisig {o : CellOutputVal} (h : o.isMultisig = true)
    (hdao : o.isDao = false) (change owner : StandardLockArg) : o.kind change owner = .plain := by
  rw [kind, hdao, h, Bool.not_true, Bool.and_false]
  rfl

/-- Payments to multisig locks are all shown. -/
theorem Transcript.shownOutputs_of_multisig {v : AnnotatedTransactionVal} (t : Transcript env P v)
    (hne : v.outputs.getD [] ≠ [])
    (h : ∀ o ∈ v.outputs.getD [], o.isMultisig = true ∧ o.isDao = false) :
    t.shownOutputs = v.outputs.getD [] := by
  have hkinds : ∀ (change owner : StandardLockArg) (i : UInt32) (os : List CellOutputVal),
      (∀ o ∈ os, o.isMultisig = true ∧ o.isDao = false) →
        ((classified change owner i os).filter fun l => l.1 = .plain).map (fun l => l.2.2) =
          os := by
    intro change owner i os hos
    induction os generalizing owner i with
    | nil => rfl
    | cons o os ih =>
      obtain ⟨⟨hmultisig, hdao⟩, hrest⟩ := List.forall_mem_cons.1 hos
      rw [classified, List.filter_cons_of_pos (by
        simp [CellOutputVal.kind_of_isMultisig hmultisig hdao]), List.map_cons, ih _ _ hrest]
  have hpayments : LedgerNervos.payments t.kinds = v.outputs.getD [] := hkinds _ _ _ _ h
  have hshown : t.shownKind = .plain := if_neg fun hbad => hne (hpayments.symm.trans hbad.1)
  rw [Transcript.shownOutputs, hshown]
  exact hpayments

/-- Two payments to locks that differ in the lock period. -/
def mergedPayment : AnnotatedTransaction :=
  { payment with raw := { payment.raw with
      outputs := [⟨300, ⟨⟨multisigLockScript, length_multisigLockScript⟩, 1,
          List.replicate 28 8⟩, none⟩,
        ⟨300, ⟨⟨multisigLockScript, length_multisigLockScript⟩, 1,
          List.replicate 20 8 ++ List.replicate 8 9⟩, none⟩]
      outputsData := [[], []] } }

/-- One address is shown for two lock scripts. -/
theorem mergedPayment_unfaithful :
    ∃ prompt g, signSession Env.reference 0x03 (cutPackets 4 mergedPayment.encode) =
        some (prompt, g) ∧ (shownPayments prompt.screens).length = 1 ∧
      (∀ p ∈ cutPackets 4 mergedPayment.encode, p.nd.contractDataType = .disallow) ∧
      ∀ v (t : Transcript Env.reference (fun nd => nd.contractDataType = .disallow) v),
        Accepted Env.reference (fun nd => nd.contractDataType = .disallow) 0x03
          (cutPackets 4 mergedPayment.encode) prompt g v t →
            t.shownOutputs = v.outputs.getD [] ∧
              ((v.outputs.getD []).map CellOutputVal.lockScript).Nodup ∧
              ¬ AddressesFaithful t.shownOutputs prompt.screens := by
  have hsome : (signSession Env.reference 0x03 (cutPackets 4 mergedPayment.encode)).any
      (fun r => (shownPayments r.1.screens).length = 1) = true := by
    decide +kernel
  obtain ⟨⟨prompt, g⟩, h, hlength⟩ := (Option.any_eq_true _ _).1 hsome
  refine ⟨prompt, g, h, of_decide_eq_true hlength, by decide +kernel, fun v t haccepted => ?_⟩
  obtain rfl := haccepted.value_eq_cut (by decide +kernel) (by decide) (by decide) (by decide)
  have hshown := t.shownOutputs_of_multisig (by decide) (by decide)
  refine ⟨hshown, by decide, fun hfaithful => ?_⟩
  have haddressed := haccepted.addressed_of_named (addressesFaithful_iff.1 hfaithful)
  rw [hshown] at haddressed
  exact absurd haddressed.keptApart (by decide)

end LedgerNervos
