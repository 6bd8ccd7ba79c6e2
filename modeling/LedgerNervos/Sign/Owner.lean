import LedgerNervos.Sign.DaoMask
import LedgerNervos.Sign.Signers

/-!
# The owner of the deposits

The prompts for deposits name one owner.  It is kept in a field that each deposit overwrites: first
those that the inputs refer to, when data come for them, and then those among the outputs.  Only
the latter are compared with a key of the device, so that `owner_shown_iff` has to ask for the
owners of the former.
-/

namespace LedgerNervos

variable {env : Env} {P : NvramData → Prop} {g g' : SignState}

/-! ### Deposits and their owners -/

namespace AnnotatedTransactionVal

/-- The deposits that the inputs refer to. -/
def daoInputs (v : AnnotatedTransactionVal) : List CellOutputVal :=
  ((v.inputs.getD []).filterMap AnnotatedCellInputVal.cell).filter CellOutputVal.isDao

/-- The deposits among the outputs. -/
def daoOutputs (v : AnnotatedTransactionVal) : List CellOutputVal :=
  (v.outputs.getD []).filter CellOutputVal.isDao

theorem mem_daoInputs {v : AnnotatedTransactionVal} {o : CellOutputVal} :
    o ∈ v.daoInputs ↔ ∃ a ∈ v.inputs.getD [], a.cell = some o ∧ o.isDao = true := by
  simp only [daoInputs, List.mem_filter, List.mem_filterMap]
  constructor
  · rintro ⟨⟨a, ha, hcell⟩, hdao⟩
    exact ⟨a, ha, hcell, hdao⟩
  · rintro ⟨a, ha, hcell, hdao⟩
    exact ⟨⟨a, ha, hcell⟩, hdao⟩

theorem mem_daoOutputs {v : AnnotatedTransactionVal} {o : CellOutputVal} :
    o ∈ v.daoOutputs ↔ o ∈ v.outputs.getD [] ∧ o.isDao = true := List.mem_filter

end AnnotatedTransactionVal

/-- The script is the common lock of `owner`. -/
structure ScriptVal.LockOf (s : ScriptVal) (owner : StandardLockArg) : Prop where
  codeHash : s.codeHash = defaultLockScript
  hashType : s.hashType = 1
  args : s.args = owner.1

/-- What the screens show as the owner. -/
def shownOwners (screens : List Screen) : List ScreenValue :=
  (screens.filter fun s => s.title = .text "Cell Owner").map Screen.value

/-- The screens show one owner, and every deposit has the common lock of this owner. -/
def OwnerShown (v : AnnotatedTransactionVal) (screens : List Screen) : Prop :=
  ∃ owner, shownOwners screens = [.sighashAddress owner] ∧
    ∀ o ∈ v.daoInputs ++ v.daoOutputs, o.lock.LockOf owner

/-- The deposits have common locks, those that inputs refer to have one owner, and this is the owner
of the change if there are deposits among the outputs. -/
structure OneOwner (change : StandardLockArg) (v : AnnotatedTransactionVal) : Prop where
  lock : ∀ o ∈ v.daoInputs ++ v.daoOutputs, ∃ owner, o.lock.LockOf owner
  same : ∀ o ∈ v.daoInputs, ∀ o' ∈ v.daoInputs, o.lock.args = o'.lock.args
  change : v.daoOutputs ≠ [] → ∀ o ∈ v.daoInputs, o.lock.args = change.1

theorem hash_ofList (w : StandardLockArg) : LockArg.hash (Bytes.ofList 28 w.1) = w := by
  apply Subtype.ext
  have hw := w.2
  simp [LockArg.hash, Bytes.ofList, hw]

/-! ### Single deposits -/

/-- Only deposits for the own change are let pass among the outputs. -/
theorem TakeOutput.deposit {l : UInt32 × CellOutputVal} (h : TakeOutput env P g l g')
    (hdao : l.2.isDao = true) :
    l.2.lock.args <+: g.changeLockArg.1 ++ g.daoCellOwner.1.take 8 := by
  obtain ⟨⟨c, tmp, ⟨hstate, hnonequal, -⟩, -, hend⟩, hsafe⟩ := h
  have hisDao : c.isDao = true := by rw [hstate, hdao]
  exact hnonequal.1 (outputEnd_dao hisDao hend hsafe).1

/-- A deposit among the outputs with an owner is one for the own change. -/
theorem CellOutputVal.args_of_prefix {change owner : StandardLockArg} {o : CellOutputVal}
    {rest : List UInt8} (hstarts : o.lock.args <+: change.1 ++ rest) (h : o.lock.LockOf owner) :
    owner = change := by
  rw [h.args] at hstarts
  have hlength : owner.1.length = change.1.length := owner.2.trans change.2.symm
  have heq := List.prefix_iff_eq_take.1 hstarts
  rw [hlength, List.take_left] at heq
  exact Subtype.ext heq

theorem shownOwners_screens {nd : NvramData} {screens : List Screen}
    (htag : g.maybe.v.tag.isDao = true) (h : g.screens nd = some screens) :
    shownOwners screens = [.sighashAddress g.daoCellOwner] := by
  unfold SignState.screens at h
  dsimp only at h
  cases hkind : g.maybe.v.tag
  all_goals rw [hkind] at h htag
  case daoDeposit | daoPrepare | daoWithdraw =>
    obtain rfl := Option.some.inj h
    rfl
  all_goals cases htag

/-! ### The owner of a session -/

section Session

variable {v : AnnotatedTransactionVal} (t : Transcript env P v)

/-- The lock argument for the change is known before the inputs. -/
theorem Transcript.change_spent (hok : t.last.maybe.hardReject = false)
    (hsafe : t.last.maybe.isUnsafe = false) :
    t.spent.changeLockArg = t.opened.changeLockArg :=
  (t.books_spent hok hsafe).frame (f := Books.change) fun _ _ _ _ hstep => by rw [hstep.books]

/-- The deposits among the outputs of a session go to the own change. -/
theorem Transcript.deposits_own (hok : t.last.maybe.hardReject = false)
    (hsafe : t.last.maybe.isUnsafe = false) {o : CellOutputVal} {owner : StandardLockArg}
    (ho : o ∈ v.daoOutputs) (hlock : o.lock.LockOf owner) : owner = t.opened.changeLockArg := by
  obtain ⟨g₁, g₂, hruns, -⟩ := t.takes_outputs hok hsafe
  obtain ⟨hmem, hdao⟩ := AnnotatedTransactionVal.mem_daoOutputs.1 ho
  obtain ⟨i, hi⟩ := List.mem_iff_getElem?.1 hmem
  have hdeposit := hruns.forall_mem_of_invariant
    (I := fun s => s.changeLockArg = t.spent.changeLockArg)
    (p := fun l => l.2.isDao = true →
      ∃ rest, l.2.lock.args <+: t.spent.changeLockArg.1 ++ rest) rfl
    fun s l s' hstep hs => by
      refine ⟨?_, fun hl => ⟨_, hs ▸ hstep.deposit hl⟩⟩
      have hbooks := (TakeOutput.effect hstep).1.books
      exact (congrArg Books.change hbooks).trans hs
  obtain ⟨rest, hstarts⟩ :=
    hdeposit (UInt32.ofNat i, o) (mem_numbered_of_getElem? hi) hdao
  rw [CellOutputVal.args_of_prefix hstarts hlock, t.change_spent hok hsafe]

/-- The owner behind the inputs has been written by one of the deposits that they refer to, or no
data came for any of these. -/
theorem Transcript.owner_spent (hok : t.last.maybe.hardReject = false)
    (hsafe : t.last.maybe.isUnsafe = false) :
    (∃ o ∈ v.daoInputs, ∀ owner, o.lock.LockOf owner → t.spent.daoCellOwner = owner) ∨
      ∀ a ∈ v.inputs.getD [], ¬ (a.isCounted && a.isDao) = true := by
  obtain ⟨ls, g₁, hls, hruns, -, hspent, -⟩ := t.noted hok hsafe
  rw [hspent]
  rcases hruns.overwritten (f := SignState.daoCellOwner)
      (q := fun l => (l.2.isCounted && l.2.isDao) = true) (w := fun l => LockArg.hash l.1)
      (fun s l s' hstep hl => by rw [hstep.owner, if_pos hl])
      (fun s l s' hstep hl => by rw [hstep.owner, if_neg hl]) with
    ⟨l, hl, hdao, howner⟩ | ⟨hnone, -⟩
  · -- the deposit that came last
    obtain ⟨-, hisDao⟩ := Bool.and_eq_true_iff.1 hdao
    obtain ⟨o, hcell, ho⟩ := (Option.any_eq_true _ _).1 hisDao
    have hmem : l.2 ∈ v.inputs.getD [] := hls ▸ List.mem_map_of_mem hl
    have hlockArg := hruns.forall_mem (p := fun l => ∀ o ∈ l.2.cell, o.lock.args.length ≤ 28 →
      l.1 = Bytes.ofList 28 o.lock.args) (fun _ _ _ hstep => hstep.lockArg) l hl o hcell
    refine .inl ⟨o, AnnotatedTransactionVal.mem_daoInputs.2 ⟨l.2, hmem, hcell, ho⟩,
      fun owner hlock => ?_⟩
    rw [howner, hlockArg (by rw [hlock.args, owner.2]; decide), hlock.args, hash_ofList]
  · refine .inr fun a ha => ?_
    obtain ⟨l, hl, rfl⟩ := List.mem_map.1 (hls ▸ ha)
    exact hnone l hl

/-- The owner behind the outputs has been written by one of the deposits among them, or there was
none. -/
theorem Transcript.owner_stored (hok : t.last.maybe.hardReject = false)
    (hsafe : t.last.maybe.isUnsafe = false) :
    (∃ o ∈ v.daoOutputs, ∀ owner, o.lock.LockOf owner → t.stored.daoCellOwner = owner) ∨
      v.daoOutputs = [] ∧ t.stored.daoCellOwner = t.spent.daoCellOwner := by
  obtain ⟨b, houtputs, hclosed⟩ := t.books_paid hok hsafe
  have hpaid : t.paid.books.owner = b.owner := hclosed.frame fun _ _ _ _ _ _ _ => rfl
  have hstored : t.stored.daoCellOwner = b.owner :=
    ((t.books_stored hok hsafe).frame (f := Books.owner)
      fun _ _ _ _ hstep => by rw [hstep.books]).trans hpaid
  have hmap := map_classified t.spent.changeLockArg t.spent.daoCellOwner 0 (v.outputs.getD [])
  rw [hstored]
  rcases houtputs.overwritten (f := Books.owner) (q := fun l => l.2.2.isDao = true)
      (w := fun l => LockArg.hash (Bytes.ofList 28 l.2.2.lock.args))
      (fun s l s' hstep hl => by rw [hstep.books, CellOutputVal.nextOwner, if_pos hl])
      (fun s l s' hstep hl => by rw [hstep.books, CellOutputVal.nextOwner, if_neg hl]) with
    ⟨l, hl, hdao, howner⟩ | ⟨hnone, howner⟩
  · have hmem : l.2 ∈ numbered 0 (v.outputs.getD []) := hmap ▸ List.mem_map_of_mem hl
    obtain ⟨i, hi, -⟩ := mem_numbered.1 hmem
    refine .inl ⟨l.2.2, AnnotatedTransactionVal.mem_daoOutputs.2
      ⟨List.mem_of_getElem? hi, hdao⟩, fun owner hlock => ?_⟩
    rw [howner, hlock.args, hash_ofList]
  · refine .inr ⟨List.eq_nil_iff_forall_not_mem.2 fun o ho => ?_, howner⟩
    obtain ⟨hmem, hdao⟩ := AnnotatedTransactionVal.mem_daoOutputs.1 ho
    obtain ⟨i, hi⟩ := List.mem_iff_getElem?.1 hmem
    have hnumbered := mem_numbered_of_getElem? hi
    rw [← hmap] at hnumbered
    obtain ⟨l, hl, hlo⟩ := List.mem_map.1 hnumbered
    exact hnone l hl (by rw [hlo]; exact hdao)

/-- The data that are taken for those of a deposit do not come without one. -/
theorem AnnotatedTransactionVal.HasDeposit.daoOutputs (h : v.HasDeposit env)
    (hnone : ∀ a ∈ v.inputs.getD [], ¬ (a.isCounted && a.isDao) = true) : v.daoOutputs ≠ [] := by
  rcases h with ⟨a, ha, hdao⟩ | ⟨d, -, hflag⟩
  · exact absurd hdao (hnone a ha)
  · obtain ⟨j, o, hj, hdao, -⟩ := (flagged_daoMask env _ _).1 hflag
    exact List.ne_nil_of_mem (mem_daoOutputs.2 ⟨List.mem_of_getElem? hj, hdao⟩)

variable {t} {instruction : UInt8} {ps : List Packet} {prompt : Prompt}

/-- The owner on the screens has been written by a deposit. -/
theorem Accepted.owner_written (h : Accepted env P instruction ps prompt g v t)
    (htag : g.maybe.v.tag.isDao = true) :
    ∃ o ∈ if v.daoOutputs = [] then v.daoInputs else v.daoOutputs,
      ∀ owner, o.lock.LockOf owner → g.daoCellOwner = owner := by
  have hstored : g.daoCellOwner = t.stored.daoCellOwner :=
    congrArg Books.owner h.finalized.books
  rw [hstored]
  rcases t.owner_stored h.hardReject h.isUnsafe with ⟨o, ho, howner⟩ | ⟨hnone, hsame⟩
  · exact ⟨o, by rwa [if_neg (List.ne_nil_of_mem ho)], howner⟩
  · rw [if_pos hnone, hsame]
    refine (t.owner_spent h.hardReject h.isUnsafe).resolve_right fun hno => ?_
    exact (h.tag_isDao.1 htag).daoOutputs hno hnone

/-- **The owner** on the screens is that of every deposit if and only if the deposits that the
inputs refer to have one, and it is that of the change if there are deposits among the outputs. -/
theorem Accepted.ownerShown_iff (h : Accepted env P instruction ps prompt g v t)
    (htag : g.maybe.v.tag.isDao = true) :
    OwnerShown v prompt.screens ↔ OneOwner t.opened.changeLockArg v := by
  obtain ⟨nd, -, hprompt⟩ := h.complete
  have hshown := shownOwners_screens htag (SignState.signComplete_screens hprompt)
  have hown {o : CellOutputVal} {owner : StandardLockArg} (ho : o ∈ v.daoOutputs)
      (hlock : o.lock.LockOf owner) : owner = t.opened.changeLockArg :=
    t.deposits_own h.hardReject h.isUnsafe ho hlock
  constructor
  · rintro ⟨owner, -, hall⟩
    obtain ⟨hinputs, houtputs⟩ := List.forall_mem_append.1 hall
    refine ⟨fun o ho => ⟨owner, hall o ho⟩, fun o ho o' ho' => ?_, fun hne o ho => ?_⟩
    · rw [(hinputs o ho).args, (hinputs o' ho').args]
    · obtain ⟨o', ho'⟩ := List.exists_mem_of_ne_nil _ hne
      rw [(hinputs o ho).args, hown ho' (houtputs o' ho')]
  · rintro ⟨hlock, hsame, hchange⟩
    obtain ⟨hinputs, houtputs⟩ := List.forall_mem_append.1 hlock
    obtain ⟨o, ho, howner⟩ := h.owner_written htag
    refine ⟨g.daoCellOwner, hshown, List.forall_mem_append.2 ⟨fun o' ho' => ?_, fun o' ho' => ?_⟩⟩
    · obtain ⟨owner', hlock'⟩ := hinputs o' ho'
      refine ⟨hlock'.codeHash, hlock'.hashType, ?_⟩
      split_ifs at ho with hnone
      · obtain ⟨owner, hlock⟩ := hinputs o ho
        rw [hsame o' ho' o ho, hlock.args, howner owner hlock]
      · obtain ⟨owner, hlock⟩ := houtputs o ho
        rw [hchange hnone o' ho', howner owner hlock, hown ho hlock]
    · rw [if_neg (List.ne_nil_of_mem ho')] at ho
      obtain ⟨owner, hlock⟩ := houtputs o ho
      obtain ⟨owner', hlock'⟩ := houtputs o' ho'
      rw [howner owner hlock, hown ho hlock, ← hown ho' hlock']
      exact hlock'

end Session

/-- **The owner of the deposits.**  When a session leads to the prompt for an operation on deposits,
the owner on the screens is that of every deposit if and only if all of them have common locks,
those that inputs refer to have one owner, and it is that of the change if there are deposits among
the outputs. -/
theorem owner_shown_iff (env : Env) (instruction : UInt8) (ps : List Packet) (prompt : Prompt)
    (g : SignState) (h : signSession env instruction ps = some (prompt, g))
    (htag : g.maybe.v.tag.isDao = true) :
    (∃ v, ∃ t : Transcript env (fun _ => True) v,
      Accepted env (fun _ => True) instruction ps prompt g v t) ∧
    ∀ v (t : Transcript env (fun _ => True) v),
      Accepted env (fun _ => True) instruction ps prompt g v t →
        (OwnerShown v prompt.screens ↔ OneOwner t.opened.changeLockArg v) := by
  refine ⟨signSession_transcript (fun _ _ => trivial) h, fun v t haccepted => ?_⟩
  exact haccepted.ownerShown_iff htag

/-- The type script of a deposit. -/
def daoTypeScript : Script := ⟨⟨daoTypeScriptHash, length_daoTypeScriptHash⟩, 1, []⟩

/-- A prepared withdrawal of 1000 from a deposit, with a compensation of 100. -/
def withdrawal : AnnotatedTransaction :=
  { payment with raw := { payment.raw with
      inputs := [⟨⟨.zero 8, ⟨.zero 32, 0⟩⟩, coinbase
        ⟨1000, sighashLock referenceLockArg, some daoTypeScript⟩ (List.replicate 8 1)⟩]
      outputs := [⟨1100, sighashLock referenceLockArg, none⟩] } }

theorem owner_shown_iff_withdrawal :
    ∃ prompt g v, ∃ t : Transcript Env.reference (fun _ => True) v,
      signSession Env.reference 0x03 (cutPackets 3 withdrawal.encode) = some (prompt, g) ∧
        g.maybe.v.tag = .daoWithdraw ∧
        Accepted Env.reference (fun _ => True) 0x03 (cutPackets 3 withdrawal.encode) prompt g v t ∧
          OwnerShown v prompt.screens := by
  have hsome : (signSession Env.reference 0x03 (cutPackets 3 withdrawal.encode)).any
      (fun r => r.2.maybe.v.tag = .daoWithdraw) = true := by
    decide +kernel
  obtain ⟨⟨prompt, g⟩, h, htag⟩ := (Option.any_eq_true _ _).1 hsome
  have htag : g.maybe.v.tag = .daoWithdraw := of_decide_eq_true htag
  obtain ⟨⟨v, t, haccepted⟩, hall⟩ :=
    owner_shown_iff Env.reference 0x03 _ prompt g h (by rw [htag]; rfl)
  have hiff := hall v t haccepted
  obtain rfl := haccepted.value_eq_cut (by decide +kernel) (by decide) (by decide) (by decide)
  refine ⟨prompt, g, _, t, h, htag, haccepted, hiff.2 ⟨fun o ho => ?_, by decide, ?_⟩⟩
  · obtain rfl := List.mem_singleton.1 ho
    exact ⟨⟨referenceLockArg, by decide⟩, by decide, rfl, rfl⟩
  · exact fun hbad => absurd rfl hbad

/-- A prepared withdrawal of two owners. -/
def jointWithdrawal : AnnotatedTransaction :=
  { withdrawal with
    inputCount := 2
    raw := { withdrawal.raw with inputs := withdrawal.raw.inputs ++
      [⟨⟨.zero 8, ⟨.zero 32, 0⟩⟩, coinbase ⟨500, sighashLock (List.replicate 20 9),
        some daoTypeScript⟩ (List.replicate 8 1)⟩] } }

/-- The prompt for a withdrawal of two owners shows one of them. -/
theorem jointWithdrawal_owner :
    ∃ prompt g,
      signSession Env.reference 0x03 (cutPackets 4 jointWithdrawal.encode) = some (prompt, g) ∧
      g.maybe.v.tag.isDao = true ∧
      ∀ v (t : Transcript Env.reference (fun _ => True) v),
        Accepted Env.reference (fun _ => True) 0x03 (cutPackets 4 jointWithdrawal.encode) prompt g
          v t → ¬ OwnerShown v prompt.screens := by
  have hsome : (signSession Env.reference 0x03 (cutPackets 4 jointWithdrawal.encode)).any
      (fun r => r.2.maybe.v.tag.isDao) = true := by
    decide +kernel
  obtain ⟨⟨prompt, g⟩, h, htag⟩ := (Option.any_eq_true _ _).1 hsome
  refine ⟨prompt, g, h, htag, fun v t haccepted hshown => ?_⟩
  have hone := (haccepted.ownerShown_iff htag).1 hshown
  obtain rfl := haccepted.value_eq_cut (by decide +kernel) (by decide) (by decide) (by decide)
  exact absurd hone.same (by decide)

end LedgerNervos
