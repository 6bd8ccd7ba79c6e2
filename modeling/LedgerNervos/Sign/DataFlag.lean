import LedgerNervos.Sign.DaoMask

/-!
# The flag for the data

Whether a deposit is a new one, or prepared for its withdrawal, is said by its data: they are zero
or not.  The flag for this is cleared when an output starts, but not when the data of an output do,
so that it tells whether there has been a byte that is not zero in the data up to then
(`Transcript.flag_before`).
-/

namespace LedgerNervos

variable {env : Env} {P : NvramData → Prop} {g g' : SignState}

open Callback (annotatedRawTransactionCallbacks)

/-- The operation that the data of a deposit among the outputs stand for. -/
def depositTag (nonzero : Bool) : OperationTag := if nonzero then .daoPrepare else .daoDeposit

/-- Some of the bytes are not zero. -/
def hasNonzero (d : List UInt8) : Bool := d.any (· ≠ 0)

/-! ### The data of an output -/

/-- The flag is set when there is a byte that is not zero, and never cleared. -/
theorem TakeData.nonzero {l : UInt32 × List UInt8} (h : TakeData env P g l g') :
    g'.cellState.active = g.cellState.active ∧ g'.cellState.daoDataIsNonzero =
      (g.cellState.daoDataIsNonzero || (g.cellState.active && hasNonzero l.2)) := by
  obtain ⟨⟨nd, -, rfl⟩, -⟩ := h
  rw [cellState_finishOutputCellData]
  exact ⟨rfl, rfl⟩

/-- The flag says which operation the data with a mark stand for. -/
theorem TakeData.tag {l : UInt32 × List UInt8} (h : TakeData env P g l g')
    (hflag : flagged env g.tx.daoBitmask l.1 = true) :
    g'.maybe.v.tag = depositTag g'.cellState.daoDataIsNonzero := by
  obtain ⟨⟨nd, -, rfl⟩, hsafe⟩ := h
  rw [cellState_finishOutputCellData]
  have hdao : ((g.validateOutputDataStart env l.1).readData l.2).cellState.isDao = true := hflag
  generalize (g.validateOutputDataStart env l.1).readData l.2 = s at hdao hsafe
  simp only [SignState.finishOutputCellData, if_pos hdao] at hsafe ⊢
  split_ifs at hsafe ⊢ with hsize hnonzero
  · cases hsafe
  · rw [(chooseDao_eq hsafe).1, hnonzero]
    rfl
  · rw [(chooseDao_eq hsafe).1, Bool.eq_false_of_not_eq_true hnonzero]
    rfl

/-- An operation on deposits that has been found does not change with the data. -/
theorem DataTaken.kept {b b' : Books} {l : UInt32 × List UInt8} (h : DataTaken env b l b')
    (hdao : b.tag.isDao = true) : b'.tag = b.tag := by
  have htag := h.tag
  split_ifs at htag
  · refine (htag.2.resolve_right fun hbad => ?_).symm
    rw [hbad] at hdao
    cases hdao
  · exact htag

/-- Behind some of the data, the flag says whether there was a byte that is not zero. -/
theorem Runs.dataNonzero {i : UInt32} {ds : List (List UInt8)}
    (h : Runs (TakeData env P) g (numbered i ds) g') (hact : g.cellState.active = true) :
    g'.cellState.active = true ∧
      g'.cellState.daoDataIsNonzero = (g.cellState.daoDataIsNonzero || ds.any hasNonzero) := by
  induction ds generalizing g i with
  | nil =>
    rw [Runs.nil_iff.1 h, List.any_nil, Bool.or_false]
    exact ⟨hact, rfl⟩
  | cons d ds ih =>
    obtain ⟨g₁, h₁, hrest⟩ := Runs.cons_iff.1 h
    obtain ⟨hactive, hnonzero⟩ := h₁.nonzero
    obtain ⟨hlast, hflag⟩ := ih hrest (hactive.trans hact)
    rw [hflag, hnonzero, hact, Bool.true_and, List.any_cons, Bool.or_assoc]
    exact ⟨hlast, rfl⟩

theorem numbered_split {α : Type} {i : UInt32} {as : List α} {k : ℕ} {a : α}
    (h : as[k]? = some a) : numbered i as = numbered i (as.take k) ++
      (i + UInt32.ofNat k, a) :: numbered (i + UInt32.ofNat k + 1) (as.drop (k + 1)) := by
  induction as generalizing i k with
  | nil => cases h
  | cons b as ih =>
    cases k with
    | zero =>
      obtain rfl := Option.some.inj h
      rw [show UInt32.ofNat 0 = 0 from rfl, UInt32.add_zero]
      rfl
    | succ k =>
      rw [numbered, ih h, Spec.add_ofNat_succ]
      rfl

/-- Only the announcement of an item announces it. -/
theorem announced_outputData :
    (MolSpec.bytes annotatedRawTransactionCallbacks.outputsData.item).Emits
      fun e => ∀ j, e ≠ .validateOutputDataStart j := by
  refine emits_bytes ?_ ?_ ?_
  all_goals
    simp only [annotatedRawTransactionCallbacks, sizeCallback, List.mem_singleton, forall_eq]
  all_goals
    intros
    simp

/-! ### The flag in a session -/

section Session

variable {v : AnnotatedTransactionVal} (t : Transcript env P v)

/-- The flag is clear before the data of the first output. -/
theorem Transcript.cell_paid (hok : t.last.maybe.hardReject = false)
    (hsafe : t.last.maybe.isUnsafe = false) (houtputs : v.outputs ≠ none) :
    t.paid.cellState = { active := true } := by
  obtain ⟨-, -, hpaid, -⟩ := t.hardReject_parts hok
  obtain ⟨-, hpaidSafe, -⟩ := t.isUnsafe_parts hsafe
  obtain ⟨tr, g₂, htrace, hvisits, -, hworse, hend⟩ := t.outputs_run
  obtain ⟨g₁, -, hlast⟩ := t.outputs_taken htrace hvisits (hworse.ok hpaid) (hworse.safe hpaidSafe)
  rw [cellState_outputsEnd hend]
  rcases hlast with ⟨hnone, -⟩ | ⟨n, hn⟩
  · exact absurd hnone houtputs
  · exact congrArg SignState.cellState hn

/-- When the data of an output start, those of the outputs before it have been taken. -/
theorem Transcript.data_before (hok : t.last.maybe.hardReject = false)
    (hsafe : t.last.maybe.isUnsafe = false) {s : SignState} {i : UInt32}
    (hs : (s, .validateOutputDataStart i) ∈ t.dataTrace) :
    ∃ k ≤ (v.outputsData.getD []).length, i = UInt32.ofNat k ∧ ∃ g₁,
      Runs (TakeData env P) t.paid.hashless (numbered 0 ((v.outputsData.getD []).take k)) g₁ ∧
        s.cellState.daoDataIsNonzero = g₁.cellState.daoDataIsNonzero ∧
          s.cellState.active = g₁.cellState.active := by
  obtain ⟨-, -, -, hstored⟩ := t.hardReject_parts hok
  obtain ⟨-, -, hstoredSafe, -⟩ := t.isUnsafe_parts hsafe
  obtain ⟨hcalls, hvisits⟩ := t.outputsData
  have hpart := hcalls.part
  obtain ⟨cs, e₀, e₁, htr, htap, hes⟩ := hcalls
  rw [show annotatedRawTransactionCallbacks.outputsData.finish = [] from rfl,
    List.append_nil] at hes
  obtain ⟨tr₁, tr₂, htrace⟩ := List.append_of_mem hs
  rw [htrace] at hvisits hpart hes
  rw [List.map_append, List.map_cons] at hes
  -- the run up to the announcement
  obtain ⟨s', h₁, h₂⟩ := Visits.append_iff.1 hvisits
  cases h₂ with
  | @cons _ s₂ _ _ _ hstep hrest =>
    have hrun := (h₁.runs.append (Runs.single_iff.2 hstep)).ledger (fun e he => by
      have he' : e ∈ (tr₁ ++ (s, Callback.validateOutputDataStart i) :: tr₂).map Prod.snd := by
        rw [List.map_append, List.map_cons]
        rcases List.mem_append.1 he with he | he
        · exact List.mem_append_left _ he
        · rw [List.mem_singleton.1 he]
          exact List.mem_append_right _ (List.mem_cons_self ..)
      rcases hpart e he' with h | h <;> rw [Callback.OfRaw, h] <;> decide)
      (hrest.runs.hardReject hstored)
    obtain ⟨m₁, m₂, b, hm, htap₁⟩ :=
      htap.upto (fun c hc => by cases List.mem_singleton.1 hc) hes.symm
    have hitems := htap₁.ledger (fun c e he => by rw [List.mem_singleton.1 he]; rfl) hrun
    cases hdata : v.outputsData with
    | none =>
      rw [hdata] at htr
      obtain rfl : e₀ = [] := htr
      cases m₁ <;> cases hm
    | some ds =>
      rw [hdata] at htr
      obtain ⟨-, e, htrs, rfl⟩ := htr
      obtain ⟨k, es', hk, hi, htrs', hlast⟩ := Spec.TrItems.upto Callback.validateOutputDataStart
        (fun h => by injection h) announced_outputData htrs hm
      rw [hlast] at hitems
      obtain ⟨g₁, n, hruns, hg₁⟩ := ledger_outputsData htrs' hitems
        (hrest.runs.isUnsafe hstoredSafe)
      obtain ⟨nd, io, io', -, hd⟩ := hstep
      simp only [dispatch, Except.ok.injEq, Prod.mk.injEq] at hd
      have hcell := congrArg SignState.cellState hg₁
      rw [← hd.1] at hcell
      refine ⟨k, hk, by rw [hi, UInt32.zero_add], g₁, hruns, ?_, ?_⟩
      · have hflag := congrArg CellState.daoDataIsNonzero hcell
        exact hflag
      · have hactive := congrArg CellState.active hcell
        exact hactive

/-- The flag when the data of an output start. -/
theorem Transcript.flag_before (hok : t.last.maybe.hardReject = false)
    (hsafe : t.last.maybe.isUnsafe = false) (houtputs : v.outputs ≠ none) {s : SignState} {k : ℕ}
    (hk : k < (v.outputsData.getD []).length)
    (hs : (s, .validateOutputDataStart (UInt32.ofNat k)) ∈ t.dataTrace) (d : List UInt8) :
    ((s.validateOutputDataStart env (UInt32.ofNat k)).readData d).cellState.daoDataIsNonzero =
      (((v.outputsData.getD []).take k).any hasNonzero || hasNonzero d) := by
  obtain ⟨hlength, -⟩ := t.outputsData.1.announced
  obtain ⟨k', hk', hnumber, g₁, hruns, hflag, hactive⟩ := t.data_before hok hsafe hs
  have hsame : k = k' := by
    have hnat := congrArg UInt32.toNat hnumber
    rw [UInt32.toNat_ofNat', UInt32.toNat_ofNat'] at hnat
    omega
  have hpaid : t.paid.hashless.cellState = { active := true } := t.cell_paid hok hsafe houtputs
  obtain ⟨hact, hnonzero⟩ := hruns.dataNonzero (by rw [hpaid])
  change (s.cellState.daoDataIsNonzero || (s.cellState.active && hasNonzero d)) = _
  rw [hflag, hactive, hact, hnonzero, hpaid, hsame, Bool.true_and, Bool.false_or]

end Session

end LedgerNervos
