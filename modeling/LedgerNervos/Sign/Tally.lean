import LedgerNervos.Sign.Inputs
import LedgerNervos.Sign.Sources

/-!
# The ledger, cell by cell

A session that leads to a prompt takes the inputs one after the other, then the outputs, then
their data.  `TakeInput`, `TakeOutput` and `TakeData` say what each of them does to the ledger,
and the theorems on `Transcript` that the states between the parts are connected by runs of them.
-/

namespace LedgerNervos

variable {env : Env} {P : NvramData → Prop} {g g' g₁ : SignState}

open Callback (annotatedRawTransactionCallbacks)

/-- The items of a list with their numbers. -/
def numbered {α : Type} : UInt32 → List α → List (UInt32 × α)
  | _, [] => []
  | i, a :: as => (i, a) :: numbered (i + 1) as

theorem mem_numbered {α : Type} {as : List α} {i : UInt32} {l : UInt32 × α} :
    l ∈ numbered i as ↔ ∃ k, as[k]? = some l.2 ∧ l.1 = i + UInt32.ofNat k := by
  induction as generalizing i with
  | nil => simp [numbered]
  | cons a as ih =>
    rw [numbered, List.mem_cons, ih]
    constructor
    · rintro (rfl | ⟨k, hk, hl⟩)
      · exact ⟨0, rfl, (UInt32.add_zero i).symm⟩
      · exact ⟨k + 1, hk, hl.trans (Spec.add_ofNat_succ i k).symm⟩
    · rintro ⟨_ | k, hk, hl⟩
      · refine .inl (Prod.ext ?_ (Option.some.inj hk).symm)
        rw [hl]
        exact UInt32.add_zero i
      · exact .inr ⟨k, hk, hl.trans (Spec.add_ofNat_succ i k)⟩

/-- Each item has its number. -/
theorem mem_numbered_of_getElem? {α : Type} {as : List α} {k : ℕ} {a : α} (h : as[k]? = some a) :
    (UInt32.ofNat k, a) ∈ numbered 0 as :=
  mem_numbered.2 ⟨k, h, (UInt32.zero_add _).symm⟩

theorem map_numbered {α β : Type} (f : α → β) (i : UInt32) (as : List α) :
    (numbered i as).map (fun l => f l.2) = as.map f := by
  induction as generalizing i with
  | nil => rfl
  | cons a as ih => rw [numbered, List.map_cons, List.map_cons, ih]

/-! ### Outputs -/

/-- An output is taken. -/
def TakeOutput (env : Env) (P : NvramData → Prop) (g : SignState) (o : UInt32 × CellOutputVal)
    (g' : SignState) : Prop :=
  (∃ c tmp, OutputRead env P o.2 (g.outputStart o.1) g' c tmp) ∧ g'.maybe.isUnsafe = false

theorem step_outputStart {i : UInt32} (h : LedgerStep env P g (.outputStart i) g') :
    g' = g.outputStart i := by
  obtain ⟨nd, io, io', -, hd⟩ := h.step rfl (by simp)
  simp only [dispatch, Except.ok.injEq, Prod.mk.injEq] at hd
  exact hd.1.symm

/-- The calls for the items of an output hash nothing. -/
theorem hashes_output : (MolSpec.cellOutput annotatedRawTransactionCallbacks.outputs.item).Emits
    fun e => e.hashes = false ∧ e ≠ .finishContextTxn := by
  refine emits_cellOutput ?_ (emits_script ?_ ?_ ?_ (emits_bytes ?_ ?_ ?_) ?_)
    (emits_script ?_ ?_ ?_ (emits_bytes ?_ ?_ ?_) ?_) ?_
  all_goals
    simp only [annotatedRawTransactionCallbacks, List.mem_singleton, List.not_mem_nil,
      false_implies, implies_true, forall_eq]
  all_goals
    intros
    exact ⟨rfl, by simp⟩

/-- The calls for outputs, one after the other. -/
theorem ledger_outputs {os : List CellOutputVal} {i : UInt32} {cs : List Chunk}
    {es : List Callback}
    (htr : Spec.TrItems (MolSpec.cellOutput annotatedRawTransactionCallbacks.outputs.item) []
      (fun i => [.outputStart i]) i os cs es)
    (hs : Runs (LedgerStep env P) g (.outputStart i :: es) g')
    (hsafe : g'.maybe.isUnsafe = false) :
    ∃ g₁ n, Runs (TakeOutput env P) g (numbered i os) g₁ ∧ g' = g₁.outputStart n := by
  induction os generalizing g i cs es with
  | nil =>
    obtain rfl : es = [] := htr
    exact ⟨g, i, .nil g, step_outputStart (Runs.single_iff.1 hs)⟩
  | cons o os ih =>
    obtain ⟨e₁, e₂, h₁, h₂, rfl⟩ := htr
    obtain ⟨_, hstart, hrun⟩ := Runs.cons_iff.1 hs
    obtain rfl := step_outputStart hstart
    obtain ⟨g₂, hitem, hrest⟩ := Runs.append_iff.1 hrun
    have hsafe₂ := hrest.ledger_isUnsafe hsafe
    have htake := steps_output (events_cellOutput h₁) rfl rfl rfl
      (hitem.steps (hashes_output _ _ _ h₁)) hsafe₂
    obtain ⟨g₁, n, hruns, hlast⟩ := ih h₂ hrest
    exact ⟨g₁, n, .cons ⟨htake, hsafe₂⟩ hruns, hlast⟩

/-! ### The data of the outputs -/

/-- The data of an output are taken. -/
def TakeData (env : Env) (P : NvramData → Prop) (g : SignState) (d : UInt32 × List UInt8)
    (g' : SignState) : Prop :=
  (∃ nd, P nd ∧
    g' = ((g.validateOutputDataStart env d.1).readData d.2).finishOutputCellData nd) ∧
    g'.maybe.isUnsafe = false

theorem step_validateOutputDataStart {i : UInt32}
    (h : LedgerStep env P g (.validateOutputDataStart i) g') :
    g' = g.validateOutputDataStart env i := by
  obtain ⟨nd, io, io', -, hd⟩ := h.step rfl (by simp)
  simp only [dispatch, Except.ok.injEq, Prod.mk.injEq] at hd
  exact hd.1.symm

/-- The calls for the data of an output hash nothing. -/
theorem hashes_outputData :
    (MolSpec.bytes annotatedRawTransactionCallbacks.outputsData.item).Emits
      fun e => e.hashes = false ∧ e ≠ .finishContextTxn := by
  refine emits_bytes ?_ ?_ ?_
  all_goals
    simp only [annotatedRawTransactionCallbacks, sizeCallback, List.mem_singleton, forall_eq]
  all_goals
    intros
    exact ⟨rfl, by simp⟩

/-- The calls for the data of outputs, one after the other. -/
theorem ledger_outputsData {ds : List (List UInt8)} {i : UInt32} {cs : List Chunk}
    {es : List Callback}
    (htr : Spec.TrItems (MolSpec.bytes annotatedRawTransactionCallbacks.outputsData.item) []
      (fun i => [.validateOutputDataStart i]) i ds cs es)
    (hs : Runs (LedgerStep env P) g (.validateOutputDataStart i :: es) g')
    (hsafe : g'.maybe.isUnsafe = false) :
    ∃ g₁ n, Runs (TakeData env P) g (numbered i ds) g₁ ∧
      g' = g₁.validateOutputDataStart env n := by
  induction ds generalizing g i cs es with
  | nil =>
    obtain rfl : es = [] := htr
    exact ⟨g, i, .nil g, step_validateOutputDataStart (Runs.single_iff.1 hs)⟩
  | cons d ds ih =>
    obtain ⟨e₁, e₂, h₁, h₂, rfl⟩ := htr
    obtain ⟨_, hstart, hrun⟩ := Runs.cons_iff.1 hs
    obtain rfl := step_validateOutputDataStart hstart
    obtain ⟨g₂, hitem, hrest⟩ := Runs.append_iff.1 hrun
    have hsafe₂ := hrest.ledger_isUnsafe hsafe
    have hfinish := Runs.single_iff.1
      (steps_data rfl rfl (events_bytes h₁) (hitem.steps (hashes_outputData _ _ _ h₁)))
    obtain ⟨nd, io, io', hnd, hd⟩ := hfinish
    simp only [dispatch, Except.ok.injEq, Prod.mk.injEq] at hd
    obtain ⟨g₁, n, hruns, hlast⟩ := ih h₂ hrest
    exact ⟨g₁, n, .cons ⟨⟨nd, hnd, hd.1.symm⟩, hsafe₂⟩ hruns, hlast⟩

/-- A call for an output, or for one of the pieces that are hashed. -/
def Callback.OfOutput (e : Callback) : Prop :=
  (e.part = .outputs ∨ e.part = .raw) ∧ e ≠ .outputsEnd

/-- The calls for the outputs end with that for all of them. -/
theorem OutputCalls.split {v : AnnotatedTransactionVal} {es : List Callback}
    (h : OutputCalls v es) :
    ∃ es', es = es' ++ [.outputsEnd] ∧ ∀ e ∈ es', e.OfOutput := by
  obtain ⟨cs, e₀, e₁, htr, htap, hes⟩ := h
  refine ⟨e₁, hes, ?_⟩
  have hitems : ∀ e ∈ e₀, e.OfOutput :=
    Spec.Emits.dynVec (List.forall_mem_nil _) (fun _ => List.forall_mem_nil _)
      (fun n e he => by
        rw [List.mem_singleton.1 he]
        exact ⟨.inl rfl, nofun⟩) (Callback.emits_output fun e he hne => ⟨he, hne⟩) _ _ _ htr
  exact htap.forall_mem hitems fun c e he => by
    rw [List.mem_singleton.1 he]
    exact ⟨.inr rfl, nofun⟩

/-! ### Before the inputs -/

/-- The state before the inputs: nothing but the keys and the number of inputs is known. -/
def SignState.unspent (g : SignState) : SignState :=
  { tempKey := g.tempKey
    currentLockArg := g.currentLockArg
    changeLockArg := g.changeLockArg
    inputCount := g.inputCount
    keyPathComponents := g.keyPathComponents
    keyLength := g.keyLength }

/-- The calls for the paths and for the number of inputs. -/
theorem step_unspent {e : Callback} (he : e.part = .path ∨ e.part = .count)
    (h : g.Step env P e g') (hok : g'.maybe.hardReject = false) (hg : g.hashless = g.unspent) :
    g'.hashless = g'.unspent := by
  obtain ⟨nd, io, io', -, hd⟩ := h
  cases e <;> simp only [dispatch, Except.ok.injEq, Prod.mk.injEq] at hd
  case setSignPath =>
    cases hk : prepLockArg env g.tempKey with
    | error x =>
      rw [SignState.setSignPath, hk] at hd
      cases hd
    | ok lock =>
      rw [SignState.setSignPath, hk] at hd
      cases hd
      exact congrArg (fun s : SignState => { s with
        currentLockArg := lock
        keyPathComponents := g.tempKey.components.drop 2
        keyLength := g.tempKey.length
        changeLockArg := lock }) hg
  case setChangePath =>
    cases hk : prepLockArg env g.tempKey with
    | error x =>
      rw [SignState.setChangePath, hk] at hd
      cases hd
    | ok lock =>
      rw [SignState.setChangePath, hk] at hd
      cases hd
      exact congrArg (fun s : SignState => { s with changeLockArg := lock }) hg
  case initBip32 size =>
    obtain ⟨rfl, -⟩ := hd
    unfold SignState.initBip32
    unfold SignState.initBip32 at hok
    split_ifs at hok ⊢
    · exact congrArg (fun s : SignState => { s with tempKey.length := 0 }) hg
    · cases hok
  case bip32Component bs =>
    obtain ⟨rfl, -⟩ := hd
    exact congrArg (fun s : SignState => { s with tempKey := (g.bip32Component bs).tempKey }) hg
  case setInputCount bs =>
    obtain ⟨rfl, -⟩ := hd
    exact congrArg (fun s : SignState => { s with inputCount := molUnpackNumber bs }) hg
  all_goals rcases he with he | he <;> exact Part.noConfusion he

/-- The calls up to the header dependencies hash. -/
theorem HeaderCalls.hashes {v : AnnotatedTransactionVal} {es : List Callback}
    (h : HeaderCalls v es) : ∀ e ∈ es, e.hashes = true := by
  obtain ⟨e₁, e₂, c₁, c₂, h₁, h₂, rfl⟩ := h
  have hchunk : ∀ c : Chunk, ∀ e ∈ [Callback.blake2bChunk c.bytes], e.hashes = true :=
    fun c e he => by rw [List.mem_singleton.1 he]; rfl
  refine List.forall_mem_append.2 ⟨List.forall_mem_append.2 ⟨?_, ?_⟩, ?_⟩
  · exact List.forall_mem_cons.2 ⟨rfl, List.forall_mem_cons.2 ⟨rfl, List.forall_mem_nil _⟩⟩
  · exact h₁.forall_mem (List.forall_mem_nil _) hchunk
  · exact h₂.forall_mem (List.forall_mem_nil _) hchunk

namespace Transcript

variable {v : AnnotatedTransactionVal} (t : Transcript env P v)

/-- Nothing that follows a state has refused the transaction for good. -/
theorem hardReject_parts (hok : t.last.maybe.hardReject = false) :
    t.opened.maybe.hardReject = false ∧ t.spent.maybe.hardReject = false ∧
      t.paid.maybe.hardReject = false ∧ t.stored.maybe.hardReject = false := by
  have hstored := (Visits.cons t.finalize t.witnesses.2).runs.hardReject hok
  have hpaid := t.outputsData.2.runs.hardReject hstored
  have hspent := t.outputs.2.runs.hardReject hpaid
  exact ⟨t.inputs.2.runs.hardReject hspent, hspent, hpaid, hstored⟩

/-- Nothing that follows a state has found the transaction unsafe. -/
theorem isUnsafe_parts (hsafe : t.last.maybe.isUnsafe = false) :
    t.spent.maybe.isUnsafe = false ∧ t.paid.maybe.isUnsafe = false ∧
      t.stored.maybe.isUnsafe = false ∧ t.finalized.maybe.isUnsafe = false := by
  have hfinalized := t.witnesses.2.runs.isUnsafe hsafe
  have hstored := (Runs.single_iff.2 t.finalize).isUnsafe hfinalized
  have hpaid := t.outputsData.2.runs.isUnsafe hstored
  exact ⟨t.outputs.2.runs.isUnsafe hpaid, hpaid, hstored, hfinalized⟩

theorem unspent_opened (hok : t.last.maybe.hardReject = false) :
    t.opened.hashless = t.opened.unspent := by
  obtain ⟨hopened, -⟩ := t.hardReject_parts hok
  have hcounted : t.counted.hashless = t.counted.unspent :=
    (t.paths.2.invariant_until (I := fun s => s.hashless = s.unspent)
      (J := fun s => s.maybe.hardReject = false) rfl (t.header.2.runs.hardReject hopened)
      (fun _ _ _ hstep => (Runs.single_iff.2 hstep).hardReject)
      fun s e s' he hstep hok hs =>
        step_unspent (t.paths.1.part e (List.mem_map_of_mem he)) hstep hok hs).1
  have hheader := t.header.2.runs.ledger (fun e he => by
    rw [Callback.OfRaw, t.header.1.part e he]
    decide) hopened
  have hsame : t.opened.hashless = t.counted.hashless :=
    hheader.frame (f := id) fun s e s' he hstep =>
      hstep.eq_of_hashes (t.header.1.hashes e he)
  have hview : t.counted.hashless.unspent = t.opened.hashless.unspent :=
    congrArg SignState.unspent hsame.symm
  rw [hsame, hcounted]
  exact hview

/-! ### The parts as runs -/

/-- The 20 bytes that `input_lock_arg_end` compares, one after the other, for the cells that the
inputs refer to. -/
def comparedKeys : List StandardLockArg := LedgerNervos.comparedKeys t.inputTrace

/-- **The inputs** are taken one after the other, and what is compared are 20 bytes of the args that
have been read of their cells. -/
theorem takes_inputs_args (hok : t.last.maybe.hardReject = false)
    (hsafe : t.last.maybe.isUnsafe = false) :
    ∃ ls g₁, ls.map Prod.snd = v.inputs.getD [] ∧
      Runs (TakeInputArgs P) t.opened.unspent ls g₁ ∧ t.spent.hashless = g₁.finishInputs ∧
      t.comparedKeys = inputKeys ls := by
  obtain ⟨-, hspent, -, -⟩ := t.hardReject_parts hok
  obtain ⟨hspentSafe, -⟩ := t.isUnsafe_parts hsafe
  obtain ⟨hcalls, hvisits⟩ := t.inputs
  have hrun := hvisits.ledger (fun e he => by
    rcases hcalls.part e he with h | h <;> rw [Callback.OfRaw, h] <;> decide) hspent
  have hevents := hcalls.events
  rw [t.unspent_opened hok] at hrun
  have hkeys : t.comparedKeys = LedgerNervos.comparedKeys
      (t.inputTrace.map fun x => (x.1.hashless, x.2)) := (comparedKeys_hashless _).symm
  have hls : (t.inputTrace.map fun x => (x.1.hashless, x.2)).map Prod.snd =
      t.inputTrace.map Prod.snd := List.map_map ..
  rw [hkeys]
  generalize t.inputTrace.map Prod.snd = es at hevents hls
  generalize (t.inputTrace.map fun x => (x.1.hashless, x.2)) = tr at hrun hls
  generalize v.inputs = inputs at hevents
  cases hevents with
  | empty =>
    obtain ⟨s₁, tr₁, rfl, h₁, hrun, hls₁⟩ := hrun.uncons hls
    obtain ⟨s₂, tr₂, rfl, h₂, hrun, hls₂⟩ := hrun.uncons hls₁
    obtain ⟨rfl, hlast⟩ := hrun.of_nil hls₂
    obtain ⟨_, _, _, -, hd₁⟩ := h₁.step rfl (by simp)
    obtain ⟨_, _, _, -, hd₂⟩ := h₂.step rfl (by simp)
    simp only [dispatch, Except.ok.injEq, Prod.mk.injEq] at hd₁ hd₂
    refine ⟨[], _, rfl, .nil _, ?_, rfl⟩
    rw [hlast, ← hd₂.1, ← hd₁.1]
    rfl
  | items hlen hitems =>
    obtain ⟨s₁, tr₁, rfl, h₁, hrun₁, hls₁⟩ := hrun.uncons hls
    obtain ⟨s₂, tr₂, rfl, h₂, hrun₂, hls₂⟩ := hrun₁.uncons hls₁
    obtain ⟨s₃, tr₃, rfl, h₃, hrun₃, hls₃⟩ := hrun₂.uncons hls₂
    obtain ⟨tr₄, tr₅, g₁, rfl, hls₄, hls₅, hitem, hfinish⟩ := hrun₃.split hls₃
    obtain ⟨s₄, tr₆, rfl, h₄, hnil, hls₆⟩ := hfinish.uncons hls₅
    obtain ⟨rfl, hlast⟩ := hnil.of_nil hls₆
    rw [← hlast] at h₄
    obtain ⟨_, _, _, -, hd₁⟩ := h₁.step rfl (by simp)
    obtain ⟨_, _, _, -, hd₂⟩ := h₂.step rfl (by simp)
    obtain ⟨_, _, _, -, hd₄⟩ := h₄.step rfl (by simp)
    simp only [dispatch, Except.ok.injEq, Prod.mk.injEq] at hd₁ hd₂ hd₄
    obtain rfl := h₃.eq_of_hashes rfl
    have hstart : s₃ = t.opened.unspent := by
      rw [← hd₂.1, ← hd₁.1]
      rfl
    rw [hstart] at hitem
    have hsafe₁ : g₁.maybe.isUnsafe = false :=
      (Runs.single_iff.2 h₄).ledger_isUnsafe hspentSafe
    obtain ⟨ls, hmap, hruns, hcompared⟩ := visits_inputs hitems ⟨rfl, rfl⟩ hitem hls₄ hsafe₁
    refine ⟨ls, g₁, hmap, hruns, hd₄.1.symm, ?_⟩
    rw [← hcompared]
    -- the calls around those for the inputs compare nothing
    exact (comparedKeys_append tr₄ _).trans (List.append_nil _)

/-- **The inputs** are taken one after the other. -/
theorem takes_inputs (hok : t.last.maybe.hardReject = false)
    (hsafe : t.last.maybe.isUnsafe = false) :
    ∃ g₁, Runs (TakeInput P) t.opened.unspent (v.inputs.getD []) g₁ ∧
      t.spent.hashless = g₁.finishInputs := by
  obtain ⟨ls, g₁, hls, hruns, hspent, -⟩ := t.takes_inputs_args hok hsafe
  exact ⟨g₁, hls ▸ hruns.relabel Prod.snd fun _ _ _ hstep => hstep.take, hspent⟩

/-- The outputs are read in a run of calls for them, and then closed. -/
theorem outputs_run : ∃ tr g₁, t.outputTrace = tr ++ [(g₁, .outputsEnd)] ∧
    Visits (SignState.Step env P) t.spent tr g₁ ∧ (∀ x ∈ tr, x.2.OfOutput) ∧
    g₁.maybe.Worsens t.paid.maybe ∧ g₁.outputsEnd = .ok t.paid := by
  obtain ⟨hcalls, hvisits⟩ := t.outputs
  obtain ⟨es, hes, houtput⟩ := hcalls.split
  obtain ⟨tr, tr', g₁, htrace, htr, htr', hvisits, hend⟩ := hvisits.split hes
  obtain ⟨g₂, tr₁, rfl, hstep, hnil, htr₁⟩ := hend.uncons htr'
  obtain ⟨rfl, hlast⟩ := hnil.of_nil htr₁
  rw [← hlast] at hstep
  refine ⟨tr, g₁, htrace, hvisits, fun x hx => houtput x.2 (htr ▸ List.mem_map_of_mem hx),
    hstep.worsens, ?_⟩
  obtain ⟨nd, io, io', -, hd⟩ := hstep
  simp only [dispatch, map_eq_ok_iff, Prod.mk.injEq] at hd
  obtain ⟨_, hd, rfl, -⟩ := hd
  exact hd

/-- Before the outputs are closed, they have been taken one after the other. -/
theorem outputs_taken {tr : List (SignState × Callback)} {g₂ : SignState}
    (htrace : t.outputTrace = tr ++ [(g₂, .outputsEnd)])
    (hvisits : Visits (SignState.Step env P) t.spent tr g₂) (hok : g₂.maybe.hardReject = false)
    (hsafe : g₂.maybe.isUnsafe = false) :
    ∃ g₁, Runs (TakeOutput env P) t.spent.hashless (numbered 0 (v.outputs.getD [])) g₁ ∧
      (v.outputs = none ∧ g₂.hashless = g₁ ∨ ∃ n, g₂.hashless = g₁.outputStart n) := by
  obtain ⟨hcalls, -⟩ := t.outputs
  have hraw := hcalls.part
  obtain ⟨cs, e₀, e₁, htr, htap, hes⟩ := hcalls
  rw [htrace, List.map_append] at hes hraw
  obtain ⟨hes, -⟩ := List.append_inj' hes rfl
  have hrun := hvisits.runs.ledger (fun e he => by
    rcases hraw e (List.mem_append_left _ he) with h | h <;> rw [Callback.OfRaw, h] <;> decide) hok
  rw [hes] at hrun
  have hitems := htap.ledger (fun c e he => by rw [List.mem_singleton.1 he]; rfl) hrun
  cases houtputs : v.outputs with
  | none =>
    rw [houtputs] at htr
    obtain rfl : e₀ = [] := htr
    exact ⟨_, .nil _, .inl ⟨rfl, Runs.nil_iff.1 hitems⟩⟩
  | some os =>
    rw [houtputs] at htr
    obtain ⟨-, e, htrs, rfl⟩ := htr
    obtain ⟨g₁, n, hruns, hlast⟩ := ledger_outputs htrs hitems hsafe
    exact ⟨g₁, hruns, .inr ⟨n, hlast⟩⟩

/-- **The outputs** are taken one after the other. -/
theorem takes_outputs (hok : t.last.maybe.hardReject = false)
    (hsafe : t.last.maybe.isUnsafe = false) :
    ∃ g₁ g₂, Runs (TakeOutput env P) t.spent.hashless (numbered 0 (v.outputs.getD [])) g₁ ∧
      (g₂ = g₁ ∨ ∃ n, g₂ = g₁.outputStart n) ∧ g₂.outputsEnd = .ok t.paid.hashless := by
  obtain ⟨-, -, hpaid, -⟩ := t.hardReject_parts hok
  obtain ⟨-, hpaidSafe, -⟩ := t.isUnsafe_parts hsafe
  obtain ⟨tr, g₂, htrace, hvisits, -, hworse, hend⟩ := t.outputs_run
  obtain ⟨g₁, hruns, hlast⟩ := t.outputs_taken htrace hvisits (hworse.ok hpaid)
    (hworse.safe hpaidSafe)
  refine ⟨g₁, g₂.hashless, hruns, hlast.imp_left And.right, ?_⟩
  rw [SignState.hashless_outputsEnd, hend]
  rfl

/-- **The data of the outputs** are taken one after the other. -/
theorem takes_outputsData (hok : t.last.maybe.hardReject = false)
    (hsafe : t.last.maybe.isUnsafe = false) :
    ∃ g₁, Runs (TakeData env P) t.paid.hashless (numbered 0 (v.outputsData.getD [])) g₁ ∧
      (t.stored.hashless = g₁ ∨ ∃ n, t.stored.hashless = g₁.validateOutputDataStart env n) := by
  obtain ⟨-, -, -, hstored⟩ := t.hardReject_parts hok
  obtain ⟨-, -, hstoredSafe, -⟩ := t.isUnsafe_parts hsafe
  obtain ⟨hcalls, hvisits⟩ := t.outputsData
  have hrun := hvisits.runs.ledger (fun e he => by
    rcases hcalls.part e he with h | h <;> rw [Callback.OfRaw, h] <;> decide) hstored
  obtain ⟨cs, e₀, e₁, htr, htap, hes⟩ := hcalls
  rw [hes, show annotatedRawTransactionCallbacks.outputsData.finish = [] from rfl,
    List.append_nil] at hrun
  have hitems := htap.ledger (fun c e he => by rw [List.mem_singleton.1 he]; rfl) hrun
  cases hdata : v.outputsData with
  | none =>
    rw [hdata] at htr
    obtain rfl : e₀ = [] := htr
    exact ⟨_, .nil _, .inl (Runs.nil_iff.1 hitems)⟩
  | some ds =>
    rw [hdata] at htr
    obtain ⟨-, e, htrs, rfl⟩ := htr
    obtain ⟨g₁, n, hruns, hlast⟩ := ledger_outputsData htrs hitems hstoredSafe
    exact ⟨g₁, hruns, .inr ⟨n, hlast⟩⟩

end Transcript

end LedgerNervos
