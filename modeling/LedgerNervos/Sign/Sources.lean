import LedgerNervos.Sign.Cells

/-!
# The cells that the inputs refer to

An input comes with the whole transaction it refers to.  Of the outputs there, and of their data,
only the one at the index of the input counts: the callbacks are called for all of them, and the
flag `active` tells them which one it is.  `Selected` says that of a list of items one was taken
and the others skipped, and `TakeInput` what an input does to the ledger.
-/

namespace LedgerNervos

variable {env : Env} {P : NvramData → Prop} {g g' g₁ : SignState}

open Callback (annotatedCellInputCallbacks annotatedRawTransactionCallbacks)

namespace AnnotatedCellInputVal

/-- The index of the output that the input refers to. -/
def index (a : AnnotatedCellInputVal) : UInt32 := molUnpackNumber a.2.1.2.1.2.1

/-- The outputs of the transaction that the input refers to. -/
def sourceOutputs (a : AnnotatedCellInputVal) : List CellOutputVal :=
  a.2.2.1.2.2.2.2.2.1.getD []

/-- The data of these outputs. -/
def sourceData (a : AnnotatedCellInputVal) : List (List UInt8) := a.2.2.1.2.2.2.2.2.2.1.getD []

/-- The cell that the input refers to. -/
def cell (a : AnnotatedCellInputVal) : Option CellOutputVal := a.sourceOutputs[a.index.toNat]?

/-- The data of the cell that the input refers to. -/
def data (a : AnnotatedCellInputVal) : Option (List UInt8) := a.sourceData[a.index.toNat]?

end AnnotatedCellInputVal

/-! ### Skipping -/

/-- The callbacks that do nothing for an inactive cell. -/
def Callback.guarded : Callback → Bool
  | cellCapacity _ | cellLockCodeHash _ | cellScriptHashType _ | scriptArgStartInput
  | scriptArgChunk _ | inputLockArgEnd | cellTypeCodeHash _ | cellTypeArgLength _
  | checkCellDataDataChunk _ | finishInputCellData => true
  | _ => false

theorem SignState.Step.guarded {e : Callback} (h : g.Step env P e g') (he : e.guarded = true)
    (hin : g.cellState.active = false) : g' = g := by
  obtain ⟨nd, io, io', -, hd⟩ := h
  have hguard : (!g.cellState.active) = true := by rw [hin, Bool.not_false]
  cases e
  all_goals try exact absurd he Bool.false_ne_true
  all_goals
    simp only [dispatch, SignState.cellCapacity, SignState.cellLockCodeHash,
      SignState.cellScriptHashType, SignState.scriptArgStartInput, SignState.scriptArgChunk,
      SignState.inputLockArgEnd, SignState.cellTypeCodeHash, SignState.cellTypeArgLength,
      SignState.checkCellDataDataChunk, SignState.finishInputCellData, if_pos hguard,
      Except.ok.injEq, Prod.mk.injEq] at hd
    exact hd.1.symm

/-- Nothing has happened but that cells have been skipped. -/
def Idle (g g' : SignState) : Prop :=
  ∃ active size, g' = { g with cellState.active := active, cellState.dataSize := size }

namespace Idle

theorem refl (g : SignState) : Idle g g := ⟨_, _, rfl⟩

theorem trans (h : Idle g g₁) (h' : Idle g₁ g') : Idle g g' := by
  obtain ⟨_, _, rfl⟩ := h
  obtain ⟨_, _, rfl⟩ := h'
  exact ⟨_, _, rfl⟩

theorem index (h : Idle g g') : g'.inp.inputState.index = g.inp.inputState.index := by
  obtain ⟨_, _, rfl⟩ := h
  rfl

/-- A choice that is not made. -/
theorem start (g : SignState) (idx : UInt32) : Idle g (g.inputContextStartIdx idx) :=
  ⟨_, _, rfl⟩

end Idle

/-- The calls for a cell that is not chosen do nothing. -/
theorem Runs.inactive {es : List Callback} (h : Steps env P g es g')
    (hes : ∀ e ∈ es, e.guarded = true) (hin : g.cellState.active = false) : g' = g := by
  have hsame := h.invariant (I := fun s => s = g) rfl fun s e s' he hstep hs => by
    subst hs
    exact hstep.guarded (hes e he) hin
  exact hsame

/-! ### The args that are compared -/

/-- The 20 bytes of args that `input_lock_arg_end` compares with those before, when it is called for
a cell that counts. -/
def comparedKey (x : SignState × Callback) : Option StandardLockArg :=
  match x.2 with
  | .inputLockArgEnd => if x.1.cellState.active then some (LockArg.hash x.1.lockArgTmp) else none
  | _ => none

/-- The 20 bytes that are compared in the steps `tr`, one after the other. -/
abbrev comparedKeys (tr : List (SignState × Callback)) : List StandardLockArg :=
  tr.filterMap comparedKey

theorem comparedKeys_append (tr tr' : List (SignState × Callback)) :
    comparedKeys (tr ++ tr') = comparedKeys tr ++ comparedKeys tr' :=
  List.filterMap_append ..

/-- What is compared does not depend on what is hashed. -/
theorem comparedKeys_hashless (tr : List (SignState × Callback)) :
    comparedKeys (tr.map fun x => (x.1.hashless, x.2)) = comparedKeys tr :=
  List.filterMap_map ..

theorem comparedKey_of_ne {x : SignState × Callback} (h : x.2 ≠ .inputLockArgEnd) :
    comparedKey x = none := by
  unfold comparedKey
  split
  · rename_i heq
    exact absurd heq h
  · rfl

theorem comparedKeys_of_ne {tr : List (SignState × Callback)}
    (h : ∀ e ∈ tr.map Prod.snd, e ≠ .inputLockArgEnd) : comparedKeys tr = [] :=
  List.filterMap_eq_nil_iff.2 fun x hx => comparedKey_of_ne (h x.2 (List.mem_map_of_mem hx))

/-- Nothing is compared for a cell that does not count. -/
theorem comparedKeys_inactive {tr : List (SignState × Callback)}
    (h : Visits (SignState.Step env P) g tr g') (hes : ∀ e ∈ tr.map Prod.snd, e.guarded = true)
    (hin : g.cellState.active = false) : comparedKeys tr = [] := by
  have hsame := (h.invariant (I := fun s => s = g) rfl fun s e s' he hstep hs => by
    subst hs
    exact hstep.guarded (hes e (List.mem_map_of_mem he)) hin).2
  refine List.filterMap_eq_nil_iff.2 fun x hx => ?_
  unfold comparedKey
  split
  · rw [(hsame x hx).1, hin, if_neg Bool.false_ne_true]
  · rfl

/-- The callbacks that are called between two choices of a cell do not choose. -/
theorem SignState.Step.active_of_guarded {e : Callback} (h : g.Step env P e g')
    (he : e.guarded = true) : g'.cellState.active = g.cellState.active := by
  obtain ⟨nd, io, io', -, hd⟩ := h
  cases e
  all_goals try exact absurd he Bool.false_ne_true
  all_goals
    simp only [dispatch, Except.ok.injEq, Prod.mk.injEq] at hd
    obtain ⟨rfl, -⟩ := hd
  case inputLockArgEnd => rw [cellState_inputLockArgEnd]
  case finishInputCellData => rw [cellState_finishInputCellData]
  case scriptArgChunk bs =>
    unfold SignState.scriptArgChunk
    dsimp only
    split_ifs
    · rfl
    · rfl
    · split <;> rfl
  all_goals
    simp only [SignState.cellCapacity, SignState.cellLockCodeHash, SignState.cellScriptHashType,
      SignState.scriptArgStartInput, SignState.cellTypeCodeHash, SignState.cellTypeArgLength,
      SignState.checkCellDataDataChunk]
    split_ifs <;> rfl

/-- The end of the lock script, and the calls for the type script, leave the args alone. -/
theorem SignState.Step.lockArgTmp_of_ending {e : Callback} (h : g.Step env P e g')
    (he : e = .inputLockArgEnd ∨ (∃ bs, e = .cellTypeCodeHash bs) ∨
      (∃ b, e = .cellScriptHashType b) ∨ ∃ n, e = .cellTypeArgLength n) :
    g'.lockArgTmp = g.lockArgTmp := by
  obtain ⟨nd, io, io', -, hd⟩ := h
  rcases he with rfl | ⟨bs, rfl⟩ | ⟨b, rfl⟩ | ⟨n, rfl⟩
  all_goals
    simp only [dispatch, Except.ok.injEq, Prod.mk.injEq] at hd
    obtain ⟨rfl, -⟩ := hd
  · unfold SignState.inputLockArgEnd
    dsimp only
    split_ifs <;> rfl
  · unfold SignState.cellTypeCodeHash
    split_ifs <;> rfl
  · unfold SignState.cellScriptHashType
    split_ifs <;> rfl
  · unfold SignState.cellTypeArgLength
    split_ifs <;> rfl

/-- The calls for a cell: those up to its args, the end of its lock script, those for its type. -/
theorem CellOutputEvents.split {o : CellOutputVal} {es : List Callback}
    (hv : CellOutputEvents annotatedCellInputCallbacks.source.outputs.item o es) :
    ∃ front behind, es = front ++ .inputLockArgEnd :: behind ∧
      (∀ e ∈ front, e.guarded = true ∧ e ≠ .inputLockArgEnd) ∧
      ∀ e ∈ behind, (∃ bs, e = .cellTypeCodeHash bs) ∨ (∃ b, e = .cellScriptHashType b) ∨
        ∃ n, e = .cellTypeArgLength n := by
  obtain ⟨e₁, e₂, hlock, htype, rfl⟩ := hv.events
  obtain ⟨_, ⟨-, -, pieces, -, -, rfl⟩, rfl⟩ := hlock.events
  refine ⟨[.cellCapacity o.2.1, .cellLockCodeHash o.2.2.1.2.1, .cellScriptHashType o.2.2.1.2.2.1,
    .scriptArgStartInput] ++ pieces.flatMap fun c => [.scriptArgChunk c.bytes], e₂, ?_, ?_, ?_⟩
  · simp [annotatedCellInputCallbacks]
  · intro e he
    simp only [List.mem_append, List.mem_cons, List.not_mem_nil, or_false, List.mem_flatMap] at he
    rcases he with (rfl | rfl | rfl | rfl) | ⟨c, -, rfl⟩ <;> exact ⟨rfl, by simp⟩
  · intro e he
    cases htyped : o.2.2.2.1 with
    | none =>
      rw [htyped] at htype
      obtain rfl : e₂ = [] := htype
      cases he
    | some s =>
      rw [htyped] at htype
      obtain ⟨_, ⟨-, -, pieces, -, -, rfl⟩, rfl⟩ := ScriptEvents.events htype
      simp only [annotatedCellInputCallbacks, List.mem_append, List.mem_cons, List.not_mem_nil,
        or_false, List.mem_flatMap, and_false, exists_false] at he
      rcases he with (rfl | rfl) | rfl
      · exact .inl ⟨_, rfl⟩
      · exact .inr (.inl ⟨_, rfl⟩)
      · exact .inr (.inr ⟨_, rfl⟩)

/-- For a cell that counts, the args are compared once, and they stay where they are. -/
theorem comparedKeys_active {o : CellOutputVal} {es : List Callback}
    (hv : CellOutputEvents annotatedCellInputCallbacks.source.outputs.item o es)
    {tr : List (SignState × Callback)} (hact : g.cellState.active = true)
    (h : Visits (SignState.Step env P) g tr g') (hls : tr.map Prod.snd = es) :
    comparedKeys tr = [LockArg.hash g'.lockArgTmp] := by
  obtain ⟨front, behind, rfl, hfront, hbehind⟩ := hv.split
  obtain ⟨tr₁, tr₂, s, rfl, rfl, hls₂, hbefore, hrest⟩ := h.split hls
  obtain ⟨s₁, tr₃, rfl, hend, htype, rfl⟩ := hrest.uncons hls₂
  have hactive : s.cellState.active = true := by
    rw [← hact]
    exact hbefore.runs.frame (f := fun s => s.cellState.active) fun _ e _ he hstep =>
      hstep.active_of_guarded (hfront e he).1
  have htmp : g'.lockArgTmp = s.lockArgTmp := by
    rw [← hend.lockArgTmp_of_ending (.inl rfl)]
    exact htype.runs.frame (f := SignState.lockArgTmp) fun _ e _ he hstep =>
      hstep.lockArgTmp_of_ending (.inr (hbehind e he))
  have hnone₁ : tr₁.filterMap comparedKey = [] := comparedKeys_of_ne fun e he => (hfront e he).2
  have hnone₃ : tr₃.filterMap comparedKey = [] := comparedKeys_of_ne fun e he => by
    rcases hbehind e he with ⟨_, rfl⟩ | ⟨_, rfl⟩ | ⟨_, rfl⟩ <;> simp
  have hkey : comparedKey (s, .inputLockArgEnd) = some (LockArg.hash s.lockArgTmp) := by
    simp only [comparedKey, hactive, if_true]
  rw [comparedKeys, List.filterMap_append, List.filterMap_cons_some hkey, hnone₁, hnone₃, htmp,
    List.nil_append]

/-! ### Selection -/

/-- One item has been taken, if there is one; the others have been skipped. -/
inductive Selected {α : Type} (take : α → SignState → SignState → Prop) :
    Option α → SignState → SignState → Prop
  | nothing {g g' : SignState} (idle : Idle g g') : Selected take none g g'
  | item {a : α} {g g₁ g₂ g' : SignState} (before : Idle g g₁)
      (active : g₁.cellState.active = true) (taken : take a g₁ g₂) (behind : Idle g₂ g') :
      Selected take (some a) g g'

namespace Selected

variable {α : Type} {take : α → SignState → SignState → Prop} {o : Option α}

theorem after_idle (h : Idle g g₁) (h' : Selected take o g₁ g') : Selected take o g g' := by
  cases h' with
  | nothing idle => exact .nothing (h.trans idle)
  | item before active taken behind => exact .item (h.trans before) active taken behind

theorem idle (h : Selected take none g g') : Idle g g' := by
  cases h with
  | nothing idle => exact idle

theorem taken {a : α} (h : Selected take (some a) g g') :
    ∃ g₁ g₂, Idle g g₁ ∧ g₁.cellState.active = true ∧ take a g₁ g₂ ∧ Idle g₂ g' := by
  cases h with
  | item before active taken behind => exact ⟨_, _, before, active, taken, behind⟩

theorem index (h : Selected take o g g')
    (htake : ∀ a s s', take a s s' → s'.inp.inputState.index = s.inp.inputState.index) :
    g'.inp.inputState.index = g.inp.inputState.index := by
  cases h with
  | nothing idle => exact idle.index
  | item before active taken behind => rw [behind.index, htake _ _ _ taken, before.index]

end Selected

/-- The number of an item is compared with the index of the input. -/
theorem step_inputContextStartIdx {idx : UInt32} (h : g.Step env P (.inputContextStartIdx idx) g') :
    g' = g.inputContextStartIdx idx := by
  obtain ⟨nd, io, io', -, hd⟩ := h
  simp only [dispatch, Except.ok.injEq, Prod.mk.injEq] at hd
  exact hd.1.symm

/-- What is needed of the calls for an item: they do nothing for an item that is not chosen, and
`take` for the chosen one, in a state with `I`; then `keys` are compared, and no others. -/
structure Selecting (env : Env) (P : NvramData → Prop) {α : Type} (sp : Spec Callback α)
    (take : α → SignState → SignState → Prop) (keys : SignState → List StandardLockArg)
    (I : SignState → Prop) : Prop where
  skip : ∀ {a cs g g' tr}, sp.Tr a cs (tr.map Prod.snd) → g.cellState.active = false →
    Visits (SignState.Step env P) g tr g' → Idle g g' ∧ comparedKeys tr = []
  take : ∀ {a cs g g' tr}, sp.Tr a cs (tr.map Prod.snd) → g.cellState.active = true → I g →
    Visits (SignState.Step env P) g tr g' → g'.maybe.isUnsafe = false →
    take a g g' ∧ g'.inp.inputState.index = g.inp.inputState.index ∧ comparedKeys tr = keys g'
  idle : ∀ {g g'}, Idle g g' → I g → I g'
  behind : ∀ {g g'}, Idle g g' → keys g' = keys g

/-- The item at the index of the input is taken, if it is still to come. -/
theorem Selecting.items {α : Type} {sp : Spec Callback α}
    {take : α → SignState → SignState → Prop} {keys : SignState → List StandardLockArg}
    {I : SignState → Prop} (h : Selecting env P sp take keys I) {as : List α} {idx : UInt32}
    {cs : List Chunk} {es : List Callback} {tr : List (SignState × Callback)}
    (htr : Spec.TrItems sp [] (fun idx => [.inputContextStartIdx idx]) idx as cs es)
    (hlen : idx.toNat + as.length < 2 ^ 32) (hI : idx ≤ g.inp.inputState.index → I g)
    (hv : Visits (SignState.Step env P) g tr g')
    (hls : tr.map Prod.snd = .inputContextStartIdx idx :: es) (hsafe : g'.maybe.isUnsafe = false) :
    ∃ o, o = (if idx ≤ g.inp.inputState.index then
        as[g.inp.inputState.index.toNat - idx.toNat]? else none) ∧
      Selected take o g g' ∧ comparedKeys tr = if o.isSome then keys g' else [] := by
  induction as generalizing g idx cs es tr with
  | nil =>
    obtain rfl : es = [] := htr
    obtain ⟨g₁, tr₁, rfl, hstep, hrest, hnil⟩ := hv.uncons hls
    obtain ⟨rfl, rfl⟩ := hrest.of_nil hnil
    refine ⟨none, by rw [List.getElem?_nil, ite_self], ?_, rfl⟩
    rw [step_inputContextStartIdx hstep]
    exact .nothing (.start g idx)
  | cons a as ih =>
    obtain ⟨e₁, e₂, h₁, h₂, rfl⟩ := htr
    obtain ⟨g₁, tr₁, rfl, hstep, hrun, hls₁⟩ := hv.uncons hls
    obtain rfl := step_inputContextStartIdx hstep
    obtain ⟨tr₂, tr₃, g₂, rfl, rfl, hls₃, hitem, hrest⟩ := hrun.split hls₁
    rw [List.length_cons] at hlen
    have hnext : (idx + 1).toNat = idx.toNat + 1 := by
      rw [UInt32.toNat_add, UInt32.toNat_one, Nat.mod_eq_of_lt (by omega)]
    have hkeys : comparedKeys ((g, .inputContextStartIdx idx) :: (tr₂ ++ tr₃)) =
        comparedKeys tr₂ ++ comparedKeys tr₃ := List.filterMap_append ..
    have hsafe₂ := hrest.runs.isUnsafe hsafe
    by_cases hidx : idx = g.inp.inputState.index
    · -- this is the item; those that follow are skipped
      have hle : idx ≤ g.inp.inputState.index := UInt32.le_iff_toNat_le.2 (by rw [hidx])
      have hI' := h.idle (.start g idx) (hI hle)
      obtain ⟨htake, hindex, hcompared⟩ := h.take h₁ (beq_iff_eq.2 hidx) hI' hitem hsafe₂
      have hlater : ¬ idx + 1 ≤ g₂.inp.inputState.index := by
        rw [hindex, UInt32.le_iff_toNat_le, hnext,
          show (g.inputContextStartIdx idx).inp.inputState.index = idx from hidx.symm]
        omega
      obtain ⟨o, ho, hrest, hnone⟩ := ih h₂ (by omega) (fun hle => absurd hle hlater) hrest hls₃
      rw [if_neg hlater] at ho
      obtain rfl := ho
      refine ⟨some a, ?_, .item (.start g idx) (beq_iff_eq.2 hidx) htake hrest.idle, ?_⟩
      · rw [if_pos hle, hidx, Nat.sub_self, List.getElem?_cons_zero]
      · rw [hkeys, hcompared, hnone, h.behind hrest.idle]
        exact List.append_nil _
    · obtain ⟨hidle, hnone⟩ := h.skip h₁ (beq_eq_false_iff_ne.2 hidx) hitem
      have hskip := (Idle.start g idx).trans hidle
      obtain ⟨o, ho, hrest, hcompared⟩ := ih h₂ (by omega)
        (fun hle => h.idle hskip (hI (by
          rw [hskip.index, UInt32.le_iff_toNat_le, hnext] at hle
          rw [UInt32.le_iff_toNat_le]
          omega))) hrest hls₃
      have hne : idx.toNat ≠ g.inp.inputState.index.toNat :=
        fun heq => hidx (UInt32.toNat_inj.1 heq)
      rw [hskip.index] at ho
      refine ⟨o, ho.trans ?_, hrest.after_idle hskip, by rw [hkeys, hnone, hcompared]; rfl⟩
      simp only [UInt32.le_iff_toNat_le, hnext]
      by_cases hle : idx.toNat ≤ g.inp.inputState.index.toNat
      · have hsub : g.inp.inputState.index.toNat - idx.toNat =
            g.inp.inputState.index.toNat - (idx.toNat + 1) + 1 := by omega
        rw [if_pos hle, if_pos (by omega), hsub, List.getElem?_cons_succ]
      · rw [if_neg hle, if_neg (by omega)]

/-! ### The data of a cell -/

/-- The data of a cell have been read. -/
def SignState.readData (g : SignState) (d : List UInt8) : SignState :=
  { g with
    cellState.dataSize := min 15 d.length
    cellState.daoDataIsNonzero :=
      g.cellState.daoDataIsNonzero || (g.cellState.active && d.any (· ≠ 0)) }

theorem step_setCellDataSize {n : ℕ} (hn : n + 4 < 2 ^ 32)
    (h : g.Step env P (.setCellDataSize (UInt32.ofNat n + 4)) g') :
    g' = { g with cellState.dataSize := min 15 n } := by
  obtain ⟨nd, io, io', -, hd⟩ := h
  have hfour : ¬ UInt32.ofNat n + 4 < 4 := UInt32.not_lt.2 (four_le_ofNat_add_four hn)
  simp only [dispatch, SignState.setCellDataSize, if_neg hfour, toNat_ofNat_add_four_sub hn,
    Except.ok.injEq, Prod.mk.injEq] at hd
  exact hd.1.symm

theorem checkCellDataDataChunk_eq (g : SignState) (bs : List UInt8) :
    g.checkCellDataDataChunk bs = { g with cellState.daoDataIsNonzero :=
      g.cellState.daoDataIsNonzero || (g.cellState.active && bs.any (· ≠ 0)) } := by
  unfold SignState.checkCellDataDataChunk
  by_cases hact : g.cellState.active = true
  · rw [if_neg (not_inactive hact), Bool.and_eq_right_iff_imp.2 fun _ => hact]
  · rw [if_pos (by rw [Bool.not_eq_true', ← Bool.not_eq_true]; exact hact),
      Bool.and_eq_false_imp.2 fun h => absurd h hact, Bool.or_false]

theorem steps_checkCellDataDataChunk {pieces : List Chunk}
    (hs : Steps env P g (pieces.flatMap fun c => [Callback.checkCellDataDataChunk c.bytes]) g') :
    g' = { g with cellState.daoDataIsNonzero :=
      g.cellState.daoDataIsNonzero || (g.cellState.active && (joined pieces).any (· ≠ 0)) } := by
  induction pieces generalizing g with
  | nil =>
    rw [Runs.nil_iff.1 hs, joined_nil, List.any_nil, Bool.and_false, Bool.or_false]
  | cons c cs ih =>
    obtain ⟨g₁, ⟨nd, io, io', -, hd⟩, hrest⟩ := Runs.cons_iff.1 hs
    simp only [dispatch, checkCellDataDataChunk_eq, Except.ok.injEq, Prod.mk.injEq] at hd
    rw [ih hrest, ← hd.1, joined_cons, List.any_append, Bool.and_or_distrib_left, ← Bool.or_assoc]

/-- The calls for the data of a cell, up to the last one. -/
theorem steps_data {cb : BytesCb Callback} {d : List UInt8} {es : List Callback}
    (hsize : cb.size = sizeCallback .setCellDataSize)
    (hbody : cb.bodyChunk = fun c => [.checkCellDataDataChunk c.bytes])
    (hv : BytesEvents cb d es) (hs : Steps env P g es g') :
    Steps env P (g.readData d) cb.finish g' := by
  obtain ⟨hlen, -, pieces, hjoin, -, rfl⟩ := hv
  rw [hsize, hbody] at hs
  obtain ⟨g₂, hs, hfinish⟩ := Runs.append_iff.1 hs
  obtain ⟨g₁, hfirst, hchunks⟩ := Runs.append_iff.1 hs
  obtain rfl := step_setCellDataSize hlen (Runs.single_iff.1 hfirst)
  obtain rfl := steps_checkCellDataDataChunk hchunks
  rw [hjoin] at hfinish
  exact hfinish

/-! ### One input -/

/-- The cell that an input refers to is read. -/
def ReadCell (P : NvramData → Prop) (o : CellOutputVal) (g g' : SignState) : Prop :=
  ∃ c tmp, InputRead P o g g' c tmp

/-- The data of the cell that an input refers to are read, and the cell is counted. -/
def CountCell (P : NvramData → Prop) (d : List UInt8) (g g' : SignState) : Prop :=
  ∃ nd, P nd ∧ g' = (g.readData d).finishInputCellData nd

/-- Nothing has been read of a cell. -/
structure BlankCell (g : SignState) : Prop where
  isMultisig : g.cellState.isMultisig = false
  isDao : g.cellState.isDao = false
  lockArgTmp : g.lockArgTmp = .zero 28

theorem index_of_still (h : g'.still = g.still) :
    g'.inp.inputState.index = g.inp.inputState.index :=
  congrArg (fun x => HashView.index (Prod.snd x)) h

theorem selecting_cell : Selecting env P
    (MolSpec.cellOutput annotatedCellInputCallbacks.source.outputs.item) (ReadCell P)
    (fun s => [LockArg.hash s.lockArgTmp]) BlankCell where
  skip {a cs g g' tr} htr hin hv := by
    have hguarded : (MolSpec.cellOutput annotatedCellInputCallbacks.source.outputs.item).Emits
        fun e => e.guarded = true := by
      refine emits_cellOutput ?_ (emits_script ?_ ?_ ?_ (emits_bytes ?_ ?_ ?_) ?_)
        (emits_script ?_ ?_ ?_ (emits_bytes ?_ ?_ ?_) ?_) ?_
      all_goals
        simp only [annotatedCellInputCallbacks, List.mem_singleton, List.not_mem_nil,
          false_implies, implies_true, forall_eq]
      all_goals intros; rfl
    refine ⟨?_, comparedKeys_inactive hv (hguarded _ _ _ htr) hin⟩
    rw [Runs.inactive hv.runs (hguarded _ _ _ htr) hin]
    exact .refl g
  take {a cs g g' tr} htr hact hI hv hsafe := by
    obtain ⟨c, tmp, hread⟩ := steps_inputCell (events_cellOutput htr) hact hI.isMultisig hI.isDao
      hI.lockArgTmp hv.runs hsafe
    refine ⟨⟨c, tmp, hread⟩, ?_, comparedKeys_active (events_cellOutput htr) hact hv rfl⟩
    rw [hread.finish]
    exact index_of_still (SignState.still_inputLockArgEnd _)
  idle {g g'} hidle hI := by
    obtain ⟨_, _, rfl⟩ := hidle
    exact ⟨hI.isMultisig, hI.isDao, hI.lockArgTmp⟩
  behind {g g'} hidle := by
    obtain ⟨_, _, rfl⟩ := hidle
    rfl

/-- Nothing is compared while data are read. -/
theorem emits_data : (MolSpec.bytes annotatedCellInputCallbacks.source.outputsData.item).Emits
    fun e => e ≠ .inputLockArgEnd := by
  refine emits_bytes ?_ ?_ ?_
  all_goals simp [annotatedCellInputCallbacks, sizeCallback]

theorem selecting_data : Selecting env P
    (MolSpec.bytes annotatedCellInputCallbacks.source.outputsData.item) (CountCell P)
    (fun _ => []) fun _ => True where
  skip {d cs g g' tr} htr hin hv := by
    have hfinish := Runs.single_iff.1 (steps_data rfl rfl (events_bytes htr) hv.runs)
    rw [hfinish.guarded rfl hin]
    refine ⟨⟨g.cellState.active, min 15 d.length, ?_⟩, comparedKeys_of_ne (emits_data _ _ _ htr)⟩
    simp [SignState.readData, hin]
  take {d cs g g' tr} htr _ _ hv _ := by
    obtain ⟨nd, io, io', hnd, hd⟩ :=
      Runs.single_iff.1 (steps_data rfl rfl (events_bytes htr) hv.runs)
    simp only [dispatch, Except.ok.injEq, Prod.mk.injEq] at hd
    refine ⟨⟨nd, hnd, hd.1.symm⟩, ?_, comparedKeys_of_ne (emits_data _ _ _ htr)⟩
    rw [← hd.1]
    exact index_of_still (SignState.still_finishInputCellData nd _)
  idle _ _ := trivial
  behind _ := rfl

/-- The item at the index of the input is taken, if there is one. -/
theorem Selecting.vec {α : Type} {sp : Spec Callback α} {take : α → SignState → SignState → Prop}
    {keys : SignState → List StandardLockArg} {I : SignState → Prop}
    (h : Selecting env P sp take keys I) {o : Option (List α)} {cs : List Chunk}
    {tr : List (SignState × Callback)}
    (htr : (Spec.dynVec [] (fun _ => []) (fun idx => [.inputContextStartIdx idx]) sp).Tr o cs
      (tr.map Prod.snd))
    (hI : I g) (hv : Visits (SignState.Step env P) g tr g') (hsafe : g'.maybe.isUnsafe = false) :
    ∃ x, x = (o.getD [])[g.inp.inputState.index.toNat]? ∧ Selected take x g g' ∧
      comparedKeys tr = if x.isSome then keys g' else [] := by
  cases o with
  | none =>
    obtain ⟨rfl, rfl⟩ := hv.of_nil htr
    exact ⟨none, rfl, .nothing (.refl _), rfl⟩
  | some as =>
    obtain ⟨hlen, e, hitems, hls⟩ := htr
    obtain ⟨x, hx, hsel⟩ := h.items hitems (by simpa using hlen) (fun _ => hI) hv hls hsafe
    rw [if_pos (UInt32.le_iff_toNat_le.2 (Nat.zero_le _))] at hx
    exact ⟨x, hx, hsel⟩

/-- No cell is being read. -/
structure BetweenInputs (g : SignState) : Prop where
  cellState : g.cellState = {}
  lockArgTmp : g.lockArgTmp = .zero 28

theorem BetweenInputs.blank (h : BetweenInputs g) (idx : UInt32) :
    BlankCell { g with inp.inputState.index := idx } :=
  ⟨by rw [h.cellState], by rw [h.cellState], h.lockArgTmp⟩

/-- An input is taken: its cell is read, then the data of the cell, and then all is as before an
input. -/
structure TakeInput (P : NvramData → Prop) (g : SignState) (a : AnnotatedCellInputVal)
    (g' : SignState) : Prop where
  between : BetweenInputs g
  safe : g'.maybe.isUnsafe = false
  taken : ∃ g₁ g₂, Selected (ReadCell P) a.cell { g with inp.inputState.index := a.index } g₁ ∧
    Selected (CountCell P) a.data g₁ g₂ ∧
    g' = { g₂ with cellState := {}, lockArgTmp := .zero 28, inp.inputState := {} }

theorem TakeInput.behind {a : AnnotatedCellInputVal} (h : TakeInput P g a g') :
    BetweenInputs g' := by
  obtain ⟨g₁, g₂, -, -, rfl⟩ := h.taken
  exact ⟨rfl, rfl⟩

/-- The calls for the outputs of a transaction that an input refers to, and for their data. -/
theorem visits_source {a : AnnotatedCellInputVal} {c₁ c₂ : List Chunk} {e₁ e₂ : List Callback}
    {tr : List (SignState × Callback)}
    (houtputs : (MolSpec.cellOutputVec annotatedCellInputCallbacks.source.outputs).Tr
      a.2.2.1.2.2.2.2.2.1 c₁ e₁)
    (hdata : (MolSpec.bytesVec annotatedCellInputCallbacks.source.outputsData).Tr
      a.2.2.1.2.2.2.2.2.2.1 c₂ e₂)
    (hI : BlankCell g) (hidx : g.inp.inputState.index = a.index)
    (hv : Visits (SignState.Step env P) g tr g') (hls : tr.map Prod.snd = e₁ ++ e₂)
    (hsafe : g'.maybe.isUnsafe = false) :
    ∃ g₁, Selected (ReadCell P) a.cell g g₁ ∧ Selected (CountCell P) a.data g₁ g' ∧
      comparedKeys tr = if a.cell.isSome then [LockArg.hash g₁.lockArgTmp] else [] := by
  obtain ⟨d₁, f₁, htr₁, htap₁, rfl⟩ := houtputs
  obtain ⟨d₂, f₂, htr₂, htap₂, rfl⟩ := hdata
  obtain rfl := htap₁.eq_of_empty
  obtain rfl := htap₂.eq_of_empty
  simp only [annotatedCellInputCallbacks, List.append_nil] at hls htr₁ htr₂
  obtain ⟨tr₁, tr₂, g₁, rfl, rfl, rfl, hcells, hdatas⟩ := hv.split hls
  obtain ⟨x, hx, hread, hkeys⟩ := selecting_cell.vec htr₁ hI hcells (hdatas.runs.isUnsafe hsafe)
  obtain ⟨y, hy, hcount, hnone⟩ := selecting_data.vec htr₂ trivial hdatas hsafe
  have hidx₁ := hread.index fun o s s' htaken => by
    obtain ⟨c, tmp, htaken⟩ := htaken
    rw [htaken.finish, index_of_still (SignState.still_inputLockArgEnd _)]
  rw [hidx₁, hidx] at hy
  rw [hidx] at hx
  obtain rfl : x = a.cell := hx
  obtain rfl : y = a.data := hy
  rw [ite_self] at hnone
  exact ⟨g₁, hread, hcount, by rw [comparedKeys_append, hkeys, hnone, List.append_nil]⟩

/-- The calls for the cells of a source, and for their data, hash nothing. -/
theorem hashes_source {v : RawTransactionVal} {c₁ c₂ : List Chunk} {e₁ e₂ : List Callback}
    (houtputs : (MolSpec.cellOutputVec annotatedCellInputCallbacks.source.outputs).Tr
      v.2.2.2.2.2.1 c₁ e₁)
    (hdata : (MolSpec.bytesVec annotatedCellInputCallbacks.source.outputsData).Tr
      v.2.2.2.2.2.2.1 c₂ e₂) :
    ∀ e ∈ e₁ ++ e₂, e.hashes = false ∧ e ≠ .finishContextTxn := by
  have hemits₁ : (MolSpec.cellOutputVec annotatedCellInputCallbacks.source.outputs).Emits
      fun e => e.hashes = false ∧ e ≠ .finishContextTxn := by
    refine emits_cellOutputVec ?_ (emits_cellOutput ?_ (emits_script ?_ ?_ ?_
      (emits_bytes ?_ ?_ ?_) ?_) (emits_script ?_ ?_ ?_ (emits_bytes ?_ ?_ ?_) ?_) ?_) ?_ ?_
    all_goals
      simp only [annotatedCellInputCallbacks, List.mem_singleton, List.not_mem_nil,
        false_implies, implies_true, forall_eq]
    all_goals
      intros
      exact ⟨rfl, by simp⟩
  have hemits₂ : (MolSpec.bytesVec annotatedCellInputCallbacks.source.outputsData).Emits
      fun e => e.hashes = false ∧ e ≠ .finishContextTxn := by
    refine emits_bytesVec ?_ ?_ (emits_bytes ?_ ?_ ?_) ?_ ?_
    all_goals
      simp only [annotatedCellInputCallbacks, sizeCallback, List.mem_singleton, List.not_mem_nil,
        false_implies, implies_true, forall_eq]
    all_goals
      intros
      exact ⟨rfl, by simp⟩
  exact List.forall_mem_append.2 ⟨hemits₁ _ _ _ houtputs, hemits₂ _ _ _ hdata⟩

/-- An input is taken, and `l.1` is what has been read of the args of its cell. -/
structure TakeInputArgs (P : NvramData → Prop) (g : SignState)
    (l : LockArg × AnnotatedCellInputVal) (g' : SignState) : Prop where
  between : BetweenInputs g
  safe : g'.maybe.isUnsafe = false
  taken : ∃ g₁ g₂, Selected (ReadCell P) l.2.cell { g with inp.inputState.index := l.2.index } g₁ ∧
    l.1 = g₁.lockArgTmp ∧ Selected (CountCell P) l.2.data g₁ g₂ ∧
    g' = { g₂ with cellState := {}, lockArgTmp := .zero 28, inp.inputState := {} }

theorem TakeInputArgs.take {l : LockArg × AnnotatedCellInputVal} (h : TakeInputArgs P g l g') :
    TakeInput P g l.2 g' := by
  obtain ⟨hbetween, hsafe, g₁, g₂, hread, -, hcount, hg'⟩ := h
  exact ⟨hbetween, hsafe, g₁, g₂, hread, hcount, hg'⟩

/-- The 20 bytes of args that are compared for the cells of these inputs. -/
def inputKeys (ls : List (LockArg × AnnotatedCellInputVal)) : List StandardLockArg :=
  ls.flatMap fun l => if l.2.cell.isSome then [LockArg.hash l.1] else []

/-- The calls for an input, and the one before the next input. -/
theorem visits_input {a : AnnotatedCellInputVal} {cs : List Chunk} {es : List Callback}
    {tr : List (SignState × Callback)}
    (htr : (MolSpec.annotatedCellInput annotatedCellInputCallbacks).Tr a cs es)
    (hg : BetweenInputs g) (hv : Visits (LedgerStep env P) g tr g')
    (hls : tr.map Prod.snd = es ++ [.inputStart]) (hsafe : g'.maybe.isUnsafe = false) :
    ∃ tmp, TakeInputArgs P g (tmp, a) g' ∧ comparedKeys tr = inputKeys [(tmp, a)] := by
  obtain ⟨-, -, e, hsource, rfl⟩ := events_annotatedCellInput htr
  obtain ⟨c₁, c₂, e₁, e₂, e', houtputs, hdata, htap, rfl⟩ := events_rawTransaction hsource
  simp only [annotatedCellInputCallbacks, List.cons_append, List.nil_append,
    List.append_assoc] at hls htap
  obtain ⟨g₀, tr₀, rfl, hsince, hv₀, hls₀⟩ := hv.uncons hls
  obtain rfl := hsince.eq_of_hashes rfl
  obtain ⟨g₁, tr₁, rfl, hindex, hv₁, hls₁⟩ := hv₀.uncons hls₀
  obtain ⟨nd, io, io', -, hd⟩ := hindex.step rfl (by simp)
  simp only [dispatch, Except.ok.injEq, Prod.mk.injEq] at hd
  obtain ⟨tr₂, tr₃, g₂, rfl, hls₂, hls₃, hcells, hv₂⟩ := hv₁.split hls₁
  obtain ⟨g₃, tr₄, rfl, hfinish, hv₃, hls₄⟩ := hv₂.uncons hls₃
  obtain rfl := hfinish.finishContextTxn
  obtain ⟨g₄, tr₅, rfl, hstart, hv₄, hls₅⟩ := hv₃.uncons hls₄
  obtain ⟨rfl, rfl⟩ := hv₄.of_nil hls₅
  obtain ⟨nd', jo, jo', -, hd'⟩ := hstart.step rfl (by simp)
  simp only [dispatch, Except.ok.injEq, Prod.mk.injEq] at hd'
  obtain ⟨rfl, -⟩ := hd
  obtain ⟨rfl, -⟩ := hd'
  -- the bytes that are only hashed are left out
  obtain ⟨tr', hv', hls', hkeys⟩ := htap.visits (k := comparedKey) (fun c e he s => by
    rw [List.mem_singleton.1 he]
    exact ⟨rfl, fun s' hstep => hstep.eq_of_hashes rfl⟩) hcells hls₂
  have hsteps : Visits (SignState.Step env P) _ tr' g₂ := hv'.mono fun s e s' he hstep => by
    have hpure := hashes_source houtputs hdata e (hls' ▸ he)
    exact hstep.step hpure.1 hpure.2
  obtain ⟨g₁, hread, hcount, hcompared⟩ :=
    visits_source houtputs hdata (hg.blank a.index) rfl hsteps hls' hsafe
  refine ⟨g₁.lockArgTmp, ⟨hg, hsafe, g₁, g₂, hread, rfl, hcount, rfl⟩, ?_⟩
  have hall : comparedKeys ((g₀, .blake2bChunk a.2.1.1) :: (g₀, .inputSaveIndex a.2.1.2.1.2.1) ::
      (tr₂ ++ [(g₂, .finishContextTxn), ({ g₂ with inp.inputState := {} }, .inputStart)])) =
      tr₂.filterMap comparedKey := by
    rw [comparedKeys, List.filterMap_cons_none rfl, List.filterMap_cons_none rfl,
      List.filterMap_append]
    exact List.append_nil _
  exact hall.trans (hkeys.symm.trans (hcompared.trans (List.append_nil _).symm))

/-- The calls for inputs, one after the other. -/
theorem visits_inputs {as : List AnnotatedCellInputVal} {idx : UInt32} {cs : List Chunk}
    {es : List Callback} {tr : List (SignState × Callback)}
    (htr : Spec.TrItems (MolSpec.annotatedCellInput annotatedCellInputCallbacks)
      [Callback.inputStart] (fun _ => []) idx as cs es)
    (hg : BetweenInputs g) (hv : Visits (LedgerStep env P) g tr g') (hls : tr.map Prod.snd = es)
    (hsafe : g'.maybe.isUnsafe = false) :
    ∃ ls, ls.map Prod.snd = as ∧ Runs (TakeInputArgs P) g ls g' ∧
      comparedKeys tr = inputKeys ls := by
  induction as generalizing g idx cs es tr with
  | nil =>
    obtain rfl : es = [] := htr
    obtain ⟨rfl, rfl⟩ := hv.of_nil hls
    exact ⟨[], rfl, .nil _, rfl⟩
  | cons a as ih =>
    obtain ⟨e₁, e₂, h₁, h₂, rfl⟩ := htr
    rw [List.append_nil, ← List.append_assoc] at hls
    obtain ⟨tr₁, tr₂, g₁, rfl, hls₁, hls₂, hinput, hrest⟩ := hv.split hls
    obtain ⟨tmp, htake, hkeys₁⟩ := visits_input h₁ hg hinput hls₁
      (hrest.runs.ledger_isUnsafe hsafe)
    obtain ⟨ls, rfl, hruns, hkeys₂⟩ := ih h₂ htake.take.behind hrest hls₂
    refine ⟨(tmp, a) :: ls, rfl, .cons htake hruns, ?_⟩
    rw [comparedKeys_append, hkeys₁, hkeys₂]
    simp only [inputKeys, List.flatMap_cons, List.flatMap_nil, List.append_nil]

end LedgerNervos
