import LedgerNervos.Sign.Payments
import Mathlib.Data.List.SplitBy

/-!
# The lines and the destinations

What the lines of the payments are meant to be: the payments are split where the destination
changes, and each part has a line with its destination and its sum (`grouping`).  The callbacks
compare the first 20 bytes of a destination and the kind of its lock, but not the lock period, so
`outputs_grouped_iff` says when the lines are those.  They stay within the memory in any case
(`Visits.outputsInBounds`).
-/

namespace LedgerNervos

variable {env : Env} {P : NvramData → Prop} {g g' : SignState}

instance (e : Callback) : Decidable e.OfOutput := inferInstanceAs (Decidable (_ ∧ _))

instance (p q : Output) : Decidable (p.SameLine q) := inferInstanceAs (Decidable (_ ∧ _))

/-! ### The lines and the memory -/

/-- The books before the outputs. -/
structure FreshOutputs (b : Books) : Prop where
  outputs : b.outputs = List.replicate maxOutputs {}
  outputCount : b.outputCount = 0
  destination : b.flags.hasDestinationAddress = false
  tag : b.tag ≠ .multiOutputTransfer

/-- The lines lie within the memory for them, and there is a last one when a destination is
known. -/
structure OutputsInBounds (b : Books) : Prop where
  length : b.outputs.length = maxOutputs
  le : b.outputCount ≤ maxOutputs
  destination : b.flags.hasDestinationAddress = true ↔ 0 < b.outputCount

theorem FreshOutputs.lines {b : Books} (h : FreshOutputs b) : Lines b [] :=
  lines_nil h.outputs h.outputCount h.destination h.tag

theorem FreshOutputs.inBounds {b : Books} (h : FreshOutputs b) : OutputsInBounds b where
  length := by rw [h.outputs, List.length_replicate]
  le := by
    rw [h.outputCount]
    exact Nat.zero_le _
  destination := by
    rw [h.destination, h.outputCount]
    exact iff_of_false Bool.false_ne_true (Nat.lt_irrefl 0)

/-- A new line, when there is room for it. -/
theorem OutputsInBounds.newOutput (h : OutputsInBounds g.books)
    (hroom : g.tx.outputCount < maxOutputs) :
    OutputsInBounds (g.newOutput g.tx.outputCount).addToOutput.books := by
  rw [books_newOutput_addToOutput g _ rfl]
  refine ⟨?_, hroom, iff_of_true rfl (Nat.succ_pos _)⟩
  rw [← h.length]
  exact List.length_modify ..

/-- The end of an output keeps the lines within their memory, also when it refuses the
transaction. -/
theorem SignState.outputEnd_inBounds (h : OutputsInBounds g.books) :
    ∃ g', g.outputEnd env = .ok g' ∧ OutputsInBounds g'.books := by
  have hflag : g.maybe.v.flags.hasDestinationAddress = true ↔ 0 < g.tx.outputCount :=
    h.destination
  have hle : g.tx.outputCount ≤ maxOutputs := h.le
  unfold SignState.outputEnd
  dsimp only
  split_ifs with _ _ _ hfirst hcount hnew htag hfull
  · exact ⟨_, rfl, h.length, h.le, h.destination⟩
  · exact ⟨_, rfl, h.length, h.le, h.destination⟩
  · -- there is a line although no destination is known
    rw [Bool.not_eq_true'] at hfirst
    exact absurd (hflag.2 (Nat.pos_of_ne_zero hcount)) (by rw [hfirst]; exact Bool.false_ne_true)
  · have hzero : g.tx.outputCount = 0 := not_not.1 hcount
    have hbounds := h.newOutput (by rw [hzero]; decide)
    rw [hzero] at hbounds
    exact ⟨_, rfl, hbounds⟩
  · exact ⟨_, rfl, h.length, h.le, h.destination⟩
  · exact ⟨_, rfl, h.length, h.le, h.destination⟩
  · refine ⟨_, rfl, OutputsInBounds.newOutput (g := g.setTag .multiOutputTransfer) ?_
      (Nat.not_le.1 hfull)⟩
    exact ⟨h.length, h.le, h.destination⟩
  · refine ⟨_, rfl, (List.length_modify ..).trans h.length, hle, iff_of_true rfl (hflag.1 ?_)⟩
    simpa using hfirst
  · exact ⟨_, rfl, h.length, h.le, h.destination⟩

theorem SignState.Step.outputsInBounds {e : Callback} (h : g.Step env P e g') (he : e.OfOutput)
    (hbounds : OutputsInBounds g.books) : OutputsInBounds g'.books := by
  by_cases hend : e = .outputEnd
  · subst hend
    obtain ⟨nd, io, io', -, hd⟩ := h
    simp only [dispatch, map_eq_ok_iff, Prod.mk.injEq] at hd
    obtain ⟨g₁, hd, rfl, -⟩ := hd
    obtain ⟨g₂, hd', hbounds'⟩ : ∃ g₂, g.outputEnd env = .ok g₂ ∧ OutputsInBounds g₂.books :=
      SignState.outputEnd_inBounds hbounds
    obtain rfl := Except.ok.inj (hd'.symm.trans hd)
    exact hbounds'
  · rw [h.books_output he hend]
    exact hbounds

/-- The lines stay within the memory for them. -/
theorem Visits.outputsInBounds {tr : List (SignState × Callback)}
    (h : Visits (SignState.Step env P) g tr g') (htr : ∀ x ∈ tr, x.2.OfOutput)
    (hbounds : OutputsInBounds g.books) :
    OutputsInBounds g'.books ∧ ∀ x ∈ tr, OutputsInBounds x.1.books := by
  induction h with
  | nil s => exact ⟨hbounds, List.forall_mem_nil _⟩
  | @cons s s₁ s' e tr h₁ _ ih =>
    obtain ⟨he, htr⟩ := List.forall_mem_cons.1 htr
    obtain ⟨hend, hall⟩ := ih htr (h₁.outputsInBounds he hbounds)
    exact ⟨hend, List.forall_mem_cons.2 ⟨hbounds, hall⟩⟩

/-! ### Groups of one destination -/

/-- The same destination, with the lock period. -/
def Output.SameDestination (p q : Output) : Prop :=
  p.destination = q.destination ∧ p.isMultisig = q.isMultisig

instance (p q : Output) : Decidable (p.SameDestination q) :=
  inferInstanceAs (Decidable (_ ∧ _))

theorem Output.SameDestination.sameLine {p q : Output} (h : p.SameDestination q) :
    p.SameLine q := ⟨congrArg LockArg.hash h.1, h.2⟩

theorem Output.SameDestination.trans {p q r : Output} (h : p.SameDestination q)
    (h' : q.SameDestination r) : p.SameDestination r := ⟨h.1.trans h'.1, h.2.trans h'.2⟩

/-- The payments, split where the destination changes. -/
def destinations (ps : List Output) : List (List Output) :=
  ps.splitBy fun p q => p.SameDestination q

/-- The line for payments to one destination. -/
def lineFor (ps : List Output) : Output :=
  { ps.headD {} with capacity := (ps.map Output.capacity).sum }

/-- **The lines as they are meant.** -/
def grouping (ps : List Output) : List Output := (destinations ps).map lineFor

/-- The lines of a state are the payments `ps` by their destinations. -/
structure Grouped (ps : List Output) (g : SignState) : Prop where
  outputs : g.tx.outputs.take g.tx.outputCount = grouping ps
  le : (grouping ps).length ≤ maxOutputs

/-- Payments that are taken for ones to the same destination have it. -/
def SamePeriods (ps : List Output) : Prop :=
  ps.IsChain fun p q => p.SameLine q → p.SameDestination q

instance (ps : List Output) : Decidable (SamePeriods ps) :=
  inferInstanceAs (Decidable (ps.IsChain _))

/-- A line of the books is the one that is meant for its payments. -/
theorem LineOf.eq_lineFor {e : Output} {os : List Output} (h : LineOf e os) : e = lineFor os := by
  obtain ⟨hnonempty, hcapacity, hsame, hdestination⟩ := h
  cases os with
  | nil => exact absurd rfl hnonempty
  | cons p os =>
    have hkind := (hsame p (List.mem_cons_self ..)).2
    have hfirst := hdestination p rfl
    obtain ⟨capacity, destination, isMultisig⟩ := e
    exact Output.mk.injEq .. |>.mpr ⟨hcapacity, hfirst, hkind⟩

theorem forall₂_lineOf {es : List Output} {groups : List (List Output)}
    (h : List.Forall₂ LineOf es groups) :
    es = groups.map lineFor ∧ ∀ os ∈ groups, LineOf (lineFor os) os := by
  induction h with
  | nil => exact ⟨rfl, List.forall_mem_nil _⟩
  | cons h₁ _ ih =>
    rw [List.map_cons, ← h₁.eq_lineFor, ← ih.1]
    exact ⟨rfl, List.forall_mem_cons.2 ⟨h₁.eq_lineFor ▸ h₁, ih.2⟩⟩

/-- All payments of a part go where the first one goes. -/
theorem sameLine_lineFor {os : List Output} (hchain : os.IsChain fun p q => p.SameLine q) :
    ∀ p ∈ os, (lineFor os).SameLine p := by
  cases os with
  | nil => exact List.forall_mem_nil _
  | cons p os =>
    have : IsTrans Output Output.SameLine := ⟨fun _ _ _ => Output.SameLine.trans⟩
    have hpairwise := List.isChain_iff_pairwise.1 hchain
    exact List.forall_mem_cons.2 ⟨⟨rfl, rfl⟩, (List.pairwise_cons.1 hpairwise).1⟩

/-- **The lines are the payments by their destinations**, exactly when the lock periods of payments
that are taken for ones to the same destination agree. -/
theorem Lines.grouped_iff {groups : List (List Output)} (h : Lines g.books groups) :
    Grouped groups.flatten g ↔ SamePeriods groups.flatten := by
  obtain ⟨hlines, hchain⟩ := h.take
  obtain ⟨heq, hlineOf⟩ := forall₂_lineOf hlines
  have htake : g.tx.outputs.take g.tx.outputCount = groups.map lineFor := heq
  constructor
  · rintro ⟨houtputs, -⟩
    -- the parts have lines that differ, so no two parts are taken for one
    have hparts : (destinations groups.flatten).IsChain fun os os' =>
        ¬ (lineFor os).SameLine (lineFor os') := by
      rw [heq, ← htake, houtputs] at hchain
      exact (List.isChain_map _).1 hchain
    have hsame : ∀ os ∈ destinations groups.flatten, ∀ p ∈ os, (lineFor os).SameLine p :=
      fun os hos => sameLine_lineFor ((List.isChain_of_mem_splitBy hos).imp
        fun p q hpq => (of_decide_eq_true hpq).sameLine)
    rw [SamePeriods, ← List.flatten_splitBy (fun p q => decide (p.SameDestination q))
      groups.flatten, List.isChain_flatten (List.nil_notMem_splitBy _ _)]
    constructor
    · intro os hos
      exact (List.isChain_of_mem_splitBy hos).imp fun p q hpq _ => of_decide_eq_true hpq
    · rw [List.isChain_iff_getElem] at hparts ⊢
      intro k hk p hp q hq hpq
      have hp := hsame _ (List.getElem_mem (Nat.lt_of_succ_lt hk)) p (List.mem_of_getLast? hp)
      have hq := hsame _ (List.getElem_mem hk) q (List.mem_of_head? hq)
      exact absurd ((hp.trans hpq).trans hq.symm) (hparts k hk)
  · intro hperiods
    have hne : [] ∉ groups := fun hbad => (hlineOf [] hbad).nonempty rfl
    obtain ⟨hwithin, -⟩ := (List.isChain_flatten hne).1 hperiods
    have hparts : destinations groups.flatten = groups := by
      refine List.splitBy_flatten hne (fun os hos => ?_) ?_
      · -- payments that share a line have one destination
        have hsame := (hlineOf os hos).same
        have hwithin := List.isChain_iff_getElem.1 (hwithin os hos)
        refine List.isChain_iff_getElem.2 fun i hi => decide_eq_true (hwithin i hi ?_)
        exact (hsame _ (List.getElem_mem _)).symm.trans (hsame _ (List.getElem_mem _))
      · -- the next line has another destination
        rw [heq, List.isChain_map, List.isChain_iff_getElem] at hchain
        refine List.isChain_iff_getElem.2 fun k hk => ?_
        have hk' := hlineOf _ (List.getElem_mem (Nat.lt_of_succ_lt hk))
        have hk'' := hlineOf _ (List.getElem_mem hk)
        refine ⟨hk'.nonempty, hk''.nonempty, decide_eq_false fun hsame => hchain k hk ?_⟩
        exact ((hk'.same _ (List.getLast_mem _)).trans hsame.sameLine).trans
          (hk''.same _ (List.head_mem _)).symm
    refine ⟨by rw [htake, grouping, hparts], ?_⟩
    rw [grouping, hparts, List.length_map]
    exact h.le

/-! ### Runs of outputs -/

/-- Behind a run of calls for outputs that does not refuse the transaction. -/
theorem Visits.grouped_iff {tr : List (SignState × Callback)}
    (h : Visits (SignState.Step env P) g tr g') (houtput : ∀ x ∈ tr, x.2.OfOutput)
    (hfresh : FreshOutputs g.books) (hsafe : g'.maybe.isUnsafe = false) :
    Grouped (paymentsIn tr) g' ↔ SamePeriods (paymentsIn tr) := by
  obtain ⟨-, groups, hlines, hflatten⟩ := h.lines houtput hsafe hfresh.lines
  rw [List.flatten_nil, List.nil_append] at hflatten
  rw [← hflatten]
  exact hlines.grouped_iff

/-- The outputs of a session that leads to the prompt begin with fresh books. -/
theorem Transcript.freshOutputs {v : AnnotatedTransactionVal} (t : Transcript env P v)
    (hok : t.last.maybe.hardReject = false) (hsafe : t.last.maybe.isUnsafe = false) :
    FreshOutputs t.spent.books := by
  obtain ⟨-, -, hlines⟩ := t.fresh_spent hok hsafe
  obtain ⟨lines, hnil, -, houtputs⟩ := hlines.lines
  obtain rfl := List.forall₂_nil_right_iff.1 hnil
  refine ⟨houtputs, hlines.outputCount, ?_, fun hbad => absurd (hlines.tag.1 hbad) (by decide)⟩
  rw [← Bool.not_eq_true]
  exact fun hbad => hlines.hasDestination.1 hbad rfl

/-- In a session that leads to the prompt, when the outputs are closed. -/
theorem Accepted.grouped_iff {v : AnnotatedTransactionVal} {t : Transcript env P v}
    {instruction : UInt8} {ps : List Packet} {prompt : Prompt}
    (h : Accepted env P instruction ps prompt g v t) :
    ∃ s, s.outputsEnd = .ok t.paid ∧ (Grouped t.payments s ↔ SamePeriods t.payments) := by
  obtain ⟨tr, s, htrace, hvisits, houtput, hworse, hend⟩ := t.outputs_run
  obtain ⟨_, hpaid, -⟩ := t.isUnsafe_parts h.isUnsafe
  rw [t.payments_eq htrace]
  exact ⟨s, hend, hvisits.grouped_iff houtput (t.freshOutputs h.hardReject h.isUnsafe)
    (hworse.safe hpaid)⟩

/-- **Output grouping.**  In a run of calls for outputs, all of them keep the lines within their
memory.  When no call refuses the transaction, the lines are the payments by their destinations if
and only if the lock periods of neighbours that are taken for payments to one destination agree;
when they agree, a sixth line is refused. -/
theorem outputs_grouped_iff (env : Env) (g g' : SignState) (tr : List (SignState × Callback))
    (h : Visits (SignState.Step env fun _ => True) g tr g') (houtput : ∀ x ∈ tr, x.2.OfOutput)
    (hfresh : FreshOutputs g.books) :
    (OutputsInBounds g'.books ∧ ∀ x ∈ tr, OutputsInBounds x.1.books) ∧
      (g'.maybe.isUnsafe = false →
        (Grouped (paymentsIn tr) g' ↔ SamePeriods (paymentsIn tr))) ∧
      (SamePeriods (paymentsIn tr) → maxOutputs < (grouping (paymentsIn tr)).length →
        g'.maybe.isUnsafe = true) := by
  refine ⟨h.outputsInBounds houtput hfresh.inBounds, h.grouped_iff houtput hfresh,
    fun hperiods hsixth => ?_⟩
  rw [← Bool.not_eq_false]
  intro hsafe
  exact absurd hsixth (Nat.not_lt.2 ((h.grouped_iff houtput hfresh hsafe).2 hperiods).le)

/-- The calls for an output, under the settings `nd`: the states in which they are made, and the one
behind them. -/
def visited (env : Env) (nd : NvramData) :
    List Callback → SignState → List (SignState × Callback) × SignState
  | [], g => ([], g)
  | e :: es, g =>
    match dispatch env nd e (g, []) with
    | .ok s =>
      let (tr, g') := visited env nd es s.1
      ((g, e) :: tr, g')
    | .error _ => ([], g)

theorem visits_visited (env : Env) (nd : NvramData) (es : List Callback) (g : SignState) :
    Visits (SignState.Step env fun _ => True) g (visited env nd es g).1
      (visited env nd es g).2 := by
  induction es generalizing g with
  | nil => exact .nil g
  | cons e es ih =>
    rw [visited]
    split
    · rename_i s hd
      exact .cons ⟨nd, [], s.2, trivial, hd⟩ (ih s.1)
    · exact .nil g

/-- The calls for an output without a type script. -/
def outputCalls (index : UInt32) (capacity : UInt64) (codeHash args : List UInt8) :
    List Callback :=
  [.outputStart index, .cellCapacity (u64le capacity), .cellLockCodeHash codeHash,
    .cellScriptHashType 1, .scriptArgChunk args, .outputEnd]

theorem outputs_grouped_iff_rollup :
    ∃ tr g', Visits (SignState.Step Env.reference fun _ => True) {} tr g' ∧
      (paymentsIn tr).length = 3 ∧ g'.tx.outputCount = 2 ∧ Grouped (paymentsIn tr) g' := by
  let calls := outputCalls 0 100 defaultLockScript (List.replicate 20 1) ++
    outputCalls 1 200 defaultLockScript (List.replicate 20 1) ++
    outputCalls 2 400 multisigLockScript (List.replicate 28 1)
  obtain ⟨-, hiff, -⟩ := outputs_grouped_iff Env.reference {} _ _
    (visits_visited Env.reference {} calls {}) (by decide)
    ⟨rfl, rfl, rfl, by decide⟩
  exact ⟨_, _, visits_visited Env.reference {} calls {}, by decide, by decide,
    (hiff (by decide)).2 (by decide)⟩

/-- Two payments to multisig locks that differ in the lock period get one line. -/
theorem periods_merged :
    ∃ tr g', Visits (SignState.Step Env.reference fun _ => True) {} tr g' ∧
      (∀ x ∈ tr, x.2.OfOutput) ∧ FreshOutputs ({} : SignState).books ∧
      g'.maybe.isUnsafe = false ∧ ¬ Grouped (paymentsIn tr) g' := by
  let calls := outputCalls 0 100 multisigLockScript (List.replicate 28 1) ++
    outputCalls 1 200 multisigLockScript (List.replicate 20 1 ++ List.replicate 8 2)
  refine ⟨_, _, visits_visited Env.reference {} calls {}, by decide, ⟨rfl, rfl, rfl, by decide⟩,
    by decide, fun hbad => ?_⟩
  exact absurd hbad.outputs (by decide)

end LedgerNervos
