import LedgerNervos.Sign.KeyPath
import LedgerNervos.Sign.Transcript

/-!
# What is hashed of the inputs

An input is hashed as 44 bytes: since, the hash of the transaction it refers to, and the index of
the output there.  The number of inputs is hashed in front of them, by a callback that also
compares it with the declared one; but this callback is not called for a vector that is declared
to be empty.
-/

namespace LedgerNervos

variable {env : Env} {P : NvramData → Prop} {g g' : SignState}

open Callback (annotatedCellInputCallbacks annotatedRawTransactionCallbacks
  annotatedTransactionCallbacks)

/-! ### An input -/

/-- What is hashed of an input that is read from the bytes `bs`. -/
def inputRecord (env : Env) (v : AnnotatedCellInputVal) (bs : List UInt8) : List UInt8 :=
  let source := ((bs.drop 12).drop 44).take
    ((MolSpec.rawTransaction annotatedCellInputCallbacks.source).len v.2.2.1)
  v.2.1.1 ++ ((env.blake2b source).1 ++ u32le (molUnpackNumber v.2.1.2.1.2.1))

/-- What is hashed of inputs that are read from the bytes `bs`. -/
def inputRecords (env : Env) : List AnnotatedCellInputVal → List UInt8 → List (List UInt8)
  | [], _ => []
  | v :: vs, bs =>
    let len := (MolSpec.annotatedCellInput annotatedCellInputCallbacks).len v
    inputRecord env v (bs.take len) :: inputRecords env vs (bs.drop len)

theorem length_inputRecords (env : Env) (vs : List AnnotatedCellInputVal) (bs : List UInt8) :
    (inputRecords env vs bs).length = vs.length := by
  induction vs generalizing bs with
  | nil => rfl
  | cons v vs ih => rw [inputRecords, List.length_cons, List.length_cons, ih]

namespace HashView

/-- The calls for the cells of the transaction that an input refers to hash nothing. -/
theorem emits_sourceOutputs (env : Env) :
    (MolSpec.cellOutputVec annotatedCellInputCallbacks.source.outputs).Emits
      fun e => ∀ x, act env x e = x := by
  refine emits_cellOutputVec ?_
    (emits_cellOutput ?_ (emits_script ?_ ?_ ?_ (emits_bytes ?_ ?_ ?_) ?_)
    (emits_script ?_ ?_ ?_ (emits_bytes ?_ ?_ ?_) ?_) ?_) ?_ ?_
  all_goals
    simp only [annotatedCellInputCallbacks, List.mem_singleton, List.not_mem_nil, false_implies,
      implies_true, forall_eq]
  all_goals intros; rfl

theorem emits_sourceData (env : Env) :
    (MolSpec.bytesVec annotatedCellInputCallbacks.source.outputsData).Emits
      fun e => ∀ x, act env x e = x := by
  refine emits_bytesVec ?_ ?_ (emits_bytes ?_ ?_ ?_) ?_ ?_
  all_goals
    simp only [annotatedCellInputCallbacks, sizeCallback, List.mem_singleton, List.not_mem_nil,
      false_implies, implies_true, forall_eq]
  all_goals intros; rfl

theorem foldl_of_idle {es : List Callback} (h : ∀ e ∈ es, ∀ x, act env x e = x) (x : HashView) :
    es.foldl (act env) x = x := by
  induction es with
  | nil => rfl
  | cons e es ih =>
    rw [List.foldl_cons, h e (List.mem_cons_self ..)]
    exact ih fun e' he' => h e' (List.mem_cons_of_mem _ he')

/-- The transaction that an input refers to: its hash and the index are hashed. -/
theorem foldl_source (env : Env) {v : RawTransactionVal} {cs : List Chunk} {evs : List Callback}
    (h : (MolSpec.rawTransaction annotatedCellInputCallbacks.source).Tr v cs evs)
    {x : HashView} (hfed : x.contextFed = []) (hfresh : x.contextFinished = false) :
    evs.foldl (act env) x =
      { x with fed := x.fed ++ ((env.blake2b (joined cs)).1 ++ u32le x.index) }.nextInput := by
  obtain ⟨c₁, c₂, e₁, e₂, e, houtputs, hdata, htap, rfl⟩ := events_rawTransaction h
  have hidle : ∀ e ∈ e₁ ++ e₂, ∀ x, act env x e = x := by
    simp only [List.forall_mem_append]
    exact ⟨emits_sourceOutputs env _ _ _ houtputs, emits_sourceData env _ _ _ hdata⟩
  have hfold := htap.foldl (act env)
    (fun x bs => { x with contextFed := x.contextFed ++ bs }) (fun _ _ => rfl)
    (fun x => by simp) (fun x bs bs' => by simp)
    (fun e he x bs => by rw [hidle e he, hidle e he]) x
  rw [List.foldl_append, hfold, foldl_of_idle hidle]
  change ({ x with
    fed := x.fed ++ ((contextHash env { x with contextFed := x.contextFed ++ joined cs }).1 ++ _)
    contextFed := _ } : HashView).nextInput = _
  rw [contextHash, if_neg (by simp [hfresh]), hfed]
  rfl

/-- An input. -/
theorem foldl_input {v : AnnotatedCellInputVal} {cs : List Chunk} {evs : List Callback}
    (h : (MolSpec.annotatedCellInput annotatedCellInputCallbacks).Tr v cs evs) (x : HashView) :
    evs.foldl (act env) x.nextInput =
      { x with fed := x.fed ++ inputRecord env v (joined cs) }.nextInput := by
  obtain ⟨-, -, e, hsource, rfl⟩ := events_annotatedCellInput h
  have hfold := foldl_source env hsource
    (x := { x with
      fed := x.fed ++ v.2.1.1
      contextFed := []
      contextFinished := false
      index := molUnpackNumber v.2.1.2.1.2.1 }) rfl rfl
  rw [List.foldl_append]
  change e.foldl (act env) { x with
    fed := x.fed ++ v.2.1.1
    contextFed := []
    contextFinished := false
    index := molUnpackNumber v.2.1.2.1.2.1 } = _
  rw [hfold, joined_takeC, joined_dropC, joined_dropC]
  simp only [inputRecord, List.append_assoc]
  rfl

theorem length_inputRecord (env : Env) {v : AnnotatedCellInputVal} {cs : List Chunk}
    {evs : List Callback}
    (h : (MolSpec.annotatedCellInput annotatedCellInputCallbacks).Tr v cs evs) :
    (inputRecord env v (joined cs)).length = 44 := by
  obtain ⟨hsince, -, -⟩ := events_annotatedCellInput h
  have hnum : (u32le (molUnpackNumber v.2.1.2.1.2.1)).length = 4 := by simp [u32le]
  rw [inputRecord, List.length_append, List.length_append, hsince, hnum]
  simp

/-- Inputs, one after the other. -/
theorem foldl_inputs (env : Env) {vs : List AnnotatedCellInputVal} {idx : UInt32} {cs : List Chunk}
    {evs : List Callback}
    (h : Spec.TrItems (MolSpec.annotatedCellInput annotatedCellInputCallbacks)
      [Callback.inputStart] (fun _ => []) idx vs cs evs) (x : HashView) :
    evs.foldl (act env) x.nextInput =
        { x with fed := x.fed ++ (inputRecords env vs (joined cs)).flatten }.nextInput ∧
      ∀ r ∈ inputRecords env vs (joined cs), r.length = 44 := by
  induction vs generalizing idx cs evs x with
  | nil =>
    obtain rfl : evs = [] := h
    refine ⟨?_, List.forall_mem_nil _⟩
    simp [inputRecords]
  | cons v vs ih =>
    obtain ⟨e₁, e₂, h₁, h₂, rfl⟩ := h
    obtain ⟨hfold, hlength⟩ := ih h₂
      { x with fed := x.fed ++ inputRecord env v (joined (takeC _ cs)) }
    have hrecord := length_inputRecord env h₁
    rw [joined_dropC] at hfold hlength
    rw [joined_takeC] at hfold hrecord
    refine ⟨?_, List.forall_mem_cons.2 ⟨hrecord, hlength⟩⟩
    rw [List.foldl_append, foldl_input h₁, joined_takeC]
    simp only [inputRecords, List.flatten_cons, ← List.append_assoc]
    exact hfold

end HashView

/-! ### All inputs -/

/-- The calls for the inputs of a transaction, by its vector of inputs. -/
inductive InputsEvents : Option (List AnnotatedCellInputVal) → List Callback → Prop
  | empty : InputsEvents none [.inputsStart, .finishInputs]
  | items {vs : List AnnotatedCellInputVal} {cs : List Chunk} {es : List Callback}
      (hlen : vs.length < 2 ^ 32)
      (hitems : Spec.TrItems (MolSpec.annotatedCellInput annotatedCellInputCallbacks)
        [Callback.inputStart] (fun _ => []) 0 vs cs es) :
      InputsEvents (some vs) (.inputsStart :: .inputStart ::
        .blake2bInputCount (UInt32.ofNat vs.length) :: (es ++ [.finishInputs]))

theorem InputCalls.events {v : AnnotatedTransactionVal} {es : List Callback}
    (h : InputCalls v es) : InputsEvents v.inputs es := by
  obtain ⟨cs, _, ⟨e, h, rfl⟩, rfl⟩ := h
  cases hv : v.inputs with
  | none =>
    rw [hv] at h
    obtain rfl : e = [] := h
    exact .empty
  | some vs =>
    rw [hv] at h
    obtain ⟨hlen, e, hitems, rfl⟩ := h
    exact .items hlen hitems

/-- The declared number of inputs is compared with the actual one. -/
theorem step_blake2bInputCount {n : UInt32} (h : g.Step env P (.blake2bInputCount n) g')
    (hok : g'.maybe.hardReject = false) : n = g.inputCount := by
  obtain ⟨nd, io, io', -, hd⟩ := h
  simp only [dispatch, SignState.blake2bInputCount, Except.ok.injEq, Prod.mk.injEq] at hd
  split_ifs at hd with hne
  · rw [← hd.1] at hok
    cases hok
  · simpa using hne

/-- What the hash of the transaction has been fed between the header dependencies and the outputs
is the declared number of inputs and 44 bytes for each, and as many inputs have been read. -/
def Transcript.CountAgrees {v : AnnotatedTransactionVal} (t : Transcript env P v) : Prop :=
  (v.inputs.getD []).length = v.inputCount.toNat ∧ ∃ records : List (List UInt8),
    records.length = v.inputCount.toNat ∧ (∀ r ∈ records, r.length = 44) ∧
    t.spent.hashState.fed = t.opened.hashState.fed ++ (u32le v.inputCount ++ records.flatten)

namespace Transcript

variable {v : AnnotatedTransactionVal} (t : Transcript env P v)

theorem inputCount_opened : t.opened.inputCount = v.inputCount := by
  obtain ⟨hes, h⟩ := t.header
  rw [h.runs.inputCount fun e he => by rw [hes.part e he]; decide, t.inputCount_counted]

/-- What is hashed of inputs that are read from the pieces `cs`. -/
theorem hashView_items (hok : t.spent.maybe.hardReject = false) {vs : List AnnotatedCellInputVal}
    {cs : List Chunk} {items : List Callback} (hlen : vs.length < 2 ^ 32)
    (hitems : Spec.TrItems (MolSpec.annotatedCellInput annotatedCellInputCallbacks)
      [Callback.inputStart] (fun _ => []) 0 vs cs items)
    (hcalls : t.inputTrace.map Prod.snd = .inputsStart :: .inputStart ::
      .blake2bInputCount (UInt32.ofNat vs.length) :: (items ++ [.finishInputs])) :
    vs.length = v.inputCount.toNat ∧ (∀ r ∈ inputRecords env vs (joined cs), r.length = 44) ∧
      t.spent.hashView = { t.opened.hashView with fed := t.opened.hashView.fed ++
        (u32le v.inputCount ++ (inputRecords env vs (joined cs)).flatten) }.nextInput := by
  obtain ⟨hes, h⟩ := t.inputs
  have h := h.runs
  rw [hcalls] at hes h
  have hview := h.hashView (fun e he => by rcases hes.part e he with h | h <;> simp [h]) hok
  have hcount := t.inputCount_opened
  -- the comparison of the numbers
  obtain ⟨s₁, h₁, h⟩ := Runs.cons_iff.1 h
  obtain ⟨s₂, h₂, h⟩ := Runs.cons_iff.1 h
  obtain ⟨s₃, h₃, h⟩ := Runs.cons_iff.1 h
  have hsame := step_blake2bInputCount h₃ (h.hardReject hok)
  rw [h₂.framed.inputCount nofun, h₁.framed.inputCount nofun, hcount] at hsame
  have hn : vs.length = v.inputCount.toNat := by
    rw [← hsame, UInt32.toNat_ofNat', Nat.mod_eq_of_lt hlen]
  obtain ⟨hfold, hlength⟩ := HashView.foldl_inputs env hitems
    { t.opened.hashView with fed := t.opened.hashView.fed ++ u32le v.inputCount }
  refine ⟨hn, hlength, ?_⟩
  rw [hview, List.foldl_cons, List.foldl_cons, List.foldl_cons, List.foldl_append]
  change ((items.foldl (HashView.act env) { t.opened.hashView with
    fed := t.opened.hashView.fed ++ u32le t.opened.inputCount }.nextInput).nextInput) = _
  rw [hcount, hfold, List.append_assoc]
  rfl

/-- What is hashed of the inputs. -/
theorem hashView_spent (hok : t.spent.maybe.hardReject = false) :
    match v.inputs with
    | none => t.spent.hashView = t.opened.hashView.nextInput
    | some vs => vs.length = v.inputCount.toNat ∧ ∃ bs,
        (∀ r ∈ inputRecords env vs bs, r.length = 44) ∧
        t.spent.hashView = { t.opened.hashView with fed := t.opened.hashView.fed ++
          (u32le v.inputCount ++ (inputRecords env vs bs).flatten) }.nextInput := by
  obtain ⟨hes, h⟩ := t.inputs
  have hview := h.runs.hashView (fun e he => by rcases hes.part e he with h | h <;> simp [h]) hok
  generalize hcalls : t.inputTrace.map Prod.snd = es at hes hview
  generalize hinputs : v.inputs = inputs
  have hevents := hinputs ▸ hes.events
  cases hevents with
  | empty => exact hview
  | @items vs cs items hlen hitems =>
    obtain ⟨hn, hlength, hview⟩ := t.hashView_items hok hlen hitems hcalls
    exact ⟨hn, joined cs, hlength, hview⟩

theorem countAgrees_iff (hok : t.last.maybe.hardReject = false) :
    t.CountAgrees ↔ v.inputs ≠ none := by
  have hview := t.hashView_spent (t.hardReject_spent hok)
  unfold CountAgrees
  generalize v.inputs = inputs at hview ⊢
  cases inputs with
  | none =>
    refine iff_of_false ?_ (by simp)
    rintro ⟨-, records, -, -, hfed⟩
    have hsame : t.spent.hashState.fed = t.opened.hashState.fed := congrArg HashView.fed hview
    rw [hsame] at hfed
    have hlen := congrArg List.length hfed
    rw [List.length_append, List.length_append] at hlen
    have hnum : (u32le v.inputCount).length = 4 := by simp [u32le]
    omega
  | some vs =>
    obtain ⟨hn, bs, hlength, hview⟩ := hview
    refine iff_of_true ⟨hn, inputRecords env vs bs, ?_, hlength, congrArg HashView.fed hview⟩
      (by simp)
    rw [length_inputRecords, hn]

end Transcript

/-- **Input count.**  When a session leads to the prompt, the declared number of inputs agrees with
the number of inputs read and with what is hashed of them if and only if the vector of the inputs
is not declared to be empty. -/
theorem inputs_counted_iff (env : Env) (instruction : UInt8) (ps : List Packet) (prompt : Prompt)
    (g : SignState) (h : signSession env instruction ps = some (prompt, g)) :
    (∃ v, ∃ t : Transcript env (fun _ => True) v,
      Accepted env (fun _ => True) instruction ps prompt g v t) ∧
    ∀ v (t : Transcript env (fun _ => True) v),
      Accepted env (fun _ => True) instruction ps prompt g v t →
        (t.CountAgrees ↔ v.inputs ≠ none) := by
  refine ⟨signSession_transcript (fun _ _ => trivial) h, fun v t haccepted => ?_⟩
  exact t.countAgrees_iff haccepted.hardReject

/-- What has been read from an encoding that is cut into packets. -/
theorem Accepted.value_eq_cut {instruction : UInt8} {n : ℕ} {a : AnnotatedTransaction}
    {prompt : Prompt} {v : AnnotatedTransactionVal} {t : Transcript env P v}
    (h : Accepted env P instruction (cutPackets n a.encode) prompt g v t)
    (hlen : a.encode.length ≤ n * maxApduSize) (hn : n < 2 ^ 24)
    (hsign : a.signPath.length ≤ maxBip32Path) (hchange : a.changePath.length ≤ maxBip32Path) :
    v = a.value := by
  refine h.value_eq (joined_cutPackets n hlen) ?_ hsign hchange
  unfold maxApduSize at hlen
  omega

theorem inputs_counted_iff_payment :
    ∃ prompt g v, ∃ t : Transcript Env.reference (fun _ => True) v,
      signSession Env.reference 0x03 (cutPackets 3 payment.encode) = some (prompt, g) ∧
        t.CountAgrees := by
  have hsome : (signSession Env.reference 0x03 (cutPackets 3 payment.encode)).isSome = true := by
    decide +kernel
  obtain ⟨⟨prompt, g⟩, h⟩ := Option.isSome_iff_exists.1 hsome
  obtain ⟨⟨v, t, haccepted⟩, hall⟩ := inputs_counted_iff Env.reference 0x03 _ prompt g h
  have hagrees := hall v t haccepted
  obtain rfl := haccepted.value_eq_cut (by decide +kernel) (by decide) (by decide) (by decide)
  exact ⟨prompt, g, _, t, h, hagrees.2 (Option.some_ne_none _)⟩

/-- A transaction without inputs. -/
def inputless : AnnotatedTransaction :=
  { payment with inputCount := 0, raw := { payment.raw with inputs := [] } }

/-- For a transaction without inputs the prompt is put up, but not even their number is hashed. -/
theorem inputless_disagrees :
    ∃ prompt g, signSession Env.reference 0x03 (cutPackets 2 inputless.encode) = some (prompt, g) ∧
      ∀ v (t : Transcript Env.reference (fun _ => True) v),
        Accepted Env.reference (fun _ => True) 0x03 (cutPackets 2 inputless.encode) prompt g v t →
          ¬ t.CountAgrees := by
  have hsome : (signSession Env.reference 0x03 (cutPackets 2 inputless.encode)).isSome = true := by
    decide +kernel
  obtain ⟨⟨prompt, g⟩, h⟩ := Option.isSome_iff_exists.1 hsome
  refine ⟨prompt, g, h, fun v t haccepted hagrees => ?_⟩
  obtain rfl := haccepted.value_eq_cut (by decide +kernel) (by decide) (by decide) (by decide)
  exact (t.countAgrees_iff haccepted.hardReject).1 hagrees rfl

end LedgerNervos
