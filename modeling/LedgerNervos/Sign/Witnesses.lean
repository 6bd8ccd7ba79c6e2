import LedgerNervos.Sign.KeyPath
import LedgerNervos.Sign.Transcript

/-!
# What is signed

The digest that is signed is the hash of the transaction hash and the records of the witnesses.
The hash is started over with the transaction hash when the first witness is announced, and taken
at the end of the vector of witnesses; the first witness is rewritten while it is read.  So
everything depends on there being a first witness.
-/

namespace LedgerNervos

variable {env : Env} {P : NvramData → Prop} {g g' : SignState}

open Callback (annotatedTransactionCallbacks)

/-! ### The calls for the witnesses -/

/-- The callbacks of a witness. -/
abbrev witnessCallbacks : BytesCb Callback := annotatedTransactionCallbacks.witnesses.item

/-- The calls for the witnesses that follow the one with the number `idx`. -/
abbrev FurtherCalls (idx : UInt32) (ws : List (List UInt8)) (cs : List Chunk)
    (es : List Callback) : Prop :=
  Spec.TrItems (MolSpec.bytes witnessCallbacks) [] (fun n => [Callback.beginWitness n]) idx ws cs es

/-- The calls for the witnesses, up to the end of the vector. -/
inductive WitnessEvents : Option (List (List UInt8)) → List Callback → Prop
  | none : WitnessEvents none []
  | nil : WitnessEvents (some []) [.beginWitness 0]
  | cons {w : List UInt8} {ws : List (List UInt8)} {pieces cs : List Chunk} {es : List Callback}
      (hlen : ws.length + 1 < 2 ^ 32) (hpieces : joined pieces = w)
      (hempty : w = [] → pieces = []) (hfurther : FurtherCalls 1 ws cs es) :
      WitnessEvents (some (w :: ws)) ([.beginWitness 0,
        .hashWitnessLength (UInt32.ofNat w.length + 4)] ++ pieces.map .processWitness ++
          (.processWitnessEnd :: .beginWitness 1 :: es))

/-- The calls for one witness. -/
theorem events_witness {w : List UInt8} {cs : List Chunk} {es : List Callback}
    (h : (MolSpec.bytes witnessCallbacks).Tr w cs es) :
    w.length + 4 < 2 ^ 32 ∧ ∃ pieces, joined pieces = w ∧ (w = [] → pieces = []) ∧
      es = .hashWitnessLength (UInt32.ofNat w.length + 4) ::
        (pieces.map .processWitness ++ [.processWitnessEnd]) := by
  obtain ⟨hlen, -, pieces, hjoined, hempty, rfl⟩ := events_bytes h
  refine ⟨hlen, pieces, hjoined, hempty, ?_⟩
  simp only [witnessCallbacks, annotatedTransactionCallbacks, sizeCallback, List.cons_append,
    List.nil_append]
  rw [← List.flatMap_pure_eq_map]
  rfl

theorem WitnessCalls.events {v : AnnotatedTransactionVal} {es : List Callback}
    (h : WitnessCalls v es) : ∃ es', es = es' ++ [.finalizeWitnesses] ∧
      WitnessEvents v.witnesses es' := by
  obtain ⟨cs, e₀, e₁, h₀, htap, rfl⟩ := h
  obtain rfl := htap.eq_of_empty
  refine ⟨_, rfl, ?_⟩
  generalize v.witnesses = witnesses at h₀
  cases witnesses with
  | none =>
    obtain rfl : e₁ = [] := h₀
    exact .none
  | some ws =>
    obtain ⟨hlen, e, hitems, rfl⟩ := h₀
    cases ws with
    | nil =>
      obtain rfl : e = [] := hitems
      exact .nil
    | cons w ws =>
      obtain ⟨f₁, f₂, h₁, h₂, rfl⟩ := hitems
      obtain ⟨-, pieces, hjoined, hempty, rfl⟩ := events_witness h₁
      convert WitnessEvents.cons hlen hjoined hempty h₂ using 1
      simp [MolReader.bytes, Reader.close, Reader.bytes, annotatedTransactionCallbacks]

/-! ### The witnesses behind the first -/

/-- The record of a witness that is not rewritten: its length, its bytes. -/
def witnessRecord (w : List UInt8) : List UInt8 := u64le (UInt64.ofNat w.length) ++ w

/-- While the witnesses behind the first are read: what the open hash context has been fed. -/
structure Hashing (bs : List UInt8) (g : SignState) : Prop where
  behind : g.tx.isFirstWitness = false
  finished : g.hashState.finished = false
  fed : g.hashState.fed = bs

/-- The length of a witness, as it is announced with the size of its length prefix. -/
theorem toUInt64_sub_four {n : ℕ} (hn : n + 4 < 2 ^ 32) :
    (UInt32.ofNat n + 4 - 4).toUInt64 = UInt64.ofNat n := by
  rw [UInt32.add_sub_cancel]
  apply UInt64.toNat_inj.1
  rw [UInt32.toNat_toUInt64, UInt32.toNat_ofNat', UInt64.toNat_ofNat',
    Nat.mod_eq_of_lt (by omega), Nat.mod_eq_of_lt (by omega)]

namespace Hashing

variable {bs : List UInt8}

theorem hashWitnessLength (h : Hashing bs g) {n : ℕ} (hn : n + 4 < 2 ^ 32)
    (hs : g.Step env P (.hashWitnessLength (UInt32.ofNat n + 4)) g') :
    Hashing (bs ++ u64le (UInt64.ofNat n)) g' := by
  obtain ⟨nd, io, io', -, hd⟩ := hs
  have hle : ¬ UInt32.ofNat n + 4 < 4 := UInt32.not_lt.2 (four_le_ofNat_add_four hn)
  simp only [dispatch, SignState.hashWitnessLength, if_neg hle, h.behind, Bool.not_false, if_true,
    toUInt64_sub_four hn, Except.ok.injEq, Prod.mk.injEq] at hd
  rw [← hd.1]
  exact ⟨h.behind, h.finished, congrArg (· ++ _) h.fed⟩

theorem processWitness (h : Hashing bs g) {c : Chunk}
    (hs : g.Step env P (.processWitness c) g') : Hashing (bs ++ c.bytes) g' := by
  obtain ⟨nd, io, io', -, hd⟩ := hs
  simp only [dispatch, SignState.processWitness, h.behind, Bool.false_eq_true, if_false,
    Except.ok.injEq, Prod.mk.injEq] at hd
  rw [← hd.1]
  exact ⟨h.behind, h.finished, congrArg (· ++ _) h.fed⟩

theorem processWitnessEnd (h : Hashing bs g) (hs : g.Step env P .processWitnessEnd g') :
    Hashing bs g' := by
  obtain ⟨nd, io, io', -, hd⟩ := hs
  simp only [dispatch, SignState.processWitnessEnd, h.behind, Bool.false_eq_true, false_and,
    if_false, Except.ok.injEq, Prod.mk.injEq] at hd
  rwa [← hd.1]

/-- The next witness is not the first one. -/
theorem beginWitness (hfinished : g.hashState.finished = false) (hfed : g.hashState.fed = bs)
    {n : UInt32} (hn : n ≠ 0) (hs : g.Step env P (.beginWitness n) g') : Hashing bs g' := by
  obtain ⟨nd, io, io', -, hd⟩ := hs
  have hne : (n == 0) = false := by simpa using hn
  simp only [dispatch, SignState.beginWitness, hne, Bool.not_false, if_true, Except.ok.injEq,
    Prod.mk.injEq] at hd
  rw [← hd.1]
  exact ⟨rfl, hfinished, hfed⟩

/-- The pieces of a witness. -/
theorem pieces {cs : List Chunk} (h : Hashing bs g)
    (hs : Steps env P g (cs.map .processWitness) g') : Hashing (bs ++ joined cs) g' := by
  induction cs generalizing g bs with
  | nil =>
    rw [Runs.nil_iff.1 hs, joined_nil, List.append_nil]
    exact h
  | cons c cs ih =>
    obtain ⟨g₁, h₁, hs⟩ := Runs.cons_iff.1 hs
    rw [joined_cons, ← List.append_assoc]
    exact ih (h.processWitness h₁) hs

/-- The witnesses behind the one with the number `idx`. -/
theorem further {ws : List (List UInt8)} {idx : UInt32} {cs : List Chunk} {es : List Callback}
    (h : Hashing bs g) (hes : FurtherCalls idx ws cs es) (hidx : idx.toNat + ws.length < 2 ^ 32)
    (hs : Steps env P g es g') : Hashing (bs ++ ws.flatMap witnessRecord) g' := by
  induction ws generalizing g bs idx cs es with
  | nil =>
    obtain rfl : es = [] := hes
    rw [Runs.nil_iff.1 hs, List.flatMap_nil, List.append_nil]
    exact h
  | cons w ws ih =>
    obtain ⟨e₁, e₂, h₁, h₂, rfl⟩ := hes
    obtain ⟨hlen, cs, hjoined, -, rfl⟩ := events_witness h₁
    obtain ⟨g₁, hwitness, hs⟩ := Runs.append_iff.1 hs
    obtain ⟨g₂, hlength, hwitness⟩ := Runs.cons_iff.1 hwitness
    obtain ⟨g₃, hpieces, hend⟩ := Runs.append_iff.1 hwitness
    obtain ⟨g₄, hbegin, hs⟩ := Runs.cons_iff.1 hs
    rw [List.length_cons] at hidx
    have hsucc : (idx + 1).toNat = idx.toNat + 1 := by
      simp only [UInt32.toNat_add, UInt32.reduceToNat]
      omega
    have hne : idx + 1 ≠ 0 := by
      intro h0
      rw [h0] at hsucc
      cases hsucc
    have h₃ := (h.hashWitnessLength hlen hlength).pieces hpieces
    have h₄ := h₃.processWitnessEnd (Runs.single_iff.1 hend)
    have h₅ := ih (beginWitness h₄.finished h₄.fed hne hbegin) h₂ (by rw [hsucc]; omega) hs
    rw [hjoined] at h₅
    simpa only [List.flatMap_cons, witnessRecord, List.append_assoc] using h₅

end Hashing

/-! ### The first witness -/

/-- What rewriting the first witness leaves alone. -/
structure WitnessFrame (g g' : SignState) : Prop where
  finished : g'.hashState.finished = g.hashState.finished
  first : g'.tx.isFirstWitness = g.tx.isFirstWitness
  done : g'.tx.firstWitnessDone = g.tx.firstWitnessDone
  transactionHash : g'.tx.transactionHash = g.tx.transactionHash

namespace WitnessFrame

theorem refl (g : SignState) : WitnessFrame g g := ⟨rfl, rfl, rfl, rfl⟩

theorem trans {g₁ : SignState} (h : WitnessFrame g g₁) (h' : WitnessFrame g₁ g') :
    WitnessFrame g g' :=
  ⟨h'.finished.trans h.finished, h'.first.trans h.first, h'.done.trans h.done,
    h'.transactionHash.trans h.transactionHash⟩

end WitnessFrame

open SignState in
theorem frame_witnessDispatch (e : WitnessCallback) (s : SignState × Io) :
    WitnessFrame s.1 (witnessDispatch e s).1 := by
  obtain ⟨g, io⟩ := s
  cases e with
  | witnessOffsets header =>
    simp only [witnessDispatch, witnessOffsets]
    split_ifs <;> exact ⟨rfl, rfl, rfl, rfl⟩
  | witnessLockArgSize size =>
    simp only [witnessDispatch, witnessLockArgSize]
    split_ifs <;> exact ⟨rfl, rfl, rfl, rfl⟩
  | witnessLockArgBodyChunk c =>
    simp only [witnessDispatch, witnessLockArgBodyChunk]
    split_ifs <;> exact ⟨rfl, rfl, rfl, rfl⟩
  | blake2bChunk bs => exact ⟨rfl, rfl, rfl, rfl⟩

theorem frame_witnessDispatches (es : List WitnessCallback) (s : SignState × Io) :
    WitnessFrame s.1 (es.foldl (fun s e => SignState.witnessDispatch e s) s).1 := by
  induction es generalizing s with
  | nil => exact .refl _
  | cons e es ih => exact (frame_witnessDispatch e s).trans (ih _)

/-- What is hashed when the header of the first witness has been read. -/
def rewrittenHeader (multisig : Bool) (header : List UInt32) : List UInt8 :=
  let field (i : ℕ) : UInt32 := header.getD i 0
  let shift := if multisig then 0 else 69 - (field 2 - field 1)
  u64le (field 0 + shift).toUInt64 ++ (u32le (field 0 + shift) ++ (u32le (field 1) ++
    (u32le (field 2 + shift) ++ (u32le (field 3 + shift) ++
      if multisig then [] else zeroWitness))))

theorem fed_witnessOffsets (g : SignState) (header : List UInt32) :
    (g.witnessOffsets header).hashState.fed =
      g.hashState.fed ++ rewrittenHeader g.signingMultisigInput header := by
  cases hmulti : g.signingMultisigInput <;>
    simp [SignState.witnessOffsets, SignState.blake2bChunk, HashState.incrementalHash, hmulti,
      rewrittenHeader]

/-- While the first witness is read, the hash context that has been started with the transaction
hash `h` is open. -/
structure Rewriting (h : Bytes 32) (g : SignState) : Prop where
  first : g.tx.isFirstWitness = true
  finished : g.hashState.finished = false
  transactionHash : g.tx.transactionHash = h

namespace Rewriting

variable {h : Bytes 32}

theorem processWitness (hg : Rewriting h g) {c : Chunk}
    (hs : g.Step env P (.processWitness c) g') : Rewriting h g' := by
  obtain ⟨nd, io, io', -, hd⟩ := hs
  simp only [dispatch, SignState.processWitness, hg.first, if_true, Except.ok.injEq,
    Prod.mk.injEq] at hd
  obtain ⟨rfl, -⟩ := hd
  have hframe := frame_witnessDispatches (witnessReader.parse molNumMax g.tx.witnessStack c).evs
    (g, io)
  split_ifs <;> exact ⟨hframe.first.trans hg.first, hframe.finished.trans hg.finished,
    hframe.transactionHash.trans hg.transactionHash⟩

/-- The pieces of the first witness. -/
theorem pieces {cs : List Chunk} (hg : Rewriting h g)
    (hs : Steps env P g (cs.map .processWitness) g') : Rewriting h g' := by
  induction cs generalizing g with
  | nil => rwa [Runs.nil_iff.1 hs]
  | cons c cs ih =>
    obtain ⟨g₁, h₁, hs⟩ := Runs.cons_iff.1 hs
    exact ih (hg.processWitness h₁) hs

/-- When the parser has not come to the end of the first witness, the hash is started over, and the
usual record is hashed. -/
theorem missing (hg : Rewriting h g) (hdone : g.tx.firstWitnessDone = false)
    (hs : g.Step env P .processWitnessEnd g') :
    g'.hashState.finished = false ∧ g'.hashState.fed = h.1 ++ selfWitness := by
  obtain ⟨nd, io, io', -, hd⟩ := hs
  simp only [dispatch, SignState.processWitnessEnd, hg.first, hdone, Bool.not_false, and_self,
    if_true, Except.ok.injEq, Prod.mk.injEq] at hd
  rw [← hd.1, ← hg.transactionHash]
  exact ⟨rfl, rfl⟩

end Rewriting

/-- The hash is started over when the first witness is announced. -/
theorem step_beginWitness (hs : g.Step env P (.beginWitness 0) g')
    (hdone : g.tx.firstWitnessDone = false) :
    Rewriting g.tx.transactionHash g' ∧ g'.tx.firstWitnessDone = false ∧
      g'.hashState.fed = g.tx.transactionHash.1 := by
  obtain ⟨nd, io, io', -, hd⟩ := hs
  simp only [dispatch, SignState.beginWitness, BEq.rfl, Bool.not_true, Bool.false_eq_true,
    if_false, Except.ok.injEq, Prod.mk.injEq] at hd
  rw [← hd.1]
  exact ⟨⟨rfl, rfl, rfl⟩, hdone, rfl⟩

/-- The length of the first witness is not hashed. -/
theorem Rewriting.hashWitnessLength {h : Bytes 32} (hg : Rewriting h g) {n : UInt32}
    (hs : g.Step env P (.hashWitnessLength n) g') : g' = g := by
  obtain ⟨nd, io, io', -, hd⟩ := hs
  simp only [dispatch, SignState.hashWitnessLength, hg.first, Bool.not_true, Bool.false_eq_true,
    if_false, ite_self, Except.ok.injEq, Prod.mk.injEq] at hd
  exact hd.1.symm

/-! ### Contexts that have been finished -/

/-- The hash context that a call finishes, if it finishes one, has not been finished before. -/
def SignState.Fresh (g : SignState) : Callback → Prop
  | .finishContextTxn => g.inp.inputState.hashState.finished = false
  | .finalizeRawTransaction | .finalizeWitnesses => g.hashState.finished = false
  | _ => True

/-- An accepted transaction has been hashed to the end. -/
theorem step_finalizeRawTransaction (hs : g.Step env P .finalizeRawTransaction g')
    (hsafe : g'.maybe.isUnsafe = false) :
    g'.tx.transactionHash = (g.hashState.finishHash env).1 ∧
      g'.hashState = (g.hashState.finishHash env).2 := by
  obtain ⟨nd, io, io', -, hd⟩ := hs
  simp only [dispatch, Except.ok.injEq, Prod.mk.injEq] at hd
  rw [← hd.1] at hsafe ⊢
  unfold SignState.finalizeRawTransaction at hsafe ⊢
  dsimp only at hsafe ⊢
  split at hsafe <;> (try split_ifs at hsafe ⊢) <;>
    first
      | exact ⟨rfl, rfl⟩
      | cases hsafe

theorem HashView.act_fresh {x : HashView} (hx : x.finished = false ∧ x.contextFinished = false)
    (e : Callback) :
    (x.act env e).finished = false ∧ (x.act env e).contextFinished = false := by
  cases e
  all_goals first
    | exact hx
    | exact ⟨hx.1, rfl⟩

theorem WitnessEvents.of_nil {es : List Callback} (h : WitnessEvents (some []) es) :
    es = [.beginWitness 0] := by
  cases h
  rfl

/-- The calls up to the end of the vector finish nothing. -/
theorem WitnessEvents.ne_finalize {o : Option (List (List UInt8))} {es : List Callback}
    (h : WitnessEvents o es) : ∀ e ∈ es, e ≠ .finalizeWitnesses := by
  cases h with
  | none => exact List.forall_mem_nil _
  | nil => exact List.forall_mem_cons.2 ⟨by simp, List.forall_mem_nil _⟩
  | cons hlen hpieces hempty hfurther =>
    have hitem : (MolSpec.bytes witnessCallbacks).Emits (· ≠ .finalizeWitnesses) := by
      refine emits_bytes ?_ ?_ ?_
      all_goals simp [witnessCallbacks, annotatedTransactionCallbacks, sizeCallback]
    have hrest := Spec.emits_items hitem (List.forall_mem_nil _) (by simp) hfurther
    simp only [List.forall_mem_append, List.forall_mem_cons, List.forall_mem_map]
    exact ⟨⟨⟨by simp, by simp, List.forall_mem_nil _⟩, fun _ _ => by simp⟩, by simp, by simp, hrest⟩

namespace Transcript

variable {v : AnnotatedTransactionVal} (t : Transcript env P v)

/-- The last call is that of `finalize_witnesses`. -/
theorem closing : ∃ before s, t.witnessTrace = before ++ [(s, .finalizeWitnesses)] ∧
    WitnessEvents v.witnesses (before.map Prod.snd) ∧
    Visits (SignState.Step env P) t.finalized before s ∧
    s.Step env P .finalizeWitnesses t.last := by
  obtain ⟨hcalls, hv⟩ := t.witnesses
  obtain ⟨es, hes, hevents⟩ := hcalls.events
  obtain ⟨before, end_, s, htrace, rfl, hend, hbefore, hlast⟩ := hv.split hes
  obtain ⟨s₁, tr, rfl, hstep, hnil, htr⟩ := hlast.uncons hend
  obtain ⟨rfl, rfl⟩ := hnil.of_nil htr
  exact ⟨before, s, htrace, hevents, hbefore, hstep⟩

/-- No context that has been finished is finished again before the witnesses. -/
theorem fresh_before (hok : t.last.maybe.hardReject = false) :
    t.stored.hashState.finished = false ∧ ∀ x ∈ t.beforeTrace, x.1.Fresh x.2 := by
  have hstored : t.stored.maybe.hardReject = false :=
    (Visits.cons t.finalize t.witnesses.2).runs.hardReject hok
  have hfresh := t.visits_before.invariant_until
    (I := fun s => s.hashView.finished = false ∧ s.hashView.contextFinished = false)
    (J := fun s => s.maybe.hardReject = false) ⟨rfl, rfl⟩ hstored
    (fun _ _ _ hstep => (Runs.single_iff.2 hstep).hardReject)
    (fun s e s' he hstep hok' hs => by
      obtain ⟨hwitnesses, hfinal⟩ := t.part_before e (List.mem_map_of_mem he)
      rw [hstep.hashView hwitnesses hfinal hok']
      exact HashView.act_fresh hs e)
  refine ⟨hfresh.1.1, fun x hx => ?_⟩
  obtain ⟨hfinished, hcontext⟩ := hfresh.2 x hx
  unfold SignState.Fresh
  split
  · exact hcontext
  · exact hfinished
  · exact hfinished
  · trivial

/-- The raw transaction has been hashed, and no witness has been read yet. -/
theorem finalized_hash (hok : t.last.maybe.hardReject = false)
    (hsafe : t.last.maybe.isUnsafe = false) :
    t.finalized.tx.transactionHash = env.blake2b t.stored.hashState.fed ∧
      t.finalized.hashState.finished = true ∧ t.finalized.tx.firstWitnessDone = false := by
  have hstored := (t.fresh_before hok).1
  obtain ⟨hhash, hstate⟩ := step_finalizeRawTransaction t.finalize
    (t.witnesses.2.runs.isUnsafe hsafe)
  refine ⟨?_, by rw [hstate]; rfl, ?_⟩
  · rw [hhash, HashState.finishHash, if_neg (by simp [hstored])]
  · refine t.finalize.framed.firstWitnessDone nofun ?_
    exact t.visits_before.runs.invariant (I := fun s => s.tx.firstWitnessDone = false) rfl
      fun _ e _ he hstep hs => hstep.framed.firstWitnessDone (t.part_before e he).1 hs

/-- The transaction hash is not changed while the witnesses are read. -/
theorem transactionHash_last : t.last.tx.transactionHash = t.finalized.tx.transactionHash :=
  t.witnesses.2.runs.frame (f := fun s => s.tx.transactionHash) fun _ e _ he hstep =>
    hstep.framed.transactionHash (t.witnesses.1.part e he)

end Transcript

end LedgerNervos
