import LedgerNervos.Sign.Pieces
import LedgerNervos.Sign.Witnesses

/-!
# The first witness, piece by piece

The first witness is handed to a parser of its own, and what is hashed of it is what the callbacks
of this parser make of it.  They only act on a small part of the state, `WitnessView`, and on the
receive buffer, whose contents are not known here.  A run over the pieces of a witness is therefore
a run over the calls for the arguments it encodes (`Steps.witnessPieces`), and these are found out
in the same way as those for the transaction (`tr_witnessArgs`).
-/

namespace LedgerNervos

variable {env : Env} {P : NvramData → Prop} {g g' : SignState}

open Callback (annotatedTransactionCallbacks)
open SignState (lookUp signaturesIn signaturesStart zeroSignatures)

/-! ### The state of the inner parser's callbacks -/

/-- What the callbacks of the parser of the first witness act on. -/
structure WitnessView where
  fed : List UInt8
  isUnsafe : Bool
  /-- There is a multisig input. -/
  multisig : Bool
  /-- How much of the lock has been read. -/
  consumed : UInt32
  threshold : UInt8
  /-- The number of keys. -/
  count : UInt8
deriving DecidableEq

def SignState.witnessView (g : SignState) : WitnessView where
  fed := g.hashState.fed
  isUnsafe := g.maybe.isUnsafe
  multisig := g.signingMultisigInput
  consumed := g.tx.witnessMultisigLockArgConsumed
  threshold := g.tx.witnessMultisigThreshold
  count := g.tx.witnessMultisigPubkeysCnt

namespace WitnessView

/-- What a piece of a multisig lock does, with the receive buffer `io`. -/
def lockPiece (io : Io) (x : WitnessView) (c : Chunk) : WitnessView :=
  if x.consumed = 0 ∧ lookUp io c 0 ≠ 0 then { x with isUnsafe := true }
  else
    let threshold := if x.consumed < 3 then lookUp io c (2 - x.consumed.toNat) else x.threshold
    let count := if x.consumed < 4 then lookUp io c (3 - x.consumed.toNat) else x.count
    { x with
      fed := x.fed ++ zeroSignatures x.consumed count c.bytes
      threshold := threshold
      count := count
      consumed := x.consumed + UInt32.ofNat c.length }

/-- What a callback of the inner parser does. -/
def act (io : Io) (x : WitnessView) : WitnessCallback → WitnessView
  | .witnessOffsets header => { x with fed := x.fed ++ rewrittenHeader x.multisig header }
  | .witnessLockArgSize size =>
    if !x.multisig then x
    else if size < 4 then x
    else { x with fed := x.fed ++ u32le (size - 4) }
  | .witnessLockArgBodyChunk c => if !x.multisig then x else x.lockPiece io c
  | .blake2bChunk bs => { x with fed := x.fed ++ bs }

/-- A call of the inner parser, whatever the receive buffer holds. -/
def Step (x : WitnessView) (e : WitnessCallback) (x' : WitnessView) : Prop :=
  ∃ io, x' = x.act io e

end WitnessView

theorem witnessView_dispatch (e : WitnessCallback) (g : SignState) (io : Io) :
    (SignState.witnessDispatch e (g, io)).1.witnessView = g.witnessView.act io e := by
  cases e with
  | witnessOffsets header =>
    have hfed := fed_witnessOffsets g header
    have hrest : (g.witnessOffsets header).witnessView =
        { g.witnessView with fed := (g.witnessOffsets header).hashState.fed } := by
      simp only [SignState.witnessOffsets, SignState.blake2bChunk, SignState.witnessView]
      split_ifs
      all_goals rfl
    rw [hfed] at hrest
    exact hrest
  | witnessLockArgSize size =>
    change (g.witnessLockArgSize size).witnessView = if !g.signingMultisigInput then g.witnessView
      else if size < 4 then g.witnessView else (g.blake2bChunk (u32le (size - 4))).witnessView
    rw [SignState.witnessLockArgSize]
    split_ifs
    all_goals rfl
  | witnessLockArgBodyChunk c =>
    change (g.witnessLockArgBodyChunk io c).1.witnessView =
      if !g.signingMultisigInput then g.witnessView else g.witnessView.lockPiece io c
    rw [SignState.witnessLockArgBodyChunk]
    by_cases hmulti : (!g.signingMultisigInput) = true
    · rw [if_pos hmulti, if_pos hmulti]
    · rw [if_neg hmulti, if_neg hmulti, WitnessView.lockPiece]
      by_cases hbad : g.tx.witnessMultisigLockArgConsumed = 0 ∧ lookUp io c 0 ≠ 0
      · rw [if_pos hbad]
        exact (if_pos hbad).symm
      · rw [if_neg hbad]
        exact (if_neg hbad).symm
  | blake2bChunk bs => rfl

theorem witnessView_dispatches (es : List WitnessCallback) (s : SignState × Io) :
    Runs WitnessView.Step s.1.witnessView es
      (es.foldl (fun s e => SignState.witnessDispatch e s) s).1.witnessView := by
  induction es generalizing s with
  | nil => exact .nil _
  | cons e es ih => exact .cons ⟨s.2, witnessView_dispatch e s.1 s.2⟩ (ih _)

/-! ### A run over the pieces -/

/-- The state between two pieces of the first witness. -/
theorem step_processWitness (hfirst : g.tx.isFirstWitness = true) {c : Chunk}
    (hs : g.Step env P (.processWitness c) g') :
    let o := witnessReader.parse molNumMax g.tx.witnessStack c
    Runs WitnessView.Step g.witnessView o.evs g'.witnessView ∧ g'.tx.isFirstWitness = true ∧
      g'.tx.witnessStack = o.st ∧
      g'.tx.firstWitnessDone = (g.tx.firstWitnessDone || o.rv = .complete) := by
  obtain ⟨nd, io, io', -, hd⟩ := hs
  simp only [dispatch, SignState.processWitness, hfirst, if_true, Except.ok.injEq,
    Prod.mk.injEq] at hd
  obtain ⟨rfl, -⟩ := hd
  have hframe := frame_witnessDispatches (witnessReader.parse molNumMax g.tx.witnessStack c).evs
    (g, io)
  have hview := witnessView_dispatches (witnessReader.parse molNumMax g.tx.witnessStack c).evs
    (g, io)
  by_cases hrv : (witnessReader.parse molNumMax g.tx.witnessStack c).rv = .complete
  · rw [if_pos hrv]
    exact ⟨hview, hframe.first.trans hfirst, rfl, by simp [hrv]⟩
  · rw [if_neg hrv]
    exact ⟨hview, hframe.first.trans hfirst, rfl, by simp [hrv, hframe.done]⟩

/-- The inner parser has come to the end of the witness: it does nothing any more. -/
def SignState.Behind (g : SignState) : Prop :=
  ∀ c, witnessReader.parse molNumMax g.tx.witnessStack c =
    ⟨.complete, g.tx.witnessStack, c, [], false⟩

/-- Pieces behind the end of the witness. -/
theorem Steps.behind {cs : List Chunk} (hfirst : g.tx.isFirstWitness = true)
    (hdone : g.tx.firstWitnessDone = true) (hend : g.Behind)
    (hs : Steps env P g (cs.map .processWitness) g') :
    g'.witnessView = g.witnessView ∧ g'.tx.firstWitnessDone = true := by
  induction cs generalizing g with
  | nil =>
    rw [Runs.nil_iff.1 hs]
    exact ⟨rfl, hdone⟩
  | cons c cs ih =>
    obtain ⟨g₁, h₁, hs⟩ := Runs.cons_iff.1 hs
    obtain ⟨hview, hfirst₁, hstack, hdone₁⟩ := step_processWitness hfirst h₁
    rw [hend c] at hview hstack hdone₁
    have hend₁ : g₁.Behind := by
      intro d
      rw [hstack]
      exact hend d
    rw [← Runs.nil_iff.1 hview]
    exact ih hfirst₁ (by simp [hdone₁]) hend₁ hs

/-- **The pieces of the first witness.**  When the inner parser comes to the end, the pieces have
led to the calls that it makes. -/
theorem Steps.witnessPieces {cs rest : List Chunk} {evs : List WitnessCallback}
    (hfirst : g.tx.isFirstWitness = true)
    (hrun : runWith (witnessReader.parse molNumMax) g.tx.witnessStack cs = .done evs rest)
    (hs : Steps env P g (cs.map .processWitness) g') :
    Runs WitnessView.Step g.witnessView evs g'.witnessView ∧
      g'.tx.firstWitnessDone = true := by
  induction cs generalizing g evs rest with
  | nil => cases hrun
  | cons c cs ih =>
    obtain ⟨g₁, h₁, hs⟩ := Runs.cons_iff.1 hs
    obtain ⟨hview, hfirst₁, hstack, hdone⟩ := step_processWitness hfirst h₁
    rw [runWith_cons, resume] at hrun
    cases hrv : (witnessReader.parse molNumMax g.tx.witnessStack c).rv with
    | complete =>
      rw [hrv] at hrun
      obtain ⟨rfl, -⟩ := RunRes.done.inj hrun
      have hend : g₁.Behind := by
        intro d
        rw [hstack]
        exact Reader.parseTable_complete hrv _ d
      obtain ⟨hsame, hdone'⟩ := Steps.behind hfirst₁ (by simp [hdone, hrv]) hend hs
      rw [hsame]
      exact ⟨hview, hdone'⟩
    | reject =>
      rw [hrv] at hrun
      cases hrun
    | incomplete =>
      rw [hrv, ← hstack] at hrun
      cases hmore : runWith (witnessReader.parse molNumMax) g₁.tx.witnessStack cs with
      | done evs' rest' =>
        rw [hmore] at hrun
        obtain ⟨rfl, -⟩ := RunRes.done.inj hrun
        obtain ⟨hview', hdone'⟩ := ih hfirst₁ hmore hs
        exact ⟨hview.append hview', hdone'⟩
      | more _ =>
        rw [hmore] at hrun
        cases hrun
      | fail _ =>
        rw [hmore] at hrun
        cases hrun

/-- The inner parser comes to its end in one of the pieces.  It is also called again after it has
refused one. -/
def completes (s : witnessReader.State) : List Chunk → Bool
  | [] => false
  | c :: cs => (witnessReader.parse molNumMax s c).rv = .complete ||
      completes (witnessReader.parse molNumMax s c).st cs

/-- The first witness is done when the inner parser has come to its end. -/
theorem Steps.completes {cs : List Chunk} (hfirst : g.tx.isFirstWitness = true)
    (hs : Steps env P g (cs.map .processWitness) g') :
    g'.tx.firstWitnessDone = (g.tx.firstWitnessDone || completes g.tx.witnessStack cs) := by
  induction cs generalizing g with
  | nil => rw [Runs.nil_iff.1 hs, LedgerNervos.completes, Bool.or_false]
  | cons c cs ih =>
    obtain ⟨g₁, h₁, hs⟩ := Runs.cons_iff.1 hs
    obtain ⟨-, hfirst₁, hstack, hdone⟩ := step_processWitness hfirst h₁
    rw [ih hfirst₁ hs, hdone, hstack, Bool.or_assoc]
    rfl

/-! ### The calls for the arguments of a witness -/

/-- The lengths of the fields of the arguments of a witness. -/
def WitnessArgsCb.lens {ε : Type} (cb : WitnessArgsCb ε) (v : WitnessArgsVal) : List ℕ :=
  [(MolSpec.bytesOpt cb.lock).len v.2.1, (MolSpec.bytesOpt cb.inputType).len v.2.2.1,
    (MolSpec.bytesOpt cb.outputType).len v.2.2.2.1]

/-- The calls for each field of the arguments of a witness, by the pieces it arrives in. -/
theorem tr_witnessArgs {ε : Type} {cb : WitnessArgsCb ε} {v : WitnessArgsVal} {cs : List Chunk}
    {evs : List ε} (h : (MolSpec.witnessArgs cb).Tr v cs evs) :
    ∃ e₁ e₂ e₃, (MolSpec.bytesOpt cb.lock).Tr v.2.1 (fieldPieces 16 (cb.lens v) 0 cs) e₁ ∧
      (MolSpec.bytesOpt cb.inputType).Tr v.2.2.1 (fieldPieces 16 (cb.lens v) 1 cs) e₂ ∧
      (MolSpec.bytesOpt cb.outputType).Tr v.2.2.2.1 (fieldPieces 16 (cb.lens v) 2 cs) e₃ ∧
      evs = cb.lock.item.start ++ cb.offsets v.1 ++ e₁ ++ cb.inputType.item.start ++ e₂ ++
        cb.outputType.item.start ++ e₃ := by
  obtain ⟨hd, lock, inputType, outputType, ⟨⟩⟩ := v
  obtain ⟨_, ⟨e₁, _, h₁, ⟨_, ⟨e₂, _, h₂, ⟨_, ⟨e₃, _, h₃, ⟨_, rfl, rfl⟩, rfl⟩, rfl⟩, rfl⟩, rfl⟩,
    rfl⟩, rfl⟩ := h
  simp only [dropC_dropC] at h₁ h₂ h₃
  refine ⟨e₁, e₂, e₃, ?_, ?_, ?_, ?_⟩
  · simpa [fieldPieces, WitnessArgsCb.lens] using h₁
  · simpa [fieldPieces, WitnessArgsCb.lens] using h₂
  · simpa [fieldPieces, WitnessArgsCb.lens, Nat.add_assoc] using h₃
  · simp [Reader.startFields, MolReader.bytesOpt, MolReader.bytes, Reader.close, Reader.option,
      Reader.bytes]

theorem WitnessArgs.lens_value {ε : Type} (cb : WitnessArgsCb ε) (hcb : cb.Accepts)
    (w : WitnessArgs) (hlen : w.encode.length < 2 ^ 32) :
    cb.lens w.value = w.parts.map List.length := by
  have hpart : ∀ p ∈ w.parts, p.length < 2 ^ 32 := fun p hp => length_lt_of_mem hp hlen
  simp only [WitnessArgs.parts, List.mem_cons, List.not_mem_nil, or_false, forall_eq_or_imp,
    forall_eq] at hpart
  obtain ⟨hlock, hin, hout⟩ := hpart
  have hlock := (reads_bytesOpt _ hcb.lock _ hlock).len (MolReader.bytesOpt_lawful _)
  have hin := (reads_bytesOpt _ hcb.inputType _ hin).len (MolReader.bytesOpt_lawful _)
  have hout := (reads_bytesOpt _ hcb.outputType _ hout).len (MolReader.bytesOpt_lawful _)
  simp only [WitnessArgsCb.lens, value, parts, List.map_cons, List.map_nil, hlock, hin, hout]

theorem witnessArgsRewriteCallbacks_accepts : witnessArgsRewriteCallbacks.Accepts := by
  refine ⟨fun n hn => ?_, fun _ _ => rfl, fun _ _ => rfl⟩
  exact decide_eq_true (four_le_ofNat_add_four hn)

/-- The inner parser, over pieces that make up the arguments of a witness. -/
theorem run_witnessReader {w : WitnessArgs} (hlen : w.encode.length < 2 ^ 32) {cs : List Chunk}
    (hcs : joined cs = w.encode) :
    ∃ evs rest, witnessReader.run molNumMax cs = .done evs rest ∧
      (MolSpec.witnessArgs witnessArgsRewriteCallbacks).Tr w.value (takeC w.encode.length cs)
        evs := by
  have hreads := reads_witnessArgs _ witnessArgsRewriteCallbacks_accepts w hlen (.max _)
  have hsize := hreads.len (MolReader.witnessArgs_lawful _)
  have hne : cs ≠ [] := by
    rintro rfl
    have hpos := encodeParts_pos w.parts
    rw [← WitnessArgs.encode, ← hcs] at hpos
    exact absurd hpos (by decide)
  have hrun := MolReader.witnessArgs_lawful witnessArgsRewriteCallbacks molNumMax cs hne
  have hsem := hreads []
  rw [List.append_nil, ← hcs] at hsem
  rw [hsem] at hrun
  change Agrees (witnessReader.run molNumMax cs) _ _ _ _ at hrun
  cases hx : witnessReader.run molNumMax cs with
  | done evs rest =>
    rw [hx] at hrun
    obtain ⟨-, -, -, htr⟩ := hrun
    rw [hsize] at htr
    exact ⟨evs, rest, rfl, htr⟩
  | more _ =>
    rw [hx] at hrun
    cases hrun
  | fail _ =>
    rw [hx] at hrun
    cases hrun

/-! ### What is hashed of the fields -/

namespace WitnessView

variable {x x' : WitnessView}

/-- Pieces that are hashed as they are. -/
theorem runs_hashed {chunk : Chunk → List WitnessCallback} {es evs : List WitnessCallback}
    {bs : List UInt8} (hchunk : ∀ c, chunk c = [.blake2bChunk c.bytes]) (hes : es = [])
    (h : Tapped chunk es bs evs) (hs : Runs Step x evs x') :
    x' = { x with fed := x.fed ++ bs } := by
  induction h generalizing x with
  | nil => rw [Runs.nil_iff.1 hs, List.append_nil]
  | ev e _ _ => cases hes
  | @tap c es evs bs _ ih =>
    rw [hchunk] at hs
    obtain ⟨x₁, ⟨io, rfl⟩, hs⟩ := Runs.cons_iff.1 hs
    rw [ih hes hs, ← List.append_assoc]
    rfl

/-- The type fields of the witness are hashed as they are. -/
theorem runs_bytesOpt {o : Option (List UInt8)} {cs : List Chunk} {evs : List WitnessCallback}
    (h : (MolSpec.bytesOpt { chunk := fun c => [WitnessCallback.blake2bChunk c.bytes] }).Tr o cs
      evs)
    (hs : Runs Step x evs x') : x' = { x with fed := x.fed ++ joined cs } := by
  obtain ⟨e₀, e₁, h₀, htap, rfl⟩ := h
  have hnone : (MolSpec.bytes ({} : BytesCb WitnessCallback)).Emits fun _ => False :=
    emits_bytes nofun nofun nofun
  rw [events_nil (.option hnone) h₀] at htap
  rw [List.append_nil] at hs
  exact runs_hashed (fun _ => rfl) rfl htap hs

/-- The callbacks for the lock. -/
def OfLock : WitnessCallback → Prop
  | .witnessLockArgSize _ | .witnessLockArgBodyChunk _ => True
  | _ => False

theorem emits_lock :
    (MolSpec.bytesOpt witnessArgsRewriteCallbacks.lock).Emits OfLock := by
  refine .close (.option (emits_bytes ?_ ?_ ?_)) ?_ ?_
  all_goals simp [witnessArgsRewriteCallbacks, sizeCallback, OfLock]

/-- Without a multisig input, nothing is hashed of the lock. -/
theorem runs_lock {o : Option (List UInt8)} {cs : List Chunk} {evs : List WitnessCallback}
    (h : (MolSpec.bytesOpt witnessArgsRewriteCallbacks.lock).Tr o cs evs)
    (hmulti : x.multisig = false) (hs : Runs Step x evs x') : x' = x := by
  refine hs.invariant (I := fun y => y = x) rfl fun y e y' he hstep hy => ?_
  obtain ⟨io, rfl⟩ := hstep
  have hof := emits_lock _ _ _ h e he
  subst hy
  cases e with
  | witnessLockArgSize size => simp [act, hmulti]
  | witnessLockArgBodyChunk c => simp [act, hmulti]
  | witnessOffsets header => exact hof.elim
  | blake2bChunk bs => exact hof.elim

end WitnessView

/-! ### From the first witness to the digest -/

/-- The pieces of the first witness, which `n` others follow. -/
def AnnotatedTransactionVal.firstPieces (v : AnnotatedTransactionVal) (w : List UInt8) (n : ℕ)
    (cs : List Chunk) : List Chunk :=
  if w = [] then [] else takeC w.length (dropC 4 (dropC (8 + 4 * n) (v.witnessPieces cs)))

/-- What the inner parser's callbacks find when the first witness is announced. -/
def SignState.announced (g : SignState) : WitnessView where
  fed := g.tx.transactionHash.1
  isUnsafe := g.maybe.isUnsafe
  multisig := g.signingMultisigInput
  consumed := 0
  threshold := 0
  count := 0

theorem step_beginWitness_view (hs : g.Step env P (.beginWitness 0) g') :
    g'.witnessView = g.announced ∧ g'.tx.isFirstWitness = true ∧
      g'.tx.witnessStack = witnessReader.init := by
  obtain ⟨nd, io, io', -, hd⟩ := hs
  simp only [dispatch, SignState.beginWitness, BEq.rfl, Bool.not_true, Bool.false_eq_true,
    if_false, Except.ok.injEq, Prod.mk.injEq] at hd
  rw [← hd.1]
  exact ⟨rfl, rfl, rfl⟩

/-- The digest is taken at the end of the vector. -/
theorem step_finalizeWitnesses (hs : g.Step env P .finalizeWitnesses g') :
    g'.tx.finalHash = (g.hashState.finishHash env).1 := by
  obtain ⟨nd, io, io', -, hd⟩ := hs
  simp only [dispatch, Except.ok.injEq, Prod.mk.injEq] at hd
  rw [← hd.1]
  rfl

/-- Nothing is added to the first witness that has been read to its end. -/
theorem step_processWitnessEnd (hdone : g.tx.firstWitnessDone = true)
    (hs : g.Step env P .processWitnessEnd g') : g' = g := by
  obtain ⟨nd, io, io', -, hd⟩ := hs
  simp only [dispatch, SignState.processWitnessEnd, hdone, Bool.not_true, Bool.false_eq_true,
    and_false, if_false, Except.ok.injEq, Prod.mk.injEq] at hd
  exact hd.1.symm

namespace Transcript

variable {v : AnnotatedTransactionVal} {t : Transcript env P v} {cs : List Chunk}
  {w : List UInt8} {ws : List (List UInt8)}

/-- The calls for the witnesses, by the pieces of the first one. -/
theorem Cut.witnessCalls (h : t.Cut cs) (hw : v.witnesses = some (w :: ws)) :
    ws.length + 1 < 2 ^ 32 ∧ w.length < 2 ^ 32 ∧ joined (v.firstPieces w ws.length cs) = w ∧
      ∃ ds es, FurtherCalls 1 ws ds es ∧ t.witnessTrace.map Prod.snd =
        [.beginWitness 0, .hashWitnessLength (UInt32.ofNat w.length + 4)] ++
          (v.firstPieces w ws.length cs).map .processWitness ++
            (.processWitnessEnd :: .beginWitness 1 :: es) ++ [.finalizeWitnesses] := by
  obtain ⟨e₀, e₁, h₀, htap, hcalls⟩ := h.witnesses
  obtain rfl := htap.eq_of_empty
  rw [hw] at h₀
  obtain ⟨hlen, e, ⟨f₁, f₂, ⟨_, ⟨hsize, hpieces, -, rfl⟩, rfl⟩, h₂, rfl⟩, rfl⟩ := h₀
  have hbytes : (MolSpec.bytes witnessCallbacks).len w = 4 + w.length := rfl
  rw [hbytes, dropC_takeC, List.length_cons, Nat.add_sub_cancel] at hpieces
  refine ⟨hlen, by omega, ?_, _, f₂, h₂, ?_⟩
  · rw [AnnotatedTransactionVal.firstPieces]
    split_ifs with hnil
    · exact hnil.symm
    · exact hpieces.symm
  rw [hcalls, AnnotatedTransactionVal.firstPieces, hbytes, dropC_takeC, List.length_cons,
    Nat.add_sub_cancel]
  have hmap (cs : List Chunk) : cs.flatMap (fun c => [Callback.processWitness c]) =
      cs.map .processWitness := List.flatMap_pure_eq_map _ cs
  split_ifs
  · simp [annotatedTransactionCallbacks, sizeCallback, MolReader.bytes, Reader.close, Reader.bytes]
  · simp [annotatedTransactionCallbacks, sizeCallback, MolReader.bytes, Reader.close, Reader.bytes,
      hmap]

/-- The digest is that of the bytes `bs`: the hash context that is finished last has been fed
these. -/
structure Digests (t : Transcript env P v) (bs : List UInt8) : Prop where
  fed : ∃ before s, t.witnessTrace = before ++ [(s, .finalizeWitnesses)] ∧ s.hashState.fed = bs
  finalHash : t.last.tx.finalHash = env.blake2b bs

theorem Digests.unique {bs bs' : List UInt8} (h : t.Digests bs) (h' : t.Digests bs') :
    bs = bs' := by
  obtain ⟨before, s, htrace, rfl⟩ := h.fed
  obtain ⟨before', s', htrace', rfl⟩ := h'.fed
  obtain ⟨-, hlast⟩ := List.append_inj' (htrace.symm.trans htrace') rfl
  obtain rfl : s = s' := by simpa using hlast
  rfl

/-- The witnesses are read: the first one piece by piece, and at the end of the vector the open hash
context has been fed what has been hashed of it, and the records of the others.  When the inner
parser has not come to its end in the first witness, the usual record is hashed for it. -/
theorem Cut.hashing (h : t.Cut cs) (hw : v.witnesses = some (w :: ws))
    (hok : t.last.maybe.hardReject = false) (hsafe : t.last.maybe.isUnsafe = false) :
    ∃ s₁ s₂ : SignState, s₁.tx.isFirstWitness = true ∧
      s₁.tx.witnessStack = witnessReader.init ∧ s₁.witnessView = t.last.announced ∧
      Steps env P s₁ ((v.firstPieces w ws.length cs).map .processWitness) s₂ ∧
      s₂.maybe.isUnsafe = false ∧
      s₂.tx.firstWitnessDone = completes witnessReader.init (v.firstPieces w ws.length cs) ∧
      ∃ before s, t.witnessTrace = before ++ [(s, .finalizeWitnesses)] ∧
        s.Step env P .finalizeWitnesses t.last ∧
        Hashing ((if s₂.tx.firstWitnessDone then s₂.hashState.fed
          else t.last.tx.transactionHash.1 ++ selfWitness) ++ ws.flatMap witnessRecord) s := by
  obtain ⟨hlen, -, -, ds, es, hfurther, hcalls⟩ := h.witnessCalls hw
  obtain ⟨-, -, hdone⟩ := t.finalized_hash hok hsafe
  obtain ⟨before, s, htrace, -, hbefore, hfinal⟩ := t.closing
  rw [htrace, List.map_append] at hcalls
  have hs := (List.append_inj' hcalls rfl).1 ▸ hbefore.runs
  have hmulti : t.last.signingMultisigInput = t.finalized.signingMultisigInput :=
    t.witnesses.2.runs.frame (f := fun s => s.signingMultisigInput) fun _ e _ he hstep =>
      hstep.framed.signingMultisigInput (t.witnesses.1.part e he)
  have hsafe_s := (Runs.single_iff.2 hfinal).isUnsafe hsafe
  obtain ⟨g₁, hfirst, hs⟩ := Runs.append_iff.1 hs
  obtain ⟨g₂, hfirst, hpieces⟩ := Runs.append_iff.1 hfirst
  obtain ⟨g₃, hbegin, hlength⟩ := Runs.cons_iff.1 hfirst
  obtain ⟨hrewriting, hopen, -⟩ := step_beginWitness hbegin hdone
  obtain rfl := hrewriting.hashWitnessLength (Runs.single_iff.1 hlength)
  obtain ⟨hview, hisFirst, hstack⟩ := step_beginWitness_view hbegin
  have hannounced : t.finalized.announced = t.last.announced := by
    rw [SignState.announced, SignState.announced, hsafe, t.transactionHash_last, hmulti,
      t.witnesses.2.runs.isUnsafe hsafe]
  have hcompletes := Steps.completes hisFirst hpieces
  rw [hopen, Bool.false_or, hstack] at hcompletes
  refine ⟨g₂, g₁, hisFirst, hstack, hview.trans hannounced, hpieces, hs.isUnsafe hsafe_s,
    hcompletes, before, s, htrace, hfinal, ?_⟩
  -- the first witness has been read, the others follow
  obtain ⟨g₄, hclose, hrest⟩ := Runs.cons_iff.1 hs
  obtain ⟨g₅, hbehind, hothers⟩ := Runs.cons_iff.1 hrest
  have hrewritten := hrewriting.pieces hpieces
  have hrecord : g₄.hashState.finished = false ∧ g₄.hashState.fed =
      if g₁.tx.firstWitnessDone then g₁.hashState.fed
      else t.last.tx.transactionHash.1 ++ selfWitness := by
    cases hend : g₁.tx.firstWitnessDone with
    | true =>
      obtain rfl := step_processWitnessEnd hend hclose
      exact ⟨hrewritten.finished, rfl⟩
    | false =>
      rw [t.transactionHash_last]
      exact hrewritten.missing hend hclose
  have hidx : (1 : UInt32).toNat + ws.length < 2 ^ 32 := by
    change 1 + ws.length < 2 ^ 32
    omega
  exact (Hashing.beginWitness hrecord.1 hrecord.2 (by decide) hbehind).further hfurther hidx hothers

theorem Digests.of_hashing {bs : List UInt8} {before : List (SignState × Callback)}
    {s : SignState} (htrace : t.witnessTrace = before ++ [(s, .finalizeWitnesses)])
    (hfinal : s.Step env P .finalizeWitnesses t.last) (h : Hashing bs s) : t.Digests bs := by
  refine ⟨⟨before, s, htrace, h.fed⟩, ?_⟩
  rw [step_finalizeWitnesses hfinal, HashState.finishHash, if_neg (by simp [h.finished]), h.fed]

/-- The digest, when the inner parser does not come to its end in the first witness. -/
theorem Cut.digest_missing (h : t.Cut cs) (hw : v.witnesses = some (w :: ws))
    (hmissing : completes witnessReader.init (v.firstPieces w ws.length cs) = false)
    (hok : t.last.maybe.hardReject = false) (hsafe : t.last.maybe.isUnsafe = false) :
    t.Digests (t.last.tx.transactionHash.1 ++ (selfWitness ++ ws.flatMap witnessRecord)) := by
  obtain ⟨s₁, s₂, -, -, -, -, -, hdone, before, s, htrace, hfinal, hhashing⟩ :=
    h.hashing hw hok hsafe
  rw [hdone, hmissing, if_neg Bool.false_ne_true, List.append_assoc] at hhashing
  exact .of_hashing htrace hfinal hhashing

/-- The pieces of the lock of the first witness. -/
def lockPieces (v : AnnotatedTransactionVal) (args : WitnessArgs) (n : ℕ) (cs : List Chunk) :
    List Chunk :=
  fieldPieces 16 (args.parts.map List.length) 0
    (takeC args.encode.length (v.firstPieces args.encode n cs))

theorem joined_fields {args : WitnessArgs} {ps : List Chunk} (hps : joined ps = args.encode)
    (i : ℕ) : joined (fieldPieces 16 (args.parts.map List.length) i
      (takeC args.encode.length ps)) = args.parts.getD i [] := by
  refine joined_fieldPieces_encode ?_ i
  rw [joined_takeC, hps, List.take_length, WitnessArgs.encode]

/-- The digest, when the first witness encodes the arguments `args`. -/
theorem Cut.digest_args {args : WitnessArgs} (h : t.Cut cs)
    (hw : v.witnesses = some (args.encode :: ws)) (hlen : args.encode.length < 2 ^ 32)
    (hok : t.last.maybe.hardReject = false) (hsafe : t.last.maybe.isUnsafe = false) :
    joined (lockPieces v args ws.length cs) = encodeOption encodeBytes args.lock ∧
    ∃ es x, (MolSpec.bytesOpt witnessArgsRewriteCallbacks.lock).Tr args.lock
        (lockPieces v args ws.length cs) es ∧
      Runs WitnessView.Step { t.last.announced with
        fed := t.last.tx.transactionHash.1 ++
          rewrittenHeader t.last.signingMultisigInput (headerWords args.parts) } es x ∧
      x.isUnsafe = false ∧ t.Digests (x.fed ++ (encodeOption encodeBytes args.inputType ++
        (encodeOption encodeBytes args.outputType ++ ws.flatMap witnessRecord))) := by
  obtain ⟨-, -, hjoined, -⟩ := h.witnessCalls hw
  obtain ⟨s₁, s₂, hfirst, hstack, hview, hs, hsafe₂, -, before, s, htrace, hfinal, hhashing⟩ :=
    h.hashing hw hok hsafe
  have hdigests := Digests.of_hashing htrace hfinal hhashing
  obtain ⟨evs, rest, hrun, htr⟩ := run_witnessReader hlen hjoined
  rw [Reader.run, ← hstack] at hrun
  obtain ⟨hruns, hdone⟩ := Steps.witnessPieces hfirst hrun hs
  rw [hview] at hruns
  -- the calls, field by field
  obtain ⟨e₁, e₂, e₃, h₁, h₂, h₃, rfl⟩ := tr_witnessArgs htr
  rw [args.lens_value _ witnessArgsRewriteCallbacks_accepts hlen] at h₁ h₂ h₃
  simp only [witnessArgsRewriteCallbacks, List.nil_append, List.append_nil,
    List.append_assoc] at hruns
  obtain ⟨x₀, hheader, hruns⟩ := Runs.append_iff.1 hruns
  obtain ⟨x, hlock, hruns⟩ := Runs.append_iff.1 hruns
  obtain ⟨x₂, hin, hout⟩ := Runs.append_iff.1 hruns
  obtain ⟨io, rfl⟩ := Runs.single_iff.1 hheader
  have hin := WitnessView.runs_bytesOpt h₂ hin
  have hout := WitnessView.runs_bytesOpt h₃ hout
  rw [joined_fields hjoined] at hin hout
  refine ⟨joined_fields hjoined 0, e₁, x, h₁, hlock, ?_, ?_⟩
  · have hunsafe : s₂.witnessView.isUnsafe = x.isUnsafe := by rw [hout, hin]
    exact hunsafe.symm.trans hsafe₂
  · have hfed : s₂.hashState.fed = x.fed ++ (encodeOption encodeBytes args.inputType ++
        encodeOption encodeBytes args.outputType) := by
      change s₂.witnessView.fed = _
      rw [hout, hin, ← List.append_assoc]
      rfl
    rw [hdone, if_pos rfl, hfed] at hdigests
    simpa only [List.append_assoc] using hdigests

end Transcript

end LedgerNervos
