import LedgerNervos.Sign.Steps

/-!
# What is left in the receive buffer

`witness_lock_arg_body_chunk` looks up the first fields of a multisig script in the piece that it
is called with, also when that piece is too short to hold them: then it reads what an earlier
packet has left in the buffer.  For the number of keys and the threshold this does not matter, as
both are looked up again with the next piece, and nothing is zeroed before.  For the reserved
field it does, and then the piece is empty (`StaleRead`).

`Alike` states differ in those two fields only, and there as far as it does not matter; without
stale reads the callbacks keep states alike, whatever the buffer holds.
-/

namespace LedgerNervos

variable {env : Env} {nd : NvramData} {g g' : SignState}

/-- Both computations throw, what `same` relates, or both have results, which `R` relates. -/
inductive Outcomes {ε ε' α β : Type} (same : ε → ε' → Prop) (R : α → β → Prop) :
    Except ε α → Except ε' β → Prop
  | error {x : ε} {x' : ε'} : same x x' → Outcomes same R (.error x) (.error x')
  | ok {a : α} {b : β} : R a b → Outcomes same R (.ok a) (.ok b)

namespace Outcomes

variable {ε ε' α β : Type} {same : ε → ε' → Prop} {R : α → β → Prop}

theorem of_ok {a : α} {y : Except ε' β} (h : Outcomes same R (.ok a) y) :
    ∃ b, y = .ok b ∧ R a b := by
  cases h with
  | ok h => exact ⟨_, rfl, h⟩

theorem of_error {x : ε} {y : Except ε' β} (h : Outcomes same R (.error x) y) :
    ∃ x', y = .error x' ∧ same x x' := by
  cases h with
  | error h => exact ⟨_, rfl, h⟩

theorem map {α' β' : Type} {R' : α' → β' → Prop} {f : α → α'} {f' : β → β'} {x : Except ε α}
    {y : Except ε' β} (h : Outcomes same R x y) (hR : ∀ a b, R a b → R' (f a) (f' b)) :
    Outcomes same R' (x.map f) (y.map f') := by
  cases h with
  | error h => exact .error h
  | ok h => exact .ok (hR _ _ h)

end Outcomes

namespace SignState

/-- Other values for what is known of the multisig script. -/
def withCounts (consumed : UInt32) (threshold count : UInt8) (g : SignState) : SignState :=
  { g with
    tx.witnessMultisigLockArgConsumed := consumed
    tx.witnessMultisigThreshold := threshold
    tx.witnessMultisigPubkeysCnt := count }

/-- The states differ at most in fields of the multisig script that are looked up again before
they are used. -/
def Alike (g g' : SignState) : Prop :=
  ∃ threshold count, g' = g.withCounts g.tx.witnessMultisigLockArgConsumed threshold count ∧
    (4 ≤ g.tx.witnessMultisigLockArgConsumed → count = g.tx.witnessMultisigPubkeysCnt)

theorem Alike.refl (g : SignState) : Alike g g := ⟨_, _, rfl, fun _ => rfl⟩

/-- The call looks up the reserved field of the multisig script in an empty piece. -/
def StaleRead (g : SignState) : WitnessCallback → Prop
  | .witnessLockArgBodyChunk c => g.signingMultisigInput = true ∧
      g.tx.witnessMultisigLockArgConsumed = 0 ∧ c.bytes = []
  | _ => False

/-! ### The lock of the first witness -/

/-- A piece that ends before the number of keys is too short for signatures. -/
theorem zeroSignatures_short {consumed : UInt32} {bytes : List UInt8}
    (hc : consumed.toNat + bytes.length ≤ 3) (count : UInt8) :
    zeroSignatures consumed count bytes = bytes := by
  unfold zeroSignatures signaturesIn
  rw [if_neg]
  simp only [Bool.and_eq_true, decide_eq_true_eq, not_and, Nat.not_lt]
  rintro ⟨hpos, -⟩
  have hcount : (4 + 20 * count.toUInt32 - consumed).toNat =
      4 + 20 * count.toNat - consumed.toNat := by
    have hlt := count.toNat_lt
    have h20 : (4 + 20 * count.toUInt32).toNat = 4 + 20 * count.toNat := by
      rw [UInt32.toNat_add, UInt32.toNat_mul, UInt8.toNat_toUInt32]
      simp only [UInt32.reduceToNat]
      omega
    rw [UInt32.toNat_sub_of_le, h20]
    rw [UInt32.le_iff_toNat_le, h20]
    omega
  have hpos' : 0 < count.toNat := by simpa [UInt8.lt_iff_toNat_lt] using hpos
  rw [signaturesStart, hcount]
  omega

theorem lookUp_eq {c : Chunk} {i : ℕ} (h : i < c.bytes.length) (io io' : Io) :
    lookUp io c i = lookUp io' c i := by
  simp [lookUp, List.getElem?_eq_getElem h]

/-- The number of keys after a piece. -/
def countAfter (g : SignState) (io : Io) (c : Chunk) : UInt8 :=
  if g.tx.witnessMultisigLockArgConsumed < 4 then
    lookUp io c (3 - g.tx.witnessMultisigLockArgConsumed.toNat)
  else g.tx.witnessMultisigPubkeysCnt

/-- The threshold after a piece. -/
def thresholdAfter (g : SignState) (io : Io) (c : Chunk) : UInt8 :=
  if g.tx.witnessMultisigLockArgConsumed < 3 then
    lookUp io c (2 - g.tx.witnessMultisigLockArgConsumed.toNat)
  else g.tx.witnessMultisigThreshold

/-- A piece of the lock is not refused for its reserved field. -/
theorem lockArgBodyChunk_eq {io : Io} {c : Chunk} (hmulti : g.signingMultisigInput = true)
    (hok : ¬ (g.tx.witnessMultisigLockArgConsumed = 0 ∧ lookUp io c 0 ≠ 0)) :
    (g.witnessLockArgBodyChunk io c).1 =
      (g.blake2bChunk (zeroSignatures g.tx.witnessMultisigLockArgConsumed
        (g.countAfter io c) c.bytes)).withCounts
          (g.tx.witnessMultisigLockArgConsumed + UInt32.ofNat c.length)
          (g.thresholdAfter io c) (g.countAfter io c) := by
  unfold witnessLockArgBodyChunk
  dsimp only
  rw [if_neg (by simp [hmulti]), if_neg hok]
  rfl

/-- A first piece whose reserved field is not zero is refused. -/
theorem lockArgBodyChunk_reject {io : Io} {c : Chunk} (hmulti : g.signingMultisigInput = true)
    (hbad : g.tx.witnessMultisigLockArgConsumed = 0 ∧ lookUp io c 0 ≠ 0) :
    g.witnessLockArgBodyChunk io c = (g.reject, io) := by
  unfold witnessLockArgBodyChunk
  dsimp only
  rw [if_neg (by simp [hmulti]), if_pos hbad]

/-- Without a multisig input, the lock is left out. -/
theorem lockArgBodyChunk_single {io : Io} {c : Chunk} (hmulti : g.signingMultisigInput = false) :
    g.witnessLockArgBodyChunk io c = (g, io) := by
  unfold witnessLockArgBodyChunk
  rw [if_pos (by simp [hmulti])]

/-- The lookups behind the end of a piece do not matter, unless the reserved field is looked up
there. -/
theorem Alike.lockArgBodyChunk (h : Alike g g') {c : Chunk} {io io' : Io}
    (hs : ¬ StaleRead g (.witnessLockArgBodyChunk c)) :
    Alike (g.witnessLockArgBodyChunk io c).1 (g'.witnessLockArgBodyChunk io' c).1 := by
  obtain ⟨t, n, hg', hn⟩ := h
  have hmulti' : g'.signingMultisigInput = g.signingMultisigInput := by rw [hg']; rfl
  have hconsumed : g'.tx.witnessMultisigLockArgConsumed = g.tx.witnessMultisigLockArgConsumed := by
    rw [hg']; rfl
  cases hmulti : g.signingMultisigInput with
  | false =>
    rw [lockArgBodyChunk_single hmulti, lockArgBodyChunk_single (hmulti'.trans hmulti)]
    exact ⟨t, n, hg', hn⟩
  | true =>
    have hfirst : g.tx.witnessMultisigLockArgConsumed = 0 → lookUp io' c 0 = lookUp io c 0 := by
      intro h0
      exact lookUp_eq (List.length_pos_iff.2 fun hnil => hs ⟨hmulti, h0, hnil⟩) _ _
    by_cases hbad : g.tx.witnessMultisigLockArgConsumed = 0 ∧ lookUp io c 0 ≠ 0
    · rw [lockArgBodyChunk_reject hmulti hbad, lockArgBodyChunk_reject (hmulti'.trans hmulti)
        ⟨hconsumed.trans hbad.1, by rw [hfirst hbad.1]; exact hbad.2⟩]
      exact ⟨t, n, by rw [hg']; rfl, hn⟩
    rw [lockArgBodyChunk_eq hmulti hbad, lockArgBodyChunk_eq (hmulti'.trans hmulti)
      fun h => hbad ⟨hconsumed.symm.trans h.1, by
        rw [← hfirst (hconsumed.symm.trans h.1)]; exact h.2⟩,
      hconsumed]
    -- the piece holds the number of keys, or it is too short for signatures
    set k := g.tx.witnessMultisigLockArgConsumed with hk
    have hsame : zeroSignatures k (g'.countAfter io' c) c.bytes =
          zeroSignatures k (g.countAfter io c) c.bytes ∧
        (4 ≤ k + UInt32.ofNat c.length → g'.countAfter io' c = g.countAfter io c) := by
      by_cases h4 : k < 4
      · by_cases hin : 3 - k.toNat < c.bytes.length
        · have hcount : g'.countAfter io' c = g.countAfter io c := by
            unfold countAfter
            rw [if_pos h4, hconsumed, if_pos h4]
            exact lookUp_eq hin _ _
          exact ⟨by rw [hcount], fun _ => hcount⟩
        · have hk4 : k.toNat < 4 := by rwa [UInt32.lt_iff_toNat_lt] at h4
          have hshort : k.toNat + c.bytes.length ≤ 3 := by omega
          refine ⟨by rw [zeroSignatures_short hshort, zeroSignatures_short hshort], fun hge => ?_⟩
          rw [UInt32.le_iff_toNat_le, UInt32.toNat_add, UInt32.toNat_ofNat'] at hge
          simp only [UInt32.reduceToNat, Chunk.length] at hge
          omega
      · have hcount : g'.countAfter io' c = g.countAfter io c := by
          unfold countAfter
          rw [if_neg h4, hconsumed, if_neg h4, hg']
          exact hn (UInt32.not_lt.1 h4)
        exact ⟨by rw [hcount], fun _ => hcount⟩
    refine ⟨g'.thresholdAfter io' c, g'.countAfter io' c, ?_, hsame.2⟩
    rw [hsame.1, hg']
    rfl

/-- The other calls of the parser of the first witness do not look at the multisig script. -/
theorem witnessDispatch_withCounts {e : WitnessCallback}
    (he : ∀ c, e ≠ .witnessLockArgBodyChunk c) (k : UInt32) (t n : UInt8) (io io' : Io) :
    (witnessDispatch e (g.withCounts k t n, io')).1 =
      (witnessDispatch e (g, io)).1.withCounts k t n := by
  cases e with
  | witnessLockArgBodyChunk c => exact absurd rfl (he c)
  | witnessOffsets header =>
    simp only [witnessDispatch, witnessOffsets, apply_ite (withCounts k t n)]
    rfl
  | witnessLockArgSize size =>
    simp only [witnessDispatch, witnessLockArgSize, apply_ite (withCounts k t n)]
    rfl
  | blake2bChunk bs => rfl

/-- A step that does not look at the multisig script keeps states alike. -/
theorem Alike.of_withCounts {f : SignState → SignState}
    (hf : ∀ k t n g, f (withCounts k t n g) = withCounts k t n (f g)) (h : Alike g g') :
    Alike (f g) (f g') := by
  obtain ⟨t, n, rfl, hn⟩ := h
  -- the fields are what they were, as `f` commutes with setting them to what they are
  have hself := hf g.tx.witnessMultisigLockArgConsumed g.tx.witnessMultisigThreshold
    g.tx.witnessMultisigPubkeysCnt g
  have hk := congrArg (fun g => g.tx.witnessMultisigLockArgConsumed) hself
  have hc := congrArg (fun g => g.tx.witnessMultisigPubkeysCnt) hself
  change (f g).tx.witnessMultisigLockArgConsumed = g.tx.witnessMultisigLockArgConsumed at hk
  change (f g).tx.witnessMultisigPubkeysCnt = g.tx.witnessMultisigPubkeysCnt at hc
  refine ⟨t, n, by rw [hf, hk], ?_⟩
  rw [hk, hc]
  exact hn

/-- Calls of the parser of the first witness look up the reserved field in an empty piece. -/
def StaleReads : List WitnessCallback → SignState × Io → Prop
  | [], _ => False
  | e :: es, s => StaleRead s.1 e ∨ StaleReads es (witnessDispatch e s)

theorem Alike.witnessDispatches (h : Alike g g') {es : List WitnessCallback} {io : Io}
    (io' : Io) (hs : ¬ StaleReads es (g, io)) :
    Alike (es.foldl (fun s e => witnessDispatch e s) (g, io)).1
      (es.foldl (fun s e => witnessDispatch e s) (g', io')).1 := by
  induction es generalizing g g' io io' with
  | nil => exact h
  | cons e es ih =>
    simp only [StaleReads, not_or] at hs
    refine ih ?_ _ hs.2
    by_cases he : ∃ c, e = .witnessLockArgBodyChunk c
    · obtain ⟨c, rfl⟩ := he
      exact h.lockArgBodyChunk hs.1
    · have he' : ∀ c, e ≠ .witnessLockArgBodyChunk c := fun c hc => he ⟨c, hc⟩
      have hother := h.of_withCounts (f := fun g => (witnessDispatch e (g, io)).1)
        fun k t n g => witnessDispatch_withCounts he' k t n io io
      have hio : (witnessDispatch e (g', io')).1 = (witnessDispatch e (g', io)).1 := by
        cases e with
        | witnessLockArgBodyChunk c => exact absurd rfl (he' c)
        | _ => rfl
      exact (congrArg (Alike _) hio).mpr hother

/-! ### All callbacks -/

/-- A call leads to a look at the reserved field in an empty piece. -/
def StaleCall (s : SignState × Io) : Callback → Prop
  | .processWitness c => s.1.tx.isFirstWitness = true ∧
      StaleReads (witnessReader.parse molNumMax s.1.tx.witnessStack c).evs s
  | _ => False

/-- Most callbacks do not look at the multisig script. -/
theorem dispatch_withCounts (env : Env) (nd : NvramData) {e : Callback} (hin : e ≠ .finishInputs)
    (hbegin : ∀ i, e ≠ .beginWitness i) (hproc : ∀ c, e ≠ .processWitness c)
    (k : UInt32) (t n : UInt8) (g : SignState) (io io' : Io) :
    dispatch env nd e (g.withCounts k t n, io') =
      (dispatch env nd e (g, io)).map fun s => (s.1.withCounts k t n, io') := by
  cases e
  case finishInputs => exact absurd rfl hin
  case beginWitness i => exact absurd rfl (hbegin i)
  case processWitness c => exact absurd rfl (hproc c)
  case computeNewOffsetsToHash => rfl
  case setSignPath =>
    have h : (g.withCounts k t n).setSignPath env = (g.setSignPath env).map (withCounts k t n) := by
      unfold setSignPath
      change (prepLockArg env g.tempKey >>= _) = Except.map _ (prepLockArg env g.tempKey >>= _)
      cases prepLockArg env g.tempKey <;> rfl
    simp only [dispatch, h]
    cases g.setSignPath env <;> rfl
  case setChangePath =>
    have h : (g.withCounts k t n).setChangePath env =
        (g.setChangePath env).map (withCounts k t n) := by
      unfold setChangePath
      change (prepLockArg env g.tempKey >>= _) = Except.map _ (prepLockArg env g.tempKey >>= _)
      cases prepLockArg env g.tempKey <;> rfl
    simp only [dispatch, h]
    cases g.setChangePath env <;> rfl
  case scriptArgChunk bs =>
    cases h : g.lockArgCmp <;> have h' : (g.withCounts k t n).lockArgCmp = _ := h <;>
      simp only [dispatch, scriptArgChunk, Except.map, window, h, h',
        apply_ite (withCounts k t n)] <;>
      rfl
  case finalizeRawTransaction =>
    cases h : g.maybe.v.tag <;> have h' : (g.withCounts k t n).maybe.v.tag = _ := h <;>
      simp only [dispatch, finalizeRawTransaction, Except.map, h, h',
        apply_ite (withCounts k t n)] <;> rfl
  case outputEnd =>
    have h : (g.withCounts k t n).outputEnd env = (g.outputEnd env).map (withCounts k t n) := by
      unfold outputEnd
      simp only [apply_ite (Except.map (withCounts k t n))]
      rfl
    simp only [dispatch, h]
    cases g.outputEnd env <;> rfl
  case outputsEnd =>
    have h : (g.withCounts k t n).outputsEnd = g.outputsEnd.map (withCounts k t n) := by
      unfold outputsEnd
      simp only [apply_ite (Except.map (withCounts k t n))]
      rfl
    simp only [dispatch, h]
    cases g.outputsEnd <;> rfl
  all_goals
    simp only [dispatch, Except.map, inputsStart, inputStart, inputSaveIndex,
      contextBlake2bChunk, finishContextTxn, inputContextStartIdx, cellCapacity,
      cellLockCodeHash, cellScriptHashType, scriptArgStartInput, inputLockArgEnd,
      cellTypeCodeHash, cellTypeArgLength, setCellDataSize, checkCellDataDataChunk,
      finishInputCellData, blake2bInputCount, outputStart, validateOutputDataStart,
      finishOutputCellData, initBip32, bip32Component, hashWitnessLength, processWitnessEnd,
      finalizeWitnesses, setInputCount, chooseDao, apply_ite (withCounts k t n)]
    rfl

/-- A piece of a witness keeps states alike. -/
theorem Alike.processWitness (h : Alike g g') {c : Chunk} {io io' : Io}
    (hs : ¬ StaleCall (g, io) (.processWitness c)) :
    Alike (g.processWitness io c).1 (g'.processWitness io' c).1 := by
  have hfirst : g'.tx.isFirstWitness = g.tx.isFirstWitness := by
    obtain ⟨t, n, rfl, -⟩ := h
    rfl
  have hstack : g'.tx.witnessStack = g.tx.witnessStack := by
    obtain ⟨t, n, rfl, -⟩ := h
    rfl
  unfold SignState.processWitness
  cases hf : g.tx.isFirstWitness with
  | false =>
    rw [if_neg (by simp), if_neg (by simp [hfirst, hf])]
    exact h.of_withCounts (f := fun g => g.blake2bChunk c.bytes) fun _ _ _ _ => rfl
  | true =>
    have hread : ¬ StaleReads (witnessReader.parse molNumMax g.tx.witnessStack c).evs (g, io) :=
      fun hr => hs ⟨hf, hr⟩
    rw [if_pos rfl, if_pos (hfirst.trans hf), hstack]
    obtain ⟨t, n, hg', hn⟩ := h.witnessDispatches io' hread
    dsimp only
    rw [hg']
    split_ifs <;> exact ⟨t, n, rfl, hn⟩

/-- Every callback keeps states alike, and throws the same. -/
theorem Alike.dispatch (env : Env) (nd : NvramData) (h : Alike g g') {e : Callback} {io : Io}
    (io' : Io) (hs : ¬ StaleCall (g, io) e) :
    Outcomes Eq (fun s s' => Alike s.1 s'.1) (dispatch env nd e (g, io))
      (dispatch env nd e (g', io')) := by
  by_cases hin : e = .finishInputs
  · subst hin
    obtain ⟨t, n, rfl, -⟩ := h
    exact .ok (.refl _)
  by_cases hbegin : ∃ i, e = .beginWitness i
  · obtain ⟨i, rfl⟩ := hbegin
    refine .ok ?_
    obtain ⟨t, n, rfl, hn⟩ := h
    unfold beginWitness
    dsimp only
    split_ifs with hi
    · exact ⟨t, n, rfl, hn⟩
    · exact .refl _
  by_cases hproc : ∃ c, e = .processWitness c
  · obtain ⟨c, rfl⟩ := hproc
    exact .ok (h.processWitness hs)
  have hcomm (g : SignState) (io io' : Io) (k t n) := dispatch_withCounts env nd
    hin (fun i hi => hbegin ⟨i, hi⟩) (fun c hc => hproc ⟨c, hc⟩) k t n g io io'
  obtain ⟨t, n, rfl, hn⟩ := h
  rw [hcomm g io io']
  have hself := hcomm g io io g.tx.witnessMultisigLockArgConsumed g.tx.witnessMultisigThreshold
    g.tx.witnessMultisigPubkeysCnt
  change LedgerNervos.dispatch env nd e (g, io) = _ at hself
  cases hd : LedgerNervos.dispatch env nd e (g, io) with
  | error x => exact .error rfl
  | ok s =>
    obtain ⟨g₁, io₁⟩ := s
    rw [hd] at hself
    simp only [Except.map, Except.ok.injEq, Prod.mk.injEq] at hself
    have hk := congrArg (fun g => g.tx.witnessMultisigLockArgConsumed) hself.1
    have hc := congrArg (fun g => g.tx.witnessMultisigPubkeysCnt) hself.1
    change g₁.tx.witnessMultisigLockArgConsumed = g.tx.witnessMultisigLockArgConsumed at hk
    change g₁.tx.witnessMultisigPubkeysCnt = g.tx.witnessMultisigPubkeysCnt at hc
    refine .ok ⟨t, n, by rw [hk], ?_⟩
    rw [hk, hc]
    exact hn

/-- Calls of callbacks lead to a look at the reserved field in an empty piece. -/
def StaleCalls (env : Env) (nd : NvramData) : List Callback → SignState × Io → Prop
  | [], _ => False
  | e :: es, s => StaleCall s e ∨
      ∃ s', LedgerNervos.dispatch env nd e s = .ok s' ∧ StaleCalls env nd es s'

theorem Alike.runCallbacks (h : Alike g g') {es : List Callback} {io : Io} (io' : Io)
    (hs : ¬ StaleCalls env nd es (g, io)) :
    Outcomes (fun x x' => x.1 = x'.1) (fun s s' => Alike s.1 s'.1)
      (runCallbacks env nd es (g, io)) (runCallbacks env nd es (g', io')) := by
  induction es generalizing g g' io io' with
  | nil => exact .ok h
  | cons e es ih =>
    simp only [StaleCalls, not_or, not_exists, not_and] at hs
    have hd := h.dispatch env nd io' hs.1
    unfold LedgerNervos.runCallbacks
    cases hx : LedgerNervos.dispatch env nd e (g, io) with
    | error x =>
      rw [hx] at hd
      obtain ⟨x', hx', rfl⟩ := hd.of_error
      rw [hx']
      exact .error rfl
    | ok s =>
      rw [hx] at hd
      obtain ⟨s', hx', hs'⟩ := hd.of_ok
      rw [hx']
      exact ih hs' s'.2 (hs.2 s hx)

theorem Alike.afterParse (h : Alike g g') (last secureOnly : Bool) (rv : Rv) :
    Outcomes Eq Alike (g.afterParse last secureOnly rv) (g'.afterParse last secureOnly rv) := by
  obtain ⟨t, n, rfl, hn⟩ := h
  have hmaybe : (g.withCounts g.tx.witnessMultisigLockArgConsumed t n).maybe = g.maybe := rfl
  unfold SignState.afterParse
  rw [hmaybe]
  dsimp only
  split_ifs <;> first | exact .error rfl | exact .ok ⟨t, n, rfl, hn⟩

theorem Alike.signComplete (h : Alike g g') (instruction : UInt8) :
    g'.signComplete nd instruction = g.signComplete nd instruction := by
  obtain ⟨t, n, rfl, hn⟩ := h
  rfl

end SignState

/-! ### Packets -/

namespace ApduSignState

variable {s s' : ApduSignState} {io io' : Io} {cdata : List UInt8}

/-- The states of the callbacks are alike, and the parsers are in the same state. -/
def Alike (s s' : ApduSignState) : Prop :=
  s.g.Alike s'.g ∧ s'.transactionStack = s.transactionStack

theorem Alike.refl (s : ApduSignState) : s.Alike s := ⟨.refl _, rfl⟩

/-- What a packet makes the callbacks look up, when it is parsed in this state, includes the
reserved field in an empty piece. -/
def StaleParse (env : Env) (nd : NvramData) (s : ApduSignState) (cdata : List UInt8) (io : Io) :
    Prop :=
  SignState.StaleCalls env nd
    (transactionReader.parse molNumMax s.transactionStack ⟨offsetCdata, cdata⟩).evs (s.g, io)

/-- How the handler of a packet ends in alike states: the same answer, and alike states again. -/
abbrev SameAnswer : Except (Exn × Io) (Answer × ApduSignState × Io) →
    Except (Exn × Io) (Answer × ApduSignState × Io) → Prop :=
  Outcomes (fun x x' => x.1 = x'.1) fun r r' => r'.1 = r.1 ∧ r.2.1.Alike r'.2.1

theorem Alike.parsePacket (h : s.Alike s') {last secureOnly : Bool}
    (hs : ¬ StaleParse env nd s cdata io) :
    Outcomes (fun x x' => x.1 = x'.1) (fun r r' => r.1.Alike r'.1)
      (s.parsePacket env nd last secureOnly cdata io)
      (s'.parsePacket env nd last secureOnly cdata io') := by
  obtain ⟨hg, hstack⟩ := h
  have hhard : s'.g.maybe.hardReject = s.g.maybe.hardReject := by
    obtain ⟨t, n, h, -⟩ := hg
    rw [h]
    rfl
  unfold ApduSignState.parsePacket
  rw [hhard, hstack]
  split_ifs
  · exact .error rfl
  dsimp only
  have hrun := hg.runCallbacks io' hs
  cases hr : runCallbacks env nd
      (transactionReader.parse molNumMax s.transactionStack ⟨offsetCdata, cdata⟩).evs
      (s.g, io) with
  | error x =>
    rw [hr] at hrun
    obtain ⟨x', hr', hx⟩ := hrun.of_error
    rw [hr']
    exact .error hx
  | ok r =>
    rw [hr] at hrun
    obtain ⟨r', hr', hr⟩ := hrun.of_ok
    rw [hr']
    dsimp only
    have hafter := hr.afterParse last secureOnly (transactionReader.parse molNumMax
      s.transactionStack ⟨offsetCdata, cdata⟩).rv
    cases ha : r.1.afterParse last secureOnly (transactionReader.parse molNumMax
        s.transactionStack ⟨offsetCdata, cdata⟩).rv with
    | error x =>
      rw [ha] at hafter
      obtain ⟨x', ha', hx⟩ := hafter.of_error
      rw [ha']
      exact .error hx
    | ok g =>
      rw [ha] at hafter
      obtain ⟨g', ha', hg'⟩ := hafter.of_ok
      rw [ha']
      exact .ok ⟨hg', rfl⟩

theorem Alike.answer (h : s.Alike s') (instruction : UInt8) (last : Bool) :
    SameAnswer (s.answer nd instruction last io) (s'.answer nd instruction last io') := by
  have hvalid : s'.g.maybe.isValid = s.g.maybe.isValid := by
    obtain ⟨⟨t, n, h, -⟩, -⟩ := h
    rw [h]
    rfl
  unfold ApduSignState.answer
  rw [hvalid, h.1.signComplete]
  split_ifs
  · cases s.g.signComplete nd instruction with
    | error x => exact .error rfl
    | ok p => exact .ok ⟨rfl, h⟩
  · exact .ok ⟨rfl, h⟩

/-- A packet is answered alike in alike states, and when it is the first one, in any states. -/
theorem handleApdu_sameAnswer (instruction : UInt8) {p1 : UInt8} (io' : Io)
    (h : p1 &&& p1Mask = p1First ∨ s.Alike s')
    (hfirst : p1 &&& p1Mask = p1First → ¬ StaleParse env nd {} cdata io)
    (hnext : p1 &&& p1Mask = p1Next → ¬ StaleParse env nd s cdata io) :
    SameAnswer (s.handleApdu env nd instruction p1 cdata io)
      (s'.handleApdu env nd instruction p1 cdata io') := by
  have hseq {x x' : Except (Exn × Io) (ApduSignState × Io)} {last : Bool}
      (hx : Outcomes (fun x x' => x.1 = x'.1) (fun r r' => r.1.Alike r'.1) x x') :
      SameAnswer (x >>= fun r => r.1.answer nd instruction last r.2)
        (x' >>= fun r => r.1.answer nd instruction last r.2) := by
    cases hx with
    | error hx => exact .error hx
    | ok hx => exact hx.answer _ _
  unfold ApduSignState.handleApdu
  dsimp only
  split_ifs with hlen h1 h2
  · exact .error rfl
  · exact hseq ((Alike.refl {}).parsePacket (hfirst h1))
  · exact hseq ((h.resolve_left h1).parsePacket (hnext h2))
  · exact hseq (.ok (h.resolve_left h1))

/-- Alike states sign the same with the same key. -/
theorem Alike.performSignature (h : s.Alike s') (sendHash : Bool) :
    performSignature env sendHash s'.g = performSignature env sendHash s.g := by
  obtain ⟨⟨t, n, hg, -⟩, -⟩ := h
  rw [hg]
  rfl

end ApduSignState

end LedgerNervos
