import LedgerNervos.Sign.FirstWitness
import LedgerNervos.Sign.TransactionHash

/-!
# The digest of a transaction without multisig inputs

The lock of the first witness is where the signature goes, so it is not hashed as it has arrived:
65 zeros are hashed in its place.  The header of the witness is hashed before the lock is known
but for its size, shifted by the difference in length; this is a number that may be negative, and
it is added modulo `2 ^ 32`.  An empty witness counts as one without any arguments.
-/

namespace LedgerNervos

variable {env : Env} {P : NvramData → Prop} {g : SignState}

/-- The arguments of the first witness as they are hashed. -/
def WitnessArgs.signed (args : WitnessArgs) : WitnessArgs :=
  { args with lock := some (List.replicate 65 0) }

/-- The usual record is that of a witness without any arguments. -/
theorem selfWitness_eq :
    selfWitness = witnessRecord (WitnessArgs.signed ⟨none, none, none⟩).encode := by
  decide

theorem u64le_ofNat {n : ℕ} (hn : n < 2 ^ 32) :
    u64le (UInt32.ofNat n).toUInt64 = u64le (UInt64.ofNat n) := by
  congr 1
  apply UInt64.toNat_inj.1
  rw [UInt32.toNat_toUInt64, UInt32.toNat_ofNat', UInt64.toNat_ofNat', Nat.mod_eq_of_lt hn,
    Nat.mod_eq_of_lt (by omega)]

/-- The header that is hashed is that of the fields with `lock'` for `lock`: the sizes and offsets
are taken modulo `2 ^ 32`, and so is the shift. -/
theorem rewrittenHeader_eq {lock inputType outputType lock' : List UInt8}
    (h : lock'.length = 69) :
    rewrittenHeader false (headerWords [lock, inputType, outputType]) =
      u64le (UInt32.ofNat (encodeParts [lock', inputType, outputType]).length).toUInt64 ++
        ((headerWords [lock', inputType, outputType]).flatMap u32le ++ zeroWitness) := by
  have hwords (l : List UInt8) : headerWords [l, inputType, outputType] =
      [UInt32.ofNat (encodeParts [l, inputType, outputType]).length, 16,
        16 + UInt32.ofNat l.length,
        16 + UInt32.ofNat l.length + UInt32.ofNat inputType.length] := by
    rw [length_encodeParts]
    simp [headerWords, offsetsFrom]
  have htotal (l : List UInt8) : UInt32.ofNat (encodeParts [l, inputType, outputType]).length =
      16 + UInt32.ofNat l.length + UInt32.ofNat inputType.length +
        UInt32.ofNat outputType.length := by
    rw [length_encodeParts]
    simp
    grind
  have hheader (a b c d : UInt32) : rewrittenHeader false [a, b, c, d] =
      u64le (a + (69 - (c - b))).toUInt64 ++ ([a + (69 - (c - b)), b, c + (69 - (c - b)),
        d + (69 - (c - b))].flatMap u32le ++ zeroWitness) := by
    rw [rewrittenHeader]
    simp
  have hsize : UInt32.ofNat lock'.length = 69 := congrArg UInt32.ofNat h
  have hshift (x : UInt32) : 69 - (16 + x - 16) = 69 - x := by grind
  -- the total size, and the offsets of the two fields behind the lock
  have hsum (x y z : UInt32) : 16 + x + y + z + (69 - x) = 16 + 69 + y + z := by grind
  have hfirst (x : UInt32) : 16 + x + (69 - x) = 16 + 69 := by grind
  have hsecond (x y : UInt32) : 16 + x + y + (69 - x) = 16 + 69 + y := by grind
  rw [hwords, hwords, hheader, htotal lock, htotal lock', hsize, hshift, hsum, hfirst, hsecond]

/-- The header that is hashed is that of the arguments as they are hashed. -/
theorem rewrittenHeader_signed {args : WitnessArgs} (hlen : args.signed.encode.length < 2 ^ 32) :
    rewrittenHeader false (headerWords args.parts) ++
        (encodeOption encodeBytes args.inputType ++ encodeOption encodeBytes args.outputType) =
      witnessRecord args.signed.encode := by
  have hzero : zeroWitness = encodeBytes (List.replicate 65 0) := by decide
  have hwords : rewrittenHeader false (headerWords args.parts) =
      u64le (UInt32.ofNat args.signed.encode.length).toUInt64 ++
        ((headerWords args.signed.parts).flatMap u32le ++ zeroWitness) := 
    rewrittenHeader_eq (by simp [WitnessArgs.signed, encodeOption])
  rw [hwords, u64le_ofNat hlen, witnessRecord, List.append_assoc, hzero]
  congr 1
  rw [WitnessArgs.encode, encodeParts_eq]
  simp [WitnessArgs.parts, WitnessArgs.signed, encodeOption]

/-! ### The digest -/

/-- The digest, when there is no multisig input. -/
theorem Transcript.Cut.digest_signed {v : AnnotatedTransactionVal} {t : Transcript env P v}
    {cs : List Chunk} {args : WitnessArgs} {ws : List (List UInt8)} (h : t.Cut cs)
    (hw : v.witnesses = some (args.encode :: ws)) (hargs : args.encode.length < 2 ^ 32)
    (hlen : args.signed.encode.length < 2 ^ 32) (hmulti : t.last.signingMultisigInput = false)
    (hok : t.last.maybe.hardReject = false) (hsafe : t.last.maybe.isUnsafe = false) :
    t.Digests (t.last.tx.transactionHash.1 ++
      (args.signed.encode :: ws).flatMap witnessRecord) := by
  obtain ⟨-, es, x, hlock, hruns, -, hdigests⟩ := h.digest_args hw hargs hok hsafe
  obtain rfl := WitnessView.runs_lock hlock hmulti hruns
  rw [List.flatMap_cons, ← rewrittenHeader_signed hlen]
  rw [hmulti] at hdigests
  simpa only [List.append_assoc] using hdigests

/-- The digest, when the first witness is empty. -/
theorem Transcript.Cut.digest_empty {v : AnnotatedTransactionVal} {t : Transcript env P v}
    {cs : List Chunk} {ws : List (List UInt8)} (h : t.Cut cs)
    (hw : v.witnesses = some ([] :: ws)) (hok : t.last.maybe.hardReject = false)
    (hsafe : t.last.maybe.isUnsafe = false) :
    t.Digests (t.last.tx.transactionHash.1 ++
      ((WitnessArgs.signed ⟨none, none, none⟩).encode :: ws).flatMap witnessRecord) := by
  rw [List.flatMap_cons, ← selfWitness_eq]
  exact h.digest_missing hw rfl hok hsafe

/-- The first witness, also as it is hashed, is no longer than the transaction. -/
theorem AnnotatedTransaction.length_signed {a : AnnotatedTransaction} {args : WitnessArgs}
    {ws : List (List UInt8)} (ha : a.witnesses = args.encode :: ws) :
    args.encode.length ≤ a.encode.length ∧ args.signed.encode.length ≤ a.encode.length := by
  have hraw : 28 ≤ a.raw.encode.length := by
    rw [AnnotatedRawTransaction.encode, length_encodeParts]
    exact Nat.le_add_right _ _
  have hwitnesses : 12 + args.encode.length ≤ (encodeData a.witnesses).length := by
    rw [ha, encodeData, List.map_cons, length_encodeParts, List.length_cons, List.flatten_cons,
      List.length_append, length_encodeBytes]
    omega
  have hwhole : a.encode.length = 24 + (a.parts.flatten).length := by
    rw [AnnotatedTransaction.encode, length_encodeParts]
    rfl
  have hsigned : args.signed.encode.length ≤ args.encode.length + 69 := by
    simp only [WitnessArgs.encode, length_encodeParts, WitnessArgs.parts, WitnessArgs.signed,
      List.length_cons, List.length_nil, List.flatten_cons, List.flatten_nil, List.length_append,
      encodeOption, Option.map_some, Option.getD_some, length_encodeBytes, List.length_replicate]
    omega
  simp only [AnnotatedTransaction.parts, List.flatten_cons, List.flatten_nil, List.length_append,
    List.length_nil, length_num, encodeBip32, length_encodeFixVec] at hwhole
  omega

/-- **Sighash digest.**  When the packets hold the encoding of a transaction without multisig
inputs, whose first witness is empty or encodes arguments of any kind, the digest that is signed is
the hash of the transaction hash and of the records of the witnesses, with 65 zeros for the lock of
the first one. -/
theorem sighash_digest (env : Env) (instruction : UInt8) (ps : List Packet) (prompt : Prompt)
    (g : SignState) (a : AnnotatedTransaction) (args : WitnessArgs) (w : List UInt8)
    (ws : List (List UInt8)) (hlen : a.encode.length < 2 ^ 32)
    (hcut : joined (ps.map Packet.chunk) = a.encode) (hwitnesses : a.witnesses = w :: ws)
    (hw : w = args.encode ∨ w = [] ∧ args = ⟨none, none, none⟩)
    (h : signSession env instruction ps = some (prompt, g))
    (hsingle : g.signingMultisigInput = false) :
    g.tx.finalHash = env.blake2b (g.tx.transactionHash.1 ++
      (args.signed.encode :: ws).flatMap witnessRecord) := by
  obtain ⟨v, t, haccepted, hcanonical⟩ :=
    signSession_canonical (P := fun _ => True) (fun _ _ => trivial) hlen hcut h
  have hv : v.witnesses = some (w :: ws) := by
    rw [hcanonical.value]
    change vecValue a.witnesses = _
    rw [hwitnesses]
    exact if_neg (by simp)
  have hlast := haccepted.last
  obtain rfl | ⟨rfl, rfl⟩ := hw
  · obtain ⟨hargs, hsigned⟩ := a.length_signed hwitnesses
    have hdigest := hcanonical.cut.digest_signed hv (Nat.lt_of_le_of_lt hargs hlen)
      (Nat.lt_of_le_of_lt hsigned hlen) (by rwa [hlast] at hsingle) haccepted.hardReject
      haccepted.isUnsafe
    rw [hlast]
    exact hdigest.finalHash
  · have hdigest := hcanonical.cut.digest_empty hv haccepted.hardReject haccepted.isUnsafe
    rw [hlast]
    exact hdigest.finalHash

/-- Arguments with a lock and an input type. -/
def lockedArgs : WitnessArgs := ⟨some [1, 2, 3], some [4], none⟩

/-- A transaction with two witnesses. -/
def witnessedPayment : AnnotatedTransaction :=
  { payment with witnesses := [lockedArgs.encode, [5]] }

theorem sighash_digest_witnessedPayment :
    ∃ prompt g, signSession Env.reference 0x03 (cutPackets 3 witnessedPayment.encode) =
        some (prompt, g) ∧
      g.tx.finalHash = Env.reference.blake2b (g.tx.transactionHash.1 ++
        [lockedArgs.signed.encode, [5]].flatMap witnessRecord) := by
  have hsome : (signSession Env.reference 0x03
      (cutPackets 3 witnessedPayment.encode)).isSome = true := by decide +kernel
  obtain ⟨⟨prompt, g⟩, h⟩ := Option.isSome_iff_exists.1 hsome
  have hsingle : g.signingMultisigInput = false := by
    have hall : (signSession Env.reference 0x03 (cutPackets 3 witnessedPayment.encode)).all
        (fun x => !x.2.signingMultisigInput) = true := by decide +kernel
    rw [h] at hall
    simpa using hall
  have hlen : witnessedPayment.encode.length ≤ 3 * maxApduSize := by decide +kernel
  exact ⟨prompt, g, h, sighash_digest Env.reference 0x03 _ prompt g witnessedPayment lockedArgs
    lockedArgs.encode [[5]] (Nat.lt_of_le_of_lt hlen (by decide)) (joined_cutPackets 3 hlen) rfl
    (.inl rfl) h hsingle⟩

end LedgerNervos
