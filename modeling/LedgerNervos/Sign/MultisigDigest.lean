import LedgerNervos.Sign.FirstWitness
import LedgerNervos.Sign.Sighash

/-!
# The digest of a transaction with a multisig input

With a multisig input, the lock of the first witness is hashed with the script it begins with, and
zeros are to be hashed in place of the signatures behind the script.  This is done piece by piece,
and only in the piece that the script ends in: the pieces that start behind the end of the script
are hashed as they are.  So the digest depends on where the packets are cut, unless the signatures
are zeros already.
-/

namespace LedgerNervos

variable {env : Env} {P : NvramData → Prop} {g : SignState}

open Callback (annotatedTransactionCallbacks)
open SignState (lookUp signaturesIn signaturesStart zeroSignatures)

/-! ### Pieces of a lock -/

theorem toNat_signaturesStart {q : ℕ} (hq : q < 2 ^ 32) (count : UInt8) :
    (signaturesStart (UInt32.ofNat q) count).toNat =
      (2 ^ 32 - q + (4 + 20 * count.toNat)) % 2 ^ 32 := by
  have hcount := count.toNat_lt
  simp only [signaturesStart, UInt32.toNat_sub, UInt32.toNat_add, UInt32.toNat_mul,
    UInt8.toNat_toUInt32, UInt32.toNat_ofNat', UInt32.reduceToNat]
  omega

/-- The bytes as they are hashed: what is behind the first `n` of them is replaced by zeros. -/
def zeroedBehind (n : ℕ) (bs : List UInt8) : List UInt8 :=
  bs.take n ++ List.replicate (bs.length - n) 0

theorem length_zeroedBehind (n : ℕ) (bs : List UInt8) : (zeroedBehind n bs).length = bs.length := by
  rw [zeroedBehind, List.length_append, List.length_take, List.length_replicate]
  omega

theorem zeroedBehind_of_le {n : ℕ} {bs : List UInt8} (h : bs.length ≤ n) :
    zeroedBehind n bs = bs := by
  rw [zeroedBehind, List.take_of_length_le h, Nat.sub_eq_zero_of_le h]
  exact List.append_nil bs

theorem signaturesIn_iff {q n : ℕ} (count : UInt8) (hlen : q + n < 2 ^ 32) :
    signaturesIn (UInt32.ofNat q) count n = true ↔
      0 < count.toNat ∧ q < 4 + 20 * count.toNat ∧ 4 + 20 * count.toNat < q + n := by
  have hstart := toNat_signaturesStart (by omega : q < 2 ^ 32) count
  have hlt := count.toNat_lt
  have hpos : 0 < count ↔ 0 < count.toNat := UInt8.lt_iff_toNat_lt
  have hpos' : 0 < signaturesStart (UInt32.ofNat q) count ↔
      0 < (signaturesStart (UInt32.ofNat q) count).toNat := UInt32.lt_iff_toNat_lt
  simp only [signaturesIn, Bool.and_eq_true, decide_eq_true_eq, hpos, hpos', hstart]
  omega

/-- Where the zeros of a lock with `count` keys begin, behind its script; with no keys, there are no
zeros at all, and this is 0. -/
def zerosFrom (count : UInt8) : ℕ := if count.toNat = 0 then 0 else 4 + 20 * count.toNat

/-- A piece of a lock, of which `q` bytes came before: what is behind the multisig script is
replaced by zeros, but only when the piece starts in the script. -/
theorem zeroSignatures_eq {q : ℕ} {count : UInt8} {bs : List UInt8}
    (hlen : q + bs.length < 2 ^ 32) :
    zeroSignatures (UInt32.ofNat q) count bs =
      if q < zerosFrom count then zeroedBehind (zerosFrom count - q) bs else bs := by
  have hin := signaturesIn_iff count hlen
  have hlt := count.toNat_lt
  rw [zeroSignatures, zerosFrom]
  by_cases hcount : count.toNat = 0
  · rw [if_neg (mt hin.1 (by omega)), if_pos hcount, if_neg (Nat.not_lt_zero q)]
  rw [if_neg hcount]
  by_cases hq : q < 4 + 20 * count.toNat
  · have hstart : (signaturesStart (UInt32.ofNat q) count).toNat = 4 + 20 * count.toNat - q := by
      rw [toNat_signaturesStart (by omega)]
      omega
    rw [if_pos hq, hstart]
    split_ifs with h
    · rfl
    · exact (zeroedBehind_of_le (by have := mt hin.2 h; omega)).symm
  · rw [if_neg hq, if_neg (mt hin.1 fun h => hq h.2.1)]

/-- A piece that ends before the number of keys is hashed as it is, whatever has been looked up for
this number. -/
theorem zeroSignatures_short {q : ℕ} (count : UInt8) {bs : List UInt8} (hlen : q + bs.length ≤ 3) :
    zeroSignatures (UInt32.ofNat q) count bs = bs := by
  have hin := signaturesIn_iff count (by omega : q + bs.length < 2 ^ 32)
  rw [zeroSignatures, if_neg (mt hin.1 (by omega))]

/-- A lock as it is hashed: the pieces follow `q` bytes, and the multisig script has `len` bytes. -/
def hashedLock (len : ℕ) : ℕ → List Chunk → List UInt8
  | _, [] => []
  | q, c :: cs =>
    (if q < len then zeroedBehind (len - q) c.bytes else c.bytes) ++
      hashedLock len (q + c.length) cs

/-- Behind the script, a lock is hashed as it is. -/
theorem hashedLock_of_le {len q : ℕ} (h : len ≤ q) (cs : List Chunk) :
    hashedLock len q cs = joined cs := by
  induction cs generalizing q with
  | nil => rfl
  | cons c cs ih =>
    rw [hashedLock, if_neg (Nat.not_lt.2 h), ih (Nat.le_add_right_of_le h), joined_cons]

theorem zeroedBehind_append (n : ℕ) (xs ys : List UInt8) :
    zeroedBehind n (xs ++ ys) = zeroedBehind n xs ++ zeroedBehind (n - xs.length) ys := by
  rcases Nat.le_total xs.length n with h | h
  · rw [zeroedBehind_of_le h, zeroedBehind, zeroedBehind, List.take_append,
      List.take_of_length_le h, List.append_assoc, List.length_append]
    congr 3
    omega
  · rw [zeroedBehind, zeroedBehind, Nat.sub_eq_zero_of_le h, zeroedBehind,
      List.take_append_of_le_length h, List.take_zero, List.nil_append, List.append_assoc,
      List.replicate_append_replicate, List.length_append]
    congr 2
    omega

theorem zeroedBehind_zero_eq_iff {bs : List UInt8} : bs = zeroedBehind 0 bs ↔ ∀ b ∈ bs, b = 0 := by
  rw [zeroedBehind, List.take_zero, List.nil_append, Nat.sub_zero, List.eq_replicate_iff]
  exact and_iff_right rfl

/-- The signatures are replaced by zeros if and only if all bytes are zeros already that follow a
cut at or behind the end of the script. -/
theorem hashedLock_eq_iff {len q : ℕ} {cs : List Chunk} :
    hashedLock len q cs = zeroedBehind (len - q) (joined cs) ↔
      ∀ n, CutAt cs n → len ≤ q + n → ∀ b ∈ (joined cs).drop n, b = 0 := by
  induction cs generalizing q with
  | nil => simp [hashedLock, zeroedBehind]
  | cons c cs ih =>
    by_cases hq : q < len
    · have hsub : len - q - c.length = len - (q + c.length) := Nat.sub_sub ..
      have hsplit : zeroedBehind (len - q) (joined (c :: cs)) =
          zeroedBehind (len - q) c.bytes ++ zeroedBehind (len - (q + c.length)) (joined cs) := by
        rw [joined_cons, zeroedBehind_append]
        exact congrArg (fun n => _ ++ zeroedBehind n _) hsub
      rw [hashedLock, if_pos hq, hsplit, List.append_right_inj, ih]
      constructor
      · intro h n hcut hle
        rcases cutAt_cons.1 hcut with rfl | ⟨hn, hcut⟩
        · omega
        · have hle' : len ≤ q + c.length + (n - c.length) := by omega
          rw [joined_cons, List.drop_append, List.drop_of_length_le hn, List.nil_append]
          exact h _ hcut hle'
      · intro h n hcut hle
        have hall := h (c.length + n) (cutAt_cons.2 (.inr ⟨Nat.le_add_right _ _, by
          rwa [Nat.add_sub_cancel_left]⟩)) (by omega)
        rwa [joined_cons, ← List.drop_drop, Chunk.length, List.drop_left] at hall
    · -- the script has ended, and nothing is replaced any more
      have hle := Nat.not_lt.1 hq
      rw [hashedLock_of_le hle, Nat.sub_eq_zero_of_le hle, zeroedBehind_zero_eq_iff]
      constructor
      · intro h n _ _ b hb
        exact h b (List.mem_of_mem_drop hb)
      · intro h
        exact h 0 (.zero _) (Nat.le_add_right_of_le hle)

namespace WitnessView

variable {x x' : WitnessView}

/-- No callback of the inner parser makes a transaction safe. -/
theorem Step.isUnsafe {e : WitnessCallback} (h : Step x e x') (hsafe : x'.isUnsafe = false) :
    x.isUnsafe = false := by
  obtain ⟨io, rfl⟩ := h
  cases e with
  | witnessOffsets header => exact hsafe
  | blake2bChunk bs => exact hsafe
  | witnessLockArgSize size =>
    rw [act] at hsafe
    split_ifs at hsafe
    all_goals exact hsafe
  | witnessLockArgBodyChunk c =>
    rw [act, lockPiece] at hsafe
    split_ifs at hsafe
    all_goals exact hsafe

/-- While a multisig lock is read, of which there have been `q` bytes. -/
structure ReadingLock (lock : List UInt8) (q : ℕ) (x : WitnessView) : Prop where
  multisig : x.multisig = true
  consumed : x.consumed = UInt32.ofNat q
  count : 4 ≤ q → x.count = lock.getD 3 0

/-- The number of keys, when a piece of the lock has been read. -/
theorem ReadingLock.count_piece {lock rest : List UInt8} {q : ℕ} (h : ReadingLock lock q x)
    {c : Chunk} (hq : q < 2 ^ 32) (hc : lock.drop q = c.bytes ++ rest) (hlen : 4 ≤ q + c.length)
    (io : Io) : (if x.consumed < 4 then lookUp io c (3 - x.consumed.toNat) else x.count) =
      lock.getD 3 0 := by
  have hnat : x.consumed.toNat = q := by
    rw [h.consumed, UInt32.toNat_ofNat', Nat.mod_eq_of_lt hq]
  have hlt : x.consumed < 4 ↔ q < 4 := by
    rw [UInt32.lt_iff_toNat_lt, hnat]
    rfl
  by_cases hfour : q < 4
  · have hin : 3 - q < c.bytes.length := by
      rw [Chunk.length] at hlen
      omega
    have hdrop : (lock.drop q)[3 - q]? = lock[3]? := by
      rw [List.getElem?_drop]
      congr 1
      omega
    have hkeys : lock.getD 3 0 = c.bytes[3 - q] := by
      rw [List.getD_eq_getElem?_getD, ← hdrop, hc, List.getElem?_append_left hin,
        List.getElem?_eq_getElem hin]
      rfl
    rw [if_pos (hlt.2 hfour), lookUp, hnat, List.getElem?_eq_getElem hin, hkeys]
    rfl
  · rw [if_neg (mt hlt.1 hfour)]
    exact h.count (Nat.not_lt.1 hfour)

/-- A piece of a multisig lock. -/
theorem ReadingLock.piece {lock rest : List UInt8} {q : ℕ} (h : ReadingLock lock q x) {c : Chunk}
    (hc : lock.drop q = c.bytes ++ rest) (hlen : lock.length < 2 ^ 32) (hq : q ≤ lock.length)
    {io : Io} (hsafe : (x.lockPiece io c).isUnsafe = false) :
    ReadingLock lock (q + c.length) (x.lockPiece io c) ∧
      (x.lockPiece io c).fed = x.fed ++ (if q < zerosFrom (lock.getD 3 0) then
        zeroedBehind (zerosFrom (lock.getD 3 0) - q) c.bytes else c.bytes) := by
  have hsize : q + c.bytes.length + rest.length = lock.length := by
    have := congrArg List.length hc
    rw [List.length_drop, List.length_append] at this
    omega
  rw [lockPiece] at hsafe ⊢
  by_cases hbad : x.consumed = 0 ∧ lookUp io c 0 ≠ 0
  · rw [if_pos hbad] at hsafe
    cases hsafe
  · rw [if_neg hbad]
    refine ⟨⟨h.multisig, ?_, fun hfour => h.count_piece (by omega) hc hfour io⟩, ?_⟩
    · change x.consumed + UInt32.ofNat c.length = _
      rw [h.consumed, UInt32.ofNat_add]
    · refine congrArg (x.fed ++ ·) ?_
      rw [← zeroSignatures_eq (by omega), h.consumed]
      by_cases hfour : 4 ≤ q + c.length
      · rw [← h.consumed, h.count_piece (by omega) hc hfour io]
      · -- the piece is hashed as it is for any number of keys
        have hshort : q + c.bytes.length ≤ 3 := by
          rw [Chunk.length] at hfour
          omega
        rw [zeroSignatures_short _ hshort, zeroSignatures_short _ hshort]

/-- The pieces of a multisig lock. -/
theorem ReadingLock.pieces {lock : List UInt8} {q : ℕ} {cs : List Chunk}
    (h : ReadingLock lock q x) (hcs : lock.drop q = joined cs) (hlen : lock.length < 2 ^ 32)
    (hq : q ≤ lock.length)
    (hs : Runs Step x (cs.map .witnessLockArgBodyChunk) x') (hsafe : x'.isUnsafe = false) :
    x'.fed = x.fed ++ hashedLock (zerosFrom (lock.getD 3 0)) q cs := by
  induction cs generalizing x q with
  | nil => rw [Runs.nil_iff.1 hs, hashedLock, List.append_nil]
  | cons c cs ih =>
    obtain ⟨x₁, ⟨io, rfl⟩, hs⟩ := Runs.cons_iff.1 hs
    have hact : x.act io (.witnessLockArgBodyChunk c) = x.lockPiece io c := by
      rw [act, h.multisig]
      rfl
    rw [hact] at hs
    have hsafe₁ : (x.lockPiece io c).isUnsafe = false :=
      hs.backward (I := fun y => y.isUnsafe = false) hsafe fun _ _ _ hstep => hstep.isUnsafe
    rw [joined_cons] at hcs
    obtain ⟨h₁, hfed⟩ := h.piece hcs hlen hq hsafe₁
    have hcs₁ : lock.drop (q + c.length) = joined cs := by
      rw [← List.drop_drop, hcs, Chunk.length, List.drop_left]
    have hq₁ : q + c.length ≤ lock.length := by
      have := congrArg List.length hcs
      rw [List.length_drop, List.length_append] at this
      simp only [Chunk.length]
      omega
    rw [ih h₁ hcs₁ hq₁ hs, hfed, hashedLock, List.append_assoc]

end WitnessView

/-! ### Multisig locks -/

/-- A multisig script: its reserved first byte is zero, the number of keys is a byte. -/
structure MultisigScript where
  requireFirst : UInt8
  threshold : UInt8
  keys : List (Bytes 20)
  pos : 0 < keys.length
  lt : keys.length < 256

namespace MultisigScript

def encode (s : MultisigScript) : List UInt8 :=
  [0, s.requireFirst, s.threshold, UInt8.ofNat s.keys.length] ++ (s.keys.map (·.1)).flatten

theorem length_encode (s : MultisigScript) : s.encode.length = 4 + 20 * s.keys.length := by
  rw [encode, List.length_append, length_flatten_map fun k => k.2, Nat.mul_comm]
  rfl

/-- In a lock that begins with a multisig script, the zeros begin behind the script. -/
theorem zerosFrom_append (s : MultisigScript) (bs : List UInt8) :
    zerosFrom ((s.encode ++ bs).getD 3 0) = s.encode.length := by
  have hkeys : (s.encode ++ bs).getD 3 0 = UInt8.ofNat s.keys.length := rfl
  have hpos := s.pos
  rw [zerosFrom, hkeys, UInt8.toNat_ofNat', Nat.mod_eq_of_lt s.lt, s.length_encode,
    if_neg (by omega)]

end MultisigScript

/-- The calls for a lock: its size, and its pieces. -/
theorem tr_lock {bs : List UInt8} {cs : List Chunk} {evs : List WitnessCallback}
    (h : (MolSpec.bytesOpt witnessArgsRewriteCallbacks.lock).Tr (some bs) cs evs) :
    bs.length + 4 < 2 ^ 32 ∧ bs = joined (dropC 4 cs) ∧
      evs = .witnessLockArgSize (UInt32.ofNat bs.length + 4) ::
        (if bs = [] then [] else dropC 4 cs).map .witnessLockArgBodyChunk := by
  obtain ⟨e₀, e₁, ⟨_, ⟨hlen, hbs, -, rfl⟩, rfl⟩, htap, rfl⟩ := h
  obtain rfl := htap.eq_of_empty
  have hmap (cs : List Chunk) : cs.flatMap (fun c => [WitnessCallback.witnessLockArgBodyChunk c]) =
      cs.map .witnessLockArgBodyChunk := List.flatMap_pure_eq_map _ cs
  refine ⟨hlen, hbs, ?_⟩
  split_ifs <;> simp [witnessArgsRewriteCallbacks, sizeCallback, hmap]

/-- What is hashed of a multisig lock. -/
theorem WitnessView.runs_multisig {x x' : WitnessView} {bs : List UInt8} {cs : List Chunk}
    {evs : List WitnessCallback}
    (h : (MolSpec.bytesOpt witnessArgsRewriteCallbacks.lock).Tr (some bs) cs evs)
    (hmulti : x.multisig = true) (hconsumed : x.consumed = 0) (hs : Runs Step x evs x')
    (hsafe : x'.isUnsafe = false) :
    x'.fed = x.fed ++ (num bs.length ++
      hashedLock (zerosFrom (bs.getD 3 0)) 0 (if bs = [] then [] else dropC 4 cs)) := by
  obtain ⟨hlen, hbs, rfl⟩ := tr_lock h
  obtain ⟨x₁, ⟨io, rfl⟩, hs⟩ := Runs.cons_iff.1 hs
  have hsize : x.act io (.witnessLockArgSize (UInt32.ofNat bs.length + 4)) =
      { x with fed := x.fed ++ num bs.length } := by
    have hle : ¬ UInt32.ofNat bs.length + 4 < 4 := UInt32.not_lt.2 (four_le_ofNat_add_four hlen)
    rw [act, if_neg (by simp [hmulti]), if_neg hle, UInt32.add_sub_cancel, u32le_ofNat]
  rw [hsize] at hs
  have hreading : ReadingLock bs 0 { x with fed := x.fed ++ num bs.length } :=
    ⟨hmulti, hconsumed, fun h => absurd h (by decide)⟩
  have hjoined : bs.drop 0 = joined (if bs = [] then [] else dropC 4 cs) := by
    split_ifs with hnil
    · exact hnil
    · exact hbs
  rw [hreading.pieces hjoined (by omega) (Nat.zero_le _) hs hsafe, List.append_assoc]

/-! ### Where the lock arrives -/

theorem cutAt_fieldPieces {start i n : ℕ} {lens : List ℕ} {cs : List Chunk} (hn : 0 < n)
    (hlt : n < lens.getD i 0) :
    CutAt (fieldPieces start lens i cs) n ↔ CutAt cs (start + (lens.take i).sum + n) := by
  rw [fieldPieces, cutAt_takeC hlt, cutAt_dropC hn]

/-- Where the lock of the first witness begins, behind its length. -/
def AnnotatedTransaction.lockStart (a : AnnotatedTransaction) : ℕ :=
  24 + ((a.parts.map List.length).take 4).sum + (8 + 4 * (a.witnesses.length - 1) + (4 + (16 + 4)))

/-- The lock is cut where the packets are. -/
theorem Canonical.cutAt_lockPieces {a : AnnotatedTransaction} {v : AnnotatedTransactionVal}
    {t : Transcript env P v} {cs : List Chunk} {args : WitnessArgs} {bs : List UInt8}
    {ws : List (List UInt8)} (h : Canonical a t (takeC a.encode.length cs))
    (hw : a.witnesses = args.encode :: ws) (hlock : args.lock = some bs) {n : ℕ} (hn : 0 < n)
    (hlt : n < bs.length) :
    CutAt (dropC 4 (Transcript.lockPieces v args ws.length (takeC a.encode.length cs))) n ↔
      CutAt cs (a.lockStart + n) := by
  have hargs : args.encode.length =
      16 + (4 + bs.length + ((encodeOption encodeBytes args.inputType).length +
        (encodeOption encodeBytes args.outputType).length)) := by
    rw [WitnessArgs.encode, length_encodeParts]
    simp [WitnessArgs.parts, hlock, encodeOption]
  have hdata : 8 + 4 * ws.length + (4 + args.encode.length) ≤ (encodeData a.witnesses).length := by
    rw [hw, encodeData, List.map_cons, length_encodeParts, List.length_cons, List.length_map,
      List.flatten_cons, List.length_append, length_encodeBytes]
    omega
  have hwhole : a.encode.length = 24 + ((a.parts.map List.length).take 4).sum +
      (encodeData a.witnesses).length := by
    rw [AnnotatedTransaction.encode, length_encodeParts]
    simp [AnnotatedTransaction.parts, Nat.add_assoc]
  have hne : args.encode ≠ [] := by
    rintro hnil
    rw [hnil] at hargs
    exact absurd hargs (by rw [List.length_nil]; omega)
  have hfield : (args.parts.map List.length).getD 0 0 = 4 + bs.length := by
    simp [WitnessArgs.parts, hlock, encodeOption]
  have hlast : (a.parts.map List.length).getD 4 0 = (encodeData a.witnesses).length := rfl
  -- from the lock outwards, part by part
  rw [cutAt_dropC hn, Transcript.lockPieces, cutAt_fieldPieces (by omega) (by rw [hfield]; omega),
    cutAt_takeC (by simp; omega), AnnotatedTransactionVal.firstPieces, if_neg hne,
    cutAt_takeC (by simp; omega), cutAt_dropC (by omega), cutAt_dropC (by omega),
    AnnotatedTransactionVal.witnessPieces, h.lens, cutAt_fieldPieces (by omega)
      (by rw [hlast]; simp; omega), cutAt_takeC (by simp; omega)]
  have hpos : a.lockStart + n = 24 + ((a.parts.map List.length).take 4).sum +
      (8 + 4 * ws.length + (4 + (16 + ((args.parts.map List.length).take 0).sum + (4 + n)))) := by
    rw [AnnotatedTransaction.lockStart, hw, List.length_cons, List.take_zero, List.sum_nil]
    omega
  rw [hpos]

/-! ### The digest -/

/-- With a multisig input, the header is hashed as it is. -/
theorem rewrittenHeader_multisig (lock inputType outputType : List UInt8) :
    rewrittenHeader true (headerWords [lock, inputType, outputType]) =
      u64le (UInt32.ofNat (encodeParts [lock, inputType, outputType]).length).toUInt64 ++
        (headerWords [lock, inputType, outputType]).flatMap u32le := by
  have hheader (a b c d : UInt32) : rewrittenHeader true [a, b, c, d] =
      u64le a.toUInt64 ++ [a, b, c, d].flatMap u32le := by
    simp [rewrittenHeader]
  rw [length_encodeParts]
  exact hheader _ _ _ _

/-- The arguments with another lock of the same length are announced alike. -/
theorem headerWords_lock {lock lock' inputType outputType : List UInt8}
    (h : lock'.length = lock.length) :
    headerWords [lock', inputType, outputType] = headerWords [lock, inputType, outputType] := by
  simp [headerWords, offsetsFrom, h]

/-- The header that is hashed is that of the arguments with any lock of the same length. -/
theorem rewrittenHeader_relocked {args : WitnessArgs} {lock' : Option (List UInt8)}
    (hsame : (encodeOption encodeBytes lock').length = (encodeOption encodeBytes args.lock).length)
    (hlen : args.encode.length < 2 ^ 32) :
    rewrittenHeader true (headerWords args.parts) ++ (encodeOption encodeBytes lock' ++
        (encodeOption encodeBytes args.inputType ++ encodeOption encodeBytes args.outputType)) =
      witnessRecord ({ args with lock := lock' } : WitnessArgs).encode := by
  have hwords : headerWords ({ args with lock := lock' } : WitnessArgs).parts =
      headerWords args.parts := headerWords_lock hsame
  have hlength : ({ args with lock := lock' } : WitnessArgs).encode.length =
      args.encode.length := by
    rw [WitnessArgs.encode, WitnessArgs.encode, length_encodeParts, length_encodeParts]
    simp [WitnessArgs.parts, hsame]
  have hheader : rewrittenHeader true (headerWords args.parts) =
      u64le (UInt64.ofNat args.encode.length) ++ (headerWords args.parts).flatMap u32le := by
    rw [← u64le_ofNat hlen]
    exact rewrittenHeader_multisig _ _ _
  have hencode : ({ args with lock := lock' } : WitnessArgs).encode =
      (headerWords args.parts).flatMap u32le ++ (encodeOption encodeBytes lock' ++
        (encodeOption encodeBytes args.inputType ++ encodeOption encodeBytes args.outputType)) := by
    rw [WitnessArgs.encode, encodeParts_eq, hwords]
    simp [WitnessArgs.parts]
  rw [hheader, witnessRecord, hlength, hencode, List.append_assoc]

/-- The arguments of the first witness as they are to be hashed: the lock is the script, and zeros
for the signatures. -/
def WitnessArgs.unsigned (args : WitnessArgs) (script : MultisigScript)
    (signatures : List UInt8) : WitnessArgs :=
  { args with lock := some (script.encode ++ List.replicate signatures.length 0) }

/-- What is hashed of the transaction hash and the witnesses, when the bytes `bs` are hashed for
those of the lock. -/
def multisigBytes (hash : Bytes 32) (args : WitnessArgs) (bs : List UInt8)
    (ws : List (List UInt8)) : List UInt8 :=
  hash.1 ++ (rewrittenHeader true (headerWords args.parts) ++
    (num (args.lock.getD []).length ++ bs) ++ (encodeOption encodeBytes args.inputType ++
      (encodeOption encodeBytes args.outputType ++ ws.flatMap witnessRecord)))

theorem multisigBytes_inj {hash : Bytes 32} {args : WitnessArgs} {bs bs' : List UInt8}
    {ws : List (List UInt8)} (hlen : bs.length = bs'.length) :
    multisigBytes hash args bs ws = multisigBytes hash args bs' ws ↔ bs = bs' := by
  constructor
  · intro h
    simp only [multisigBytes, List.append_assoc, List.append_right_inj] at h
    exact (List.append_inj h hlen).1
  · rintro rfl
    rfl

theorem multisigBytes_unsigned {args : WitnessArgs} {script : MultisigScript}
    {signatures : List UInt8} (hlock : args.lock = some (script.encode ++ signatures))
    (hlen : args.encode.length < 2 ^ 32) (hash : Bytes 32) (ws : List (List UInt8)) :
    multisigBytes hash args (script.encode ++ List.replicate signatures.length 0) ws =
      hash.1 ++ ((args.unsigned script signatures).encode :: ws).flatMap witnessRecord := by
  have hsame : (encodeOption encodeBytes
      (some (script.encode ++ List.replicate signatures.length 0))).length =
      (encodeOption encodeBytes args.lock).length := by
    simp [hlock, encodeOption]
  have hnum : (script.encode ++ List.replicate signatures.length (0 : UInt8)).length =
      (args.lock.getD []).length := by
    simp [hlock]
  have hbytes : encodeOption encodeBytes (some (script.encode ++
      List.replicate signatures.length 0)) = num (args.lock.getD []).length ++
        (script.encode ++ List.replicate signatures.length 0) := by
    rw [← hnum]
    rfl
  rw [multisigBytes, List.flatMap_cons, WitnessArgs.unsigned, ← rewrittenHeader_relocked hsame hlen,
    hbytes]
  simp only [List.append_assoc]

/-- What the digest of a transaction with a multisig input is taken of. -/
theorem Transcript.Cut.digest_multisig {v : AnnotatedTransactionVal} {t : Transcript env P v}
    {cs : List Chunk} {args : WitnessArgs} {script : MultisigScript} {signatures : List UInt8}
    {ws : List (List UInt8)} (h : t.Cut cs) (hw : v.witnesses = some (args.encode :: ws))
    (hargs : args.encode.length < 2 ^ 32)
    (hlock : args.lock = some (script.encode ++ signatures))
    (hmulti : t.last.signingMultisigInput = true) (hok : t.last.maybe.hardReject = false)
    (hsafe : t.last.maybe.isUnsafe = false) :
    script.encode ++ signatures = joined (dropC 4 (lockPieces v args ws.length cs)) ∧
      t.Digests (multisigBytes t.last.tx.transactionHash args
        (hashedLock script.encode.length 0 (dropC 4 (lockPieces v args ws.length cs))) ws) := by
  have hne : script.encode ++ signatures ≠ [] := by
    rw [MultisigScript.encode]
    simp
  obtain ⟨-, es, x, htr, hruns, hsafe', hdigests⟩ := h.digest_args hw hargs hok hsafe
  rw [hlock] at htr
  refine ⟨(tr_lock htr).2.1, ?_⟩
  have hfed := WitnessView.runs_multisig htr hmulti rfl hruns hsafe'
  rw [if_neg hne, script.zerosFrom_append, hmulti] at hfed
  rw [hfed] at hdigests
  rw [multisigBytes, hlock, Option.getD_some]
  simpa only [List.append_assoc] using hdigests

theorem length_hashedLock (len q : ℕ) (cs : List Chunk) :
    (hashedLock len q cs).length = (joined cs).length := by
  induction cs generalizing q with
  | nil => rfl
  | cons c cs ih =>
    rw [hashedLock, List.length_append, ih, joined_cons, List.length_append]
    split_ifs
    · rw [length_zeroedBehind]
    · rfl

/-- **Multisig digest.**  When the packets hold the encoding of a transaction with a multisig input,
whose first witness has a lock of a multisig script and signatures, the digest is that of the
witnesses with zeros for the signatures if and only if the signatures are zeros already behind each
end of a packet that lies at or behind the end of the script. -/
theorem multisig_digest_iff (env : Env) (instruction : UInt8) (ps : List Packet) (prompt : Prompt)
    (g : SignState) (a : AnnotatedTransaction) (args : WitnessArgs) (script : MultisigScript)
    (signatures : List UInt8) (ws : List (List UInt8)) (hlen : a.encode.length < 2 ^ 32)
    (hcut : joined (ps.map Packet.chunk) = a.encode)
    (hwitnesses : a.witnesses = args.encode :: ws)
    (hlock : args.lock = some (script.encode ++ signatures))
    (h : signSession env instruction ps = some (prompt, g))
    (hmulti : g.signingMultisigInput = true) :
    (∃ v, ∃ t : Transcript env (fun _ => True) v,
      Accepted env (fun _ => True) instruction ps prompt g v t ∧
        t.Cut (takeC v.len (ps.map Packet.chunk))) ∧
    ∀ v (t : Transcript env (fun _ => True) v),
      Accepted env (fun _ => True) instruction ps prompt g v t →
      t.Cut (takeC v.len (ps.map Packet.chunk)) →
        (t.Digests (g.tx.transactionHash.1 ++
            ((args.unsigned script signatures).encode :: ws).flatMap witnessRecord) ↔
          ∀ n, CutAt (ps.map Packet.chunk) (a.lockStart + script.encode.length + n) →
            ∀ b ∈ signatures.drop n, b = 0) := by
  refine ⟨signSession_cut (fun _ _ => trivial) h, fun v t haccepted htranscript => ?_⟩
  have hcanonical := haccepted.canonical htranscript hlen hcut
  have hv : v.witnesses = some (args.encode :: ws) := by
    rw [hcanonical.value]
    change vecValue a.witnesses = _
    rw [hwitnesses]
    exact if_neg (by simp)
  have hargs := Nat.lt_of_le_of_lt (a.length_signed hwitnesses).1 hlen
  have hlast := haccepted.last
  have hhash : g.tx.transactionHash = t.last.tx.transactionHash := by rw [hlast]
  obtain ⟨hjoined, hdigests⟩ := hcanonical.cut.digest_multisig hv hargs hlock
    (by rwa [hlast] at hmulti) haccepted.hardReject haccepted.isUnsafe
  have hcutAt (n : ℕ) : 0 < n → n < (script.encode ++ signatures).length →
      (CutAt _ n ↔ CutAt (ps.map Packet.chunk) (a.lockStart + n)) :=
    fun hn hlt => hcanonical.cutAt_lockPieces hwitnesses hlock hn hlt
  generalize dropC 4 (Transcript.lockPieces v args ws.length
    (takeC a.encode.length (ps.map Packet.chunk))) = cs at hjoined hdigests hcutAt
  have hpos : 0 < script.encode.length := by
    rw [script.length_encode]
    omega
  have hzeroed : script.encode ++ List.replicate signatures.length 0 =
      zeroedBehind (script.encode.length - 0) (joined cs) := by
    rw [← hjoined, zeroedBehind, Nat.sub_zero, List.take_left, List.length_append,
      Nat.add_sub_cancel_left]
  have hiff : t.Digests (multisigBytes t.last.tx.transactionHash args
      (script.encode ++ List.replicate signatures.length 0) ws) ↔
        hashedLock script.encode.length 0 cs =
          script.encode ++ List.replicate signatures.length 0 := by
    constructor
    · intro hexpected
      refine (multisigBytes_inj ?_).1 (hdigests.unique hexpected)
      rw [length_hashedLock, ← hjoined, List.length_append, List.length_append,
        List.length_replicate]
    · intro hsame
      rwa [hsame] at hdigests
  rw [hhash, ← multisigBytes_unsigned hlock hargs, hiff, hzeroed, hashedLock_eq_iff, ← hjoined]
  have hdrop (n : ℕ) : (script.encode ++ signatures).drop (script.encode.length + n) =
      signatures.drop n := by
    rw [← List.drop_drop, List.drop_left]
  constructor
  · intro hzero n hpacket
    rcases Nat.lt_or_ge n signatures.length with hn | hn
    · have hpiece := (hcutAt (script.encode.length + n) (by omega)
        (by rw [List.length_append]; omega)).2 (by rwa [Nat.add_assoc] at hpacket)
      have hall := hzero (script.encode.length + n) hpiece (by omega)
      rwa [hdrop] at hall
    · rw [List.drop_of_length_le hn]
      exact List.forall_mem_nil _
  · intro hzero n hpiece hle
    obtain ⟨m, rfl⟩ := Nat.exists_eq_add_of_le (by omega : script.encode.length ≤ n)
    rw [hdrop]
    rcases Nat.lt_or_ge m signatures.length with hm | hm
    · have hpacket := (hcutAt (script.encode.length + m) (by omega)
        (by rw [List.length_append]; omega)).1 hpiece
      exact hzero m (by rwa [Nat.add_assoc])
    · rw [List.drop_of_length_le hm]
      exact List.forall_mem_nil _

/-- A script for the owner of the key and two others. -/
def threeKeys : MultisigScript where
  requireFirst := 0
  threshold := 3
  keys := [⟨referenceLockArg, by decide⟩, ⟨List.replicate 20 1, by decide⟩,
    ⟨List.replicate 20 2, by decide⟩]
  pos := by decide
  lt := by decide

/-- The arguments of a witness with a multisig lock. -/
def cosignedArgs (signatures : List UInt8) : WitnessArgs :=
  ⟨some (threeKeys.encode ++ signatures), none, none⟩

/-- A payment from a cell with a multisig lock. -/
def cosignedPayment (signatures : List UInt8) : AnnotatedTransaction :=
  { payment with
    raw := { payment.raw with inputs := [⟨⟨.zero 8, ⟨.zero 32, 0⟩⟩, coinbase ⟨1000,
      ⟨⟨multisigLockScript, length_multisigLockScript⟩, 1, List.replicate 20 9⟩, none⟩ []⟩] }
    witnesses := [(cosignedArgs signatures).encode] }

/-- Without signatures, the digest is the right one. -/
theorem multisig_digest_iff_cosignedPayment :
    ∃ prompt g v, ∃ t : Transcript Env.reference (fun _ => True) v,
      signSession Env.reference 0x03
          (cutPackets 4 (cosignedPayment (List.replicate 195 0)).encode) = some (prompt, g) ∧
        t.Digests (g.tx.transactionHash.1 ++ [((cosignedArgs (List.replicate 195 0)).unsigned
          threeKeys (List.replicate 195 0)).encode].flatMap witnessRecord) := by
  have hsome : (signSession Env.reference 0x03
      (cutPackets 4 (cosignedPayment (List.replicate 195 0)).encode)).any
        (fun r => r.2.signingMultisigInput) = true := by decide +kernel
  obtain ⟨⟨prompt, g⟩, h, hmulti⟩ := (Option.any_eq_true _ _).1 hsome
  have hlen : (cosignedPayment (List.replicate 195 0)).encode.length ≤ 4 * maxApduSize := by
    decide +kernel
  obtain ⟨⟨v, t, haccepted, hcut⟩, hall⟩ := multisig_digest_iff Env.reference 0x03 _ prompt g
    (cosignedPayment (List.replicate 195 0)) (cosignedArgs (List.replicate 195 0)) threeKeys
    (List.replicate 195 0) [] (Nat.lt_of_le_of_lt hlen (by decide)) (joined_cutPackets 4 hlen) rfl
    rfl h hmulti
  refine ⟨prompt, g, v, t, h, (hall v t haccepted hcut).2 fun n _ b hb => ?_⟩
  exact List.eq_of_mem_replicate (List.mem_of_mem_drop hb)

/-- With signatures, the last packet starts among them, and the digest is another one. -/
theorem cosignedPayment_digest :
    ∃ prompt g, signSession Env.reference 0x03
          (cutPackets 4 (cosignedPayment (List.replicate 195 1)).encode) = some (prompt, g) ∧
        g.signingMultisigInput = true ∧ g.tx.finalHash ≠
          Env.reference.blake2b (g.tx.transactionHash.1 ++
            [((cosignedArgs (List.replicate 195 1)).unsigned threeKeys
              (List.replicate 195 1)).encode].flatMap witnessRecord) := by
  have hsome : (signSession Env.reference 0x03
      (cutPackets 4 (cosignedPayment (List.replicate 195 1)).encode)).any
        (fun r => r.2.signingMultisigInput && r.2.tx.finalHash != Env.reference.blake2b
          (r.2.tx.transactionHash.1 ++ [((cosignedArgs (List.replicate 195 1)).unsigned threeKeys
            (List.replicate 195 1)).encode].flatMap witnessRecord)) = true := by decide +kernel
  obtain ⟨⟨prompt, g⟩, h, hbad⟩ := (Option.any_eq_true _ _).1 hsome
  rw [Bool.and_eq_true, bne_iff_ne] at hbad
  exact ⟨prompt, g, h, hbad⟩

end LedgerNervos
