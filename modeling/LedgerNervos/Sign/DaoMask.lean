import LedgerNervos.Sign.Payments
import LedgerNervos.Sign.Strict

/-!
# The mask of the deposits

Whether an output is a deposit is kept in a mask of 64 bits until its data arrive.  The bit is set
by a shift in `int` and looked at by a shift in `uint64_t`, both by a number that only the host
bounds.  `marks_agree_iff` says when the data of each output find what has been found of the
output.
-/

namespace LedgerNervos

variable {env : Env} {P : NvramData → Prop} {g g' : SignState}

open Callback (annotatedRawTransactionCallbacks)

/-- What is set for a deposit in the output number `j` is found for the output number `i`.  Within
the widths of the types, `int` has 32 bits, and its sign is extended. -/
def Hits (env : Env) (j i : UInt32) : Prop :=
  if j.toNat < 32 ∧ i.toNat < 64 then j = i ∨ j = 31 ∧ 31 ≤ i
  else bitInt env j &&& bitU64 env i ≠ 0

/-! ### Bits -/

theorem toBitVec_one_shiftLeft {i : UInt32} (h : i.toNat < 64) :
    ((1 : UInt64) <<< i.toUInt64).toBitVec = BitVec.twoPow 64 i.toNat := by
  have hshift : (i.toUInt64.toBitVec % 64).toNat = i.toNat := by
    rw [BitVec.toNat_umod]
    exact Nat.mod_eq_of_lt h
  rw [UInt64.toBitVec_shiftLeft, BitVec.twoPow_eq]
  change 1#64 <<< (i.toUInt64.toBitVec % 64).toNat = _
  rw [hshift]

/-- Within the width of the mask, a bit of it is looked at. -/
theorem and_bitU64_ne_zero_iff {i : UInt32} (h : i.toNat < 64) (m : UInt64) :
    m &&& bitU64 env i ≠ 0 ↔ m.toBitVec.getLsbD i.toNat = true := by
  rw [bitU64, if_pos h, Ne, ← UInt64.toBitVec_inj, UInt64.toBitVec_and, toBitVec_one_shiftLeft h,
    BitVec.and_twoPow]
  have hne : BitVec.twoPow 64 i.toNat ≠ 0#64 := by
    intro hzero
    have hbit := congrArg (BitVec.getLsbD · i.toNat) hzero
    simp [h] at hbit
  split_ifs with hbit
  · exact iff_of_true hne hbit
  · exact iff_of_false (not_not_intro rfl) hbit

/-- The bits that a shift in `int` sets. -/
theorem getLsbD_bitInt {j i : UInt32} (hj : j.toNat < 32) (hi : i.toNat < 64) :
    (bitInt env j).toBitVec.getLsbD i.toNat = true ↔ j = i ∨ j = 31 ∧ 31 ≤ i := by
  by_cases hsign : j.toNat < 31
  · have hne : j ≠ 31 := by
      rintro rfl
      exact absurd hsign (by decide)
    rw [bitInt, if_pos hsign, toBitVec_one_shiftLeft (by omega), BitVec.getLsbD_twoPow]
    simp only [hne, false_and, or_false, Bool.and_eq_true, decide_eq_true_eq, UInt32.toNat_inj]
    exact and_iff_right (by omega)
  · obtain rfl : j = 31 := UInt32.toNat_inj.1 (by
      change j.toNat = 31
      omega)
    have hall : ∀ k < 64, (0xFFFFFFFF80000000 : UInt64).toBitVec.getLsbD k = true ↔ 31 ≤ k := by
      decide
    rw [bitInt, if_neg hsign, if_pos (show (31 : UInt32).toNat = 31 from rfl), hall _ hi,
      UInt32.le_iff_toNat_le]
    constructor
    · exact fun hle => .inr ⟨rfl, hle⟩
    · rintro (rfl | ⟨-, hle⟩)
      · exact Nat.le_refl _
      · exact hle

theorem hits_iff (env : Env) (j i : UInt32) : bitInt env j &&& bitU64 env i ≠ 0 ↔ Hits env j i := by
  unfold Hits
  split_ifs with hlt
  · rw [and_bitU64_ne_zero_iff hlt.2, getLsbD_bitInt hlt.1 hlt.2]
  · exact Iff.rfl

/-- An output in the first 32 is hit by its own bit. -/
theorem Hits.refl {i : UInt32} (h : i.toNat < 32) : Hits env i i := by
  rw [Hits, if_pos ⟨h, by omega⟩]
  exact .inl rfl

/-! ### The mask -/

theorem flagged_or (env : Env) (m x : UInt64) (i : UInt32) :
    flagged env (m ||| x) i = true ↔ flagged env m i = true ∨ x &&& bitU64 env i ≠ 0 := by
  have hdistrib : (m ||| x) &&& bitU64 env i = m &&& bitU64 env i ||| x &&& bitU64 env i := by
    rw [← UInt64.toBitVec_inj]
    simp only [UInt64.toBitVec_and, UInt64.toBitVec_or]
    ext k hk
    simp [Bool.and_or_distrib_right]
  simp only [flagged, decide_eq_true_eq]
  rw [hdistrib, Ne, UInt64.or_eq_zero_iff, not_and_or]

theorem flagged_foldl (env : Env) (ls : List (UInt32 × CellOutputVal)) (m : UInt64) (i : UInt32) :
    flagged env (ls.foldl (fun m l => if l.2.isDao then m ||| bitInt env l.1 else m) m) i = true ↔
      flagged env m i = true ∨ ∃ l ∈ ls, l.2.isDao = true ∧ Hits env l.1 i := by
  induction ls generalizing m with
  | nil => simp
  | cons l ls ih =>
    rw [List.foldl_cons, ih]
    cases hdao : l.2.isDao with
    | true =>
      rw [if_pos rfl, flagged_or, hits_iff]
      simp [hdao, or_assoc]
    | false => simp [hdao]

/-- The bit for an output number is set by the deposits that hit it. -/
theorem flagged_daoMask (env : Env) (os : List CellOutputVal) (i : UInt32) :
    flagged env (daoMask env os) i = true ↔
      ∃ (j : ℕ) (o : CellOutputVal), os[j]? = some o ∧ o.isDao = true ∧
        Hits env (UInt32.ofNat j) i := by
  have hzero : flagged env 0 i = false := by simp [flagged]
  rw [daoMask, flagged_foldl, hzero]
  constructor
  · rintro (hbad | ⟨l, hl, hdao, hhits⟩)
    · cases hbad
    · obtain ⟨j, hj, hnumber⟩ := mem_numbered.1 hl
      rw [hnumber, UInt32.zero_add] at hhits
      exact ⟨j, l.2, hj, hdao, hhits⟩
  · rintro ⟨j, o, hj, hdao, hhits⟩
    exact .inr ⟨(UInt32.ofNat j, o), mem_numbered_of_getElem? hj, hdao, hhits⟩

/-! ### The calls for the data -/

/-- No call for the data of outputs changes the mask. -/
theorem SignState.Step.daoBitmask_data {e : Callback} (h : g.Step env P e g')
    (he : e.part = .outputsData ∨ e.part = .raw) : g'.tx.daoBitmask = g.tx.daoBitmask := by
  rcases he with he | he
  · obtain ⟨nd, io, io', -, hd⟩ := h
    cases e
    case validateOutputDataStart i =>
      simp only [dispatch, Except.ok.injEq, Prod.mk.injEq] at hd
      rw [← hd.1]
      rfl
    case finishOutputCellData =>
      simp only [dispatch, Except.ok.injEq, Prod.mk.injEq, SignState.finishOutputCellData,
        SignState.chooseDao] at hd
      rw [← hd.1]
      split_ifs <;> rfl
    all_goals exact Part.noConfusion he
  · refine congrArg Books.daoBitmask (h.books_output ⟨.inr he, ?_⟩ ?_)
    · rintro rfl
      cases he
    · rintro rfl
      cases he

/-- There are fewer than 2^32 data, and all of them are announced. -/
theorem DataCalls.announced {v : AnnotatedTransactionVal} {es : List Callback}
    (h : DataCalls v es) :
    (v.outputsData.getD []).length < 2 ^ 32 ∧ ∀ k < (v.outputsData.getD []).length,
      .validateOutputDataStart (UInt32.ofNat k) ∈ es := by
  obtain ⟨cs, e₀, e₁, htr, htap, rfl⟩ := h
  cases hdata : v.outputsData with
  | none => exact ⟨by decide, nofun⟩
  | some ds =>
    rw [hdata] at htr
    obtain ⟨hlength, e, htrs, rfl⟩ := htr
    refine ⟨hlength, fun k hk => List.mem_append_left _ (htap.mem ?_)⟩
    have hannounced := htrs.announced hk (.validateOutputDataStart (UInt32.ofNat k))
    rw [UInt32.zero_add] at hannounced
    exact hannounced (List.mem_singleton_self _)

/-! ### The marks of a session -/

/-- The marks for the data of the outputs are those of the outputs. -/
def MarksAgree {v : AnnotatedTransactionVal} (t : Transcript env P v) : Prop :=
  ∀ s i, (s, .validateOutputDataStart i) ∈ t.dataTrace →
    ∀ o d, (v.outputs.getD [])[i.toNat]? = some o → (v.outputsData.getD [])[i.toNat]? = some d →
      (s.validateOutputDataStart env i).cellState.isDao = o.isDao

/-- Deposits hit the numbers of deposits, and no others, among the outputs with data. -/
structure HitsDeposits (env : Env) (v : AnnotatedTransactionVal) : Prop where
  deposit : ∀ (i : ℕ) o d, (v.outputs.getD [])[i]? = some o →
    (v.outputsData.getD [])[i]? = some d → o.isDao = true → 32 ≤ i →
      ∃ (j : ℕ) (o' : CellOutputVal), (v.outputs.getD [])[j]? = some o' ∧ o'.isDao = true ∧
        Hits env (UInt32.ofNat j) (UInt32.ofNat i)
  plain : ∀ (i : ℕ) o d, (v.outputs.getD [])[i]? = some o →
    (v.outputsData.getD [])[i]? = some d → o.isDao = false →
      ∀ (j : ℕ) (o' : CellOutputVal), (v.outputs.getD [])[j]? = some o' → o'.isDao = true →
        ¬ Hits env (UInt32.ofNat j) (UInt32.ofNat i)

/-- The mask has the bit of an output with data just when the output is a deposit. -/
theorem hitsDeposits_iff (env : Env) (v : AnnotatedTransactionVal) :
    HitsDeposits env v ↔ ∀ (i : ℕ) o d, (v.outputs.getD [])[i]? = some o →
      (v.outputsData.getD [])[i]? = some d →
        flagged env (daoMask env (v.outputs.getD [])) (UInt32.ofNat i) = o.isDao := by
  constructor
  · rintro ⟨hdeposit, hplain⟩ i o d ho hd
    cases hdao : o.isDao with
    | true =>
      refine (flagged_daoMask ..).2 ?_
      by_cases hi : i < 32
      · refine ⟨i, o, ho, hdao, Hits.refl ?_⟩
        rw [UInt32.toNat_ofNat']
        omega
      · exact hdeposit i o d ho hd hdao (by omega)
    | false =>
      rw [← Bool.not_eq_true, flagged_daoMask]
      rintro ⟨j, o', hj, hdao', hhits⟩
      exact hplain i o d ho hd hdao j o' hj hdao' hhits
  · refine fun hflags =>
      ⟨fun i o d ho hd hdao _ => ?_, fun i o d ho hd hdao j o' hj hdao' hhits => ?_⟩
    · exact (flagged_daoMask ..).1 ((hflags i o d ho hd).trans hdao)
    · have hflag := (flagged_daoMask env _ _).2 ⟨j, o', hj, hdao', hhits⟩
      rw [hflags i o d ho hd, hdao] at hflag
      cases hflag

/-- What the data of the outputs find is what the mask says of their numbers. -/
theorem Transcript.marksAgree_iff {v : AnnotatedTransactionVal} (t : Transcript env P v)
    (hok : t.last.maybe.hardReject = false) (hsafe : t.last.maybe.isUnsafe = false) :
    MarksAgree t ↔ HitsDeposits env v := by
  obtain ⟨hcalls, hvisits⟩ := t.outputsData
  obtain ⟨hlength, hannounced⟩ := hcalls.announced
  obtain ⟨-, hmask⟩ := hvisits.invariant (I := fun s => s.tx.daoBitmask = t.paid.tx.daoBitmask) rfl
    fun s e s' he hstep hs =>
      (hstep.daoBitmask_data (hcalls.part e (List.mem_map_of_mem he))).trans hs
  have hmark (s : SignState) (i : UInt32) (hs : (s, .validateOutputDataStart i) ∈ t.dataTrace) :
      (s.validateOutputDataStart env i).cellState.isDao =
        flagged env (daoMask env (v.outputs.getD [])) i := by
    obtain ⟨hbits, -⟩ := hmask _ hs
    rw [← t.daoBitmask_paid hok hsafe, ← hbits]
    rfl
  rw [hitsDeposits_iff]
  constructor
  · intro hmarks i o d ho hd
    have hi : i < (v.outputsData.getD []).length := (List.getElem?_eq_some_iff.1 hd).1
    have hnumber : (UInt32.ofNat i).toNat = i := by
      rw [UInt32.toNat_ofNat']
      exact Nat.mod_eq_of_lt (hi.trans hlength)
    obtain ⟨⟨s, _⟩, hs, rfl⟩ := List.mem_map.1 (hannounced i hi)
    rw [← hmark s _ hs]
    exact hmarks s _ hs o d (hnumber.symm ▸ ho) (hnumber.symm ▸ hd)
  · intro hflags s i hs o d ho hd
    have hflag := hflags i.toNat o d ho hd
    rw [UInt32.ofNat_toNat] at hflag
    rw [hmark s i hs, hflag]

/-- **The marks of the deposits.**  When a session leads to the prompt, the data of each output
find the mark of the output if and only if the bits that are set for the deposits hit the numbers
of deposits only, and those of all deposits, among the outputs with data. -/
theorem marks_agree_iff (env : Env) (instruction : UInt8) (ps : List Packet) (prompt : Prompt)
    (g : SignState) (h : signSession env instruction ps = some (prompt, g)) :
    (∃ v, ∃ t : Transcript env (fun _ => True) v,
      Accepted env (fun _ => True) instruction ps prompt g v t) ∧
    ∀ v (t : Transcript env (fun _ => True) v),
      Accepted env (fun _ => True) instruction ps prompt g v t →
        (MarksAgree t ↔ HitsDeposits env v) := by
  refine ⟨signSession_transcript (fun _ _ => trivial) h, fun v t haccepted => ?_⟩
  exact t.marksAgree_iff haccepted.hardReject haccepted.isUnsafe

theorem marks_agree_iff_payment :
    ∃ prompt g v, ∃ t : Transcript Env.reference (fun _ => True) v,
      signSession Env.reference 0x03 (cutPackets 3 payment.encode) = some (prompt, g) ∧
        Accepted Env.reference (fun _ => True) 0x03 (cutPackets 3 payment.encode) prompt g v t ∧
          MarksAgree t := by
  have hsome : (signSession Env.reference 0x03 (cutPackets 3 payment.encode)).isSome = true := by
    decide +kernel
  obtain ⟨⟨prompt, g⟩, h⟩ := Option.isSome_iff_exists.1 hsome
  obtain ⟨⟨v, t, haccepted⟩, hall⟩ := marks_agree_iff Env.reference 0x03 _ prompt g h
  have hiff := hall v t haccepted
  obtain rfl := haccepted.value_eq_cut (by decide +kernel) (by decide) (by decide) (by decide)
  refine ⟨prompt, g, _, t, h, haccepted, (hiff.2 ((hitsDeposits_iff ..).2 fun i o d ho _ => ?_))⟩
  match i with
  | 0 =>
    obtain rfl := Option.some.inj ho
    decide
  | i + 1 => cases ho

/-- The data of an output without a type are marked as those of a deposit, when the output number
31 is one. -/
theorem deposit_marks :
    ∃ prompt g, signSession Env.reference 0x03 (cutPackets 15 deposit.encode) = some (prompt, g) ∧
      ∀ v (t : Transcript Env.reference (fun _ => True) v),
        Accepted Env.reference (fun _ => True) 0x03 (cutPackets 15 deposit.encode) prompt g v t →
          ¬ MarksAgree t := by
  have hsome : (signSession Env.reference 0x03 (cutPackets 15 deposit.encode)).isSome = true := by
    decide +kernel
  obtain ⟨⟨prompt, g⟩, h⟩ := Option.isSome_iff_exists.1 hsome
  refine ⟨prompt, g, h, fun v t haccepted hmarks => ?_⟩
  obtain rfl := haccepted.value_eq_cut (by decide +kernel) (by decide) (by decide) (by decide)
  have hhits := (t.marksAgree_iff haccepted.hardReject haccepted.isUnsafe).1 hmarks
  refine hhits.plain 32 _ _ rfl rfl (by decide) 31 _ rfl (by decide) ?_
  rw [Hits, if_pos (by decide)]
  exact .inr ⟨rfl, by decide⟩

end LedgerNervos
