import LedgerNervos.App.Message
import LedgerNervos.Memory.Store

/-!
# Characters that cannot be displayed

`replace_undisplayable` puts an asterisk in the place of a sequence of bytes that cannot be
displayed, and takes the other bytes of the sequence off the size, by what the first byte announces
and without a look at how many bytes there are.  Here it is as a program over memory;
`undisplayable_contained_iff` says for which byte strings it, and what follows it, stays within the
buffer.
-/

namespace LedgerNervos

namespace MessageBuffer

open Writer (write)

/-- The loop of `replace_undisplayable` over what is left of `tmp_buff`, with the position that is
written next: the size, and the position at the end. -/
def replaceFrom : ℕ → List UInt8 → ℕ → UInt8 → Writer Exn UInt8 (UInt8 × ℕ)
  | 0, _, j, size => return (size, j)
  | _, [], j, size => return (size, j)
  | fuel + 1, b :: bs, j, size =>
    if 126 < b ∨ b < 32 then do
      write j [42]
      replaceFrom fuel (bs.drop (sequenceRest b)) (j + 1) (size - UInt8.ofNat (sequenceRest b))
    else do
      write j [b]
      replaceFrom fuel bs (j + 1) size

/-- `replace_undisplayable`: the new size, and how many bytes the loop has written. -/
def replaceUndisplayable (size : UInt8) : Writer Exn UInt8 (UInt8 × ℕ) := do
  let s ← get
  let tmpBuff := s.read 0 size.toNat
  write 0 (List.replicate size.toNat 0)
  replaceFrom size.toNat tmpBuff 0 size

/-- `handle_long_message` -/
def handleLongMessage (size : UInt8) : Writer Exn UInt8 UInt8 :=
  if 64 < size then do
    write 61 [46, 46, 46]
    return 64
  else return size

/-- No subtraction from the size goes below zero. -/
def NoWrap : ℕ → List UInt8 → UInt8 → Prop
  | 0, _, _ => True
  | _, [], _ => True
  | fuel + 1, b :: bs, size =>
    if 126 < b ∨ b < 32 then
      sequenceRest b ≤ size.toNat ∧
        NoWrap fuel (bs.drop (sequenceRest b)) (size - UInt8.ofNat (sequenceRest b))
    else NoWrap fuel bs size

end MessageBuffer

/-- Every byte that cannot be displayed is followed by the bytes of the sequence that it begins. -/
inductive Whole : List UInt8 → Prop
  | nil : Whole []
  | displayable {b : UInt8} {bs : List UInt8} (hshown : ¬ (126 < b ∨ b < 32)) :
      Whole bs → Whole (b :: bs)
  | sequence {b : UInt8} {bs : List UInt8} (hshown : 126 < b ∨ b < 32)
      (hlength : sequenceRest b ≤ bs.length) : Whole (bs.drop (sequenceRest b)) → Whole (b :: bs)

/-! ### The loop -/

theorem sequenceRest_le (b : UInt8) : sequenceRest b ≤ 3 := by
  unfold sequenceRest
  split_ifs <;> decide

theorem whole_cons_displayable {b : UInt8} {bs : List UInt8} (h : ¬ (126 < b ∨ b < 32)) :
    Whole (b :: bs) ↔ Whole bs := by
  constructor
  · intro hwhole
    cases hwhole with
    | displayable _ hrest => exact hrest
    | sequence hshown _ _ => exact absurd hshown h
  · exact .displayable h

theorem whole_cons_sequence {b : UInt8} {bs : List UInt8} (h : 126 < b ∨ b < 32) :
    Whole (b :: bs) ↔ sequenceRest b ≤ bs.length ∧ Whole (bs.drop (sequenceRest b)) := by
  constructor
  · intro hwhole
    cases hwhole with
    | displayable hshown _ => exact absurd h hshown
    | sequence _ hlength hrest => exact ⟨hlength, hrest⟩
  · rintro ⟨hlength, hrest⟩
    exact .sequence h hlength hrest

/-- What the loop writes can be displayed. -/
theorem mem_replaceLoop (fuel : ℕ) (bs : List UInt8) (size : UInt8) :
    ∀ b ∈ (replaceLoop fuel bs size).1, 32 ≤ b ∧ b ≤ 126 := by
  induction fuel generalizing bs size with
  | zero => exact List.forall_mem_nil _
  | succ fuel ih =>
    cases bs with
    | nil => exact List.forall_mem_nil _
    | cons b bs =>
      rw [replaceLoop]
      split_ifs with hshown
      · exact List.forall_mem_cons.2 ⟨by decide, ih _ _⟩
      · rw [not_or, UInt8.not_lt, UInt8.not_lt] at hshown
        exact List.forall_mem_cons.2 ⟨hshown.symm, ih _ _⟩

theorem sub_ofNat_sub_ofNat (size : UInt8) (m n : ℕ) :
    size - UInt8.ofNat m - UInt8.ofNat n = size - UInt8.ofNat (m + n) := by
  rw [UInt8.ofNat_add]
  grind

/-- **The loop.**  It takes off the size what it does not write, and the bytes that are missing at
the end, of which there are none just when the string is whole. -/
theorem replaceLoop_spec {fuel : ℕ} {bs : List UInt8} (h : bs.length ≤ fuel) (size : UInt8) :
    ∃ missing ≤ 3, (replaceLoop fuel bs size).1.length ≤ bs.length ∧
      (replaceLoop fuel bs size).2 = size -
        UInt8.ofNat (bs.length + missing - (replaceLoop fuel bs size).1.length) ∧
      (missing = 0 ↔ Whole bs) := by
  induction fuel generalizing bs size with
  | zero =>
    obtain rfl := List.length_eq_zero_iff.1 (Nat.le_zero.1 h)
    exact ⟨0, by decide, Nat.le_refl _, (UInt8.sub_zero _).symm, iff_of_true rfl .nil⟩
  | succ fuel ih =>
    cases bs with
    | nil => exact ⟨0, by decide, Nat.le_refl _, (UInt8.sub_zero _).symm, iff_of_true rfl .nil⟩
    | cons b bs =>
      rw [List.length_cons] at h ⊢
      rw [replaceLoop]
      split_ifs with hshown
      · rw [whole_cons_sequence hshown]
        by_cases hlength : sequenceRest b ≤ bs.length
        · obtain ⟨missing, hle, hout, hsize, hwhole⟩ := @ih (bs.drop (sequenceRest b))
            (by rw [List.length_drop]; omega) (size - UInt8.ofNat (sequenceRest b))
          rw [List.length_drop] at hout hsize
          refine ⟨missing, hle, ?_, ?_, by rw [hwhole, and_iff_right hlength]⟩
          · rw [List.length_cons]
            omega
          · dsimp only
            rw [hsize, List.length_cons, sub_ofNat_sub_ofNat]
            congr 2
            omega
        · -- the string ends within the sequence
          have hdrop : bs.drop (sequenceRest b) = [] := List.drop_eq_nil_of_le (by omega)
          have hend (size : UInt8) : replaceLoop fuel [] size = ([], size) := by
            cases fuel <;> rfl
          have hrest := sequenceRest_le b
          rw [hdrop, hend]
          refine ⟨sequenceRest b - bs.length, by omega, by simp, ?_, by
            rw [and_iff_not_or_not]
            omega⟩
          dsimp only
          congr 2
          rw [List.length_singleton]
          omega
      · obtain ⟨missing, hle, hout, hsize, hwhole⟩ := ih (Nat.le_of_succ_le_succ h) size
        refine ⟨missing, hle, Nat.succ_le_succ hout, ?_, hwhole.trans
          (whole_cons_displayable hshown).symm⟩
        dsimp only
        rw [hsize, List.length_cons]
        congr 2
        omega

/-- In a whole string, no more is taken off than there is. -/
theorem noWrap_of_whole {bs : List UInt8} (h : Whole bs) {fuel : ℕ} {size : UInt8}
    (hsize : bs.length ≤ size.toNat) : MessageBuffer.NoWrap fuel bs size := by
  induction h generalizing fuel size with
  | nil => cases fuel <;> exact trivial
  | displayable hshown _ ih =>
    cases fuel with
    | zero => exact trivial
    | succ fuel =>
      rw [MessageBuffer.NoWrap, if_neg hshown]
      exact ih (Nat.le_of_succ_le hsize)
  | @sequence b bs hshown hlength _ ih =>
    cases fuel with
    | zero => exact trivial
    | succ fuel =>
      rw [List.length_cons] at hsize
      have hrest : (UInt8.ofNat (sequenceRest b)).toNat = sequenceRest b := by
        have hle := sequenceRest_le b
        rw [UInt8.toNat_ofNat']
        omega
      have hle : sequenceRest b ≤ size.toNat := by omega
      rw [MessageBuffer.NoWrap, if_pos hshown]
      refine ⟨hle, ih ?_⟩
      rw [UInt8.toNat_sub_of_le _ _ (by rw [UInt8.le_iff_toNat_le, hrest]; exact hle), hrest,
        List.length_drop]
      omega

/-! ### The buffer -/

namespace MessageBuffer

/-- The bytes that the loop writes, one behind the other. -/
theorem exec_replaceFrom (fuel : ℕ) (bs : List UInt8) (j : ℕ) (size : UInt8) (s : Store UInt8) :
    (replaceFrom fuel bs j size).exec s =
      (.ok ((replaceLoop fuel bs size).2, j + (replaceLoop fuel bs size).1.length),
        s.write j (replaceLoop fuel bs size).1) := by
  induction fuel generalizing bs j size s with
  | zero =>
    rw [replaceLoop, Store.write_nil]
    rfl
  | succ fuel ih =>
    cases bs with
    | nil =>
      rw [replaceLoop, Store.write_nil]
      · rfl
      · exact fun hbad => Nat.succ_ne_zero _ hbad
    | cons b bs =>
      have hpos (c : UInt8) : j + 1 = j + [c].length := rfl
      rw [replaceFrom, replaceLoop, Writer.exec_ite]
      split_ifs
      · rw [Writer.exec_bind_ok _ (Writer.exec_write _ _ _), ih, hpos 42, Store.write_write]
        simp only [List.length_cons, List.length_nil, List.singleton_append, Nat.add_assoc,
          Nat.add_comm 1]
      · rw [Writer.exec_bind_ok _ (Writer.exec_write _ _ _), ih, hpos b, Store.write_write]
        simp only [List.length_cons, List.length_nil, List.singleton_append, Nat.add_assoc,
          Nat.add_comm 1]

/-- `replace_undisplayable`, for a buffer that holds a string. -/
theorem exec_replaceUndisplayable {bs : List UInt8} {size : UInt8} (hsize : size.toNat = bs.length)
    {s : Store UInt8} (hs : s.read 0 bs.length = bs) :
    (replaceUndisplayable size).exec s =
      (.ok ((replaceLoop bs.length bs size).2, (replaceLoop bs.length bs size).1.length),
        (s.write 0 (List.replicate bs.length 0)).write 0 (replaceLoop bs.length bs size).1) := by
  rw [replaceUndisplayable, Writer.exec_bind_ok _ (Writer.exec_get _)]
  dsimp only
  rw [Writer.exec_bind_ok _ (Writer.exec_write _ _ _), exec_replaceFrom, hsize, hs, Nat.zero_add]

/-- A string is handled within its buffer: the size does not wrap, it is the number of bytes that
are written, which can be displayed, and the marks of a long message and the copy of what is shown
stay within the string. -/
structure Contained (bs : List UInt8) : Prop where
  noWrap : NoWrap bs.length bs (UInt8.ofNat bs.length)
  run : ∀ s : Store UInt8, s.read 0 bs.length = bs → s.reach ≤ bs.length →
    ∃ size s₁ size' s₂,
      (replaceUndisplayable (UInt8.ofNat bs.length)).exec s = (.ok (size, size.toNat), s₁) ∧
        size.toNat ≤ bs.length ∧ (∀ b ∈ s₁.read 0 size.toNat, 32 ≤ b ∧ b ≤ 126) ∧
        s₁.reach ≤ bs.length ∧ (handleLongMessage size).exec s₁ = (.ok size', s₂) ∧
        s₂.reach ≤ bs.length ∧ size'.toNat ≤ bs.length

theorem contained_of_whole {bs : List UInt8} (hlength : bs.length < 256) (h : Whole bs) :
    Contained bs := by
  have hsize : (UInt8.ofNat bs.length).toNat = bs.length := by
    rw [UInt8.toNat_ofNat']
    omega
  refine ⟨noWrap_of_whole h hsize.ge, fun s hs hreach => ?_⟩
  obtain ⟨missing, -, hout, hleft, hwhole⟩ :=
    replaceLoop_spec (Nat.le_refl bs.length) (UInt8.ofNat bs.length)
  have hshown := mem_replaceLoop bs.length bs (UInt8.ofNat bs.length)
  rw [hwhole.2 h, Nat.add_zero] at hleft
  rw [exec_replaceUndisplayable hsize hs, hleft]
  generalize (replaceLoop bs.length bs (UInt8.ofNat bs.length)).1 = out at *
  have hskipped : (UInt8.ofNat (bs.length - out.length)).toNat = bs.length - out.length := by
    rw [UInt8.toNat_ofNat']
    omega
  have hwritten : (UInt8.ofNat bs.length - UInt8.ofNat (bs.length - out.length)).toNat =
      out.length := by
    rw [UInt8.toNat_sub_of_le _ _ (by rw [UInt8.le_iff_toNat_le, hsize, hskipped]; omega), hsize,
      hskipped]
    omega
  generalize UInt8.ofNat bs.length - UInt8.ofNat (bs.length - out.length) = size at *
  have hreach₁ : ((s.write 0 (List.replicate bs.length 0)).write 0 out).reach ≤ bs.length := by
    refine Store.reach_write_le_of _ _ _ (Store.reach_write_le_of _ _ _ hreach ?_) (by omega)
    rw [List.length_replicate]
    omega
  generalize hs₁ : (s.write 0 (List.replicate bs.length 0)).write 0 out = s₁ at *
  have hread : s₁.read 0 size.toNat = out := by
    rw [← hs₁, hwritten, Store.read_write _ _ _ (Nat.le_refl _), List.take_length]
  by_cases hlong : 64 < size
  · have hle : 64 ≤ bs.length := by
      rw [UInt8.lt_iff_toNat_lt, hwritten] at hlong
      exact (Nat.le_of_lt hlong).trans hout
    refine ⟨size, s₁, 64, s₁.write 61 [46, 46, 46], by rw [hwritten], by omega, by rwa [hread],
      hreach₁, ?_, Store.reach_write_le_of _ _ _ hreach₁ hle, hle⟩
    rw [handleLongMessage, if_pos hlong, Writer.exec_bind_ok _ (Writer.exec_write _ _ _)]
    rfl
  · refine ⟨size, s₁, size, s₁, by rw [hwritten], by omega, by rwa [hread], hreach₁, ?_, hreach₁,
      by omega⟩
    rw [handleLongMessage, if_neg hlong]
    rfl

/-- The bytes that are missing at the end are taken off, too. -/
theorem whole_of_contained {bs : List UInt8} (hlength : bs.length < 256) (h : Contained bs) :
    Whole bs := by
  have hsize : (UInt8.ofNat bs.length).toNat = bs.length := by
    rw [UInt8.toNat_ofNat']
    omega
  have hread : (⟨fun i => bs.getD i 0, 0⟩ : Store UInt8).read 0 bs.length = bs := by
    refine List.ext_getElem (by simp [Store.read]) fun i hi hi' => ?_
    simp [Store.read, hi']
  obtain ⟨missing, hle, hout, hleft, hwhole⟩ :=
    replaceLoop_spec (Nat.le_refl bs.length) (UInt8.ofNat bs.length)
  obtain ⟨size, _, _, _, hrun, -⟩ := h.run _ hread (Nat.zero_le _)
  rw [exec_replaceUndisplayable hsize hread, hleft] at hrun
  generalize (replaceLoop bs.length bs (UInt8.ofNat bs.length)).1 = out at *
  simp only [Prod.mk.injEq, Except.ok.injEq] at hrun
  obtain ⟨⟨rfl, hcount⟩, -⟩ := hrun
  -- what is left and what is taken off add up to the size
  have hsum := congrArg UInt8.toNat (UInt8.sub_add_cancel (UInt8.ofNat bs.length)
    (UInt8.ofNat (bs.length + missing - out.length)))
  rw [UInt8.toNat_add, ← hcount, hsize, UInt8.toNat_ofNat'] at hsum
  refine hwhole.1 ?_
  omega

end MessageBuffer

/-- **Characters that cannot be displayed.**  A string of up to 215 bytes is handled within its
buffer if and only if no sequence of bytes that cannot be displayed is cut off at its end. -/
theorem undisplayable_contained_iff (bs : List UInt8) (h : bs.length ≤ 215) :
    MessageBuffer.Contained bs ↔ Whole bs := by
  have hlength : bs.length < 256 := Nat.lt_of_le_of_lt h (by decide)
  exact ⟨MessageBuffer.whole_of_contained hlength, MessageBuffer.contained_of_whole hlength⟩

/-- A greeting, with a character of two bytes. -/
theorem undisplayable_contained_iff_greeting :
    [0x47, 0x72, 0xc3, 0xbc, 0x65].length ≤ 215 ∧
      MessageBuffer.Contained [0x47, 0x72, 0xc3, 0xbc, 0x65] := by
  refine ⟨by decide, (undisplayable_contained_iff _ (by decide)).2 ?_⟩
  refine .displayable (by decide) (.displayable (by decide) (.sequence (by decide) (by decide) ?_))
  exact .displayable (by decide) .nil

/-- The first byte of a sequence of four takes three bytes off a size of one. -/
theorem lone_lead_byte_not_contained : ¬ MessageBuffer.Contained [0xf0] := by
  intro hcontained
  have hrest : sequenceRest 0xf0 = 3 := by decide
  have hwrap := hcontained.noWrap
  simp only [List.length_singleton, MessageBuffer.NoWrap, hrest] at hwrap
  rw [if_pos (by decide)] at hwrap
  exact absurd hwrap.1 (by decide)

end LedgerNervos
