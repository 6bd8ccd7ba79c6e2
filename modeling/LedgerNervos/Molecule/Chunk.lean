import Mathlib.Algebra.GroupWithZero.Nat
import Mathlib.Data.List.Basic
import Mathlib.Data.Nat.Notation

/-!
# Bytes that arrive in pieces

A streaming reader never sees its whole input.  It is called once for every piece that arrives,
and a piece may end inside any number, vector or table.  A `Chunk` is one such piece: the bytes
together with the address of the first one in the buffer they were received into.

* `joined cs` is the byte string that the pieces `cs` make up;
* `takeC n cs` and `dropC n cs` cut the pieces after `n` bytes.  When the cut falls on the end of
  a piece, the second half starts with the *empty* rest of that piece: the reader that continues
  there is called in the same round, before the next piece has arrived.
-/

namespace LedgerNervos

/-- A piece of the input: its bytes and the address of the first one. -/
structure Chunk where
  /-- Position of the first byte in the receive buffer. -/
  off : ℕ
  /-- The bytes themselves. -/
  bytes : List UInt8
deriving DecidableEq, Repr

namespace Chunk

/-- Number of bytes. -/
def length (c : Chunk) : ℕ := c.bytes.length

/-- The first `n` bytes. -/
def take (c : Chunk) (n : ℕ) : Chunk := ⟨c.off, c.bytes.take n⟩

/-- The chunk after its first `n` bytes have been consumed. -/
def drop (c : Chunk) (n : ℕ) : Chunk := ⟨c.off + n, c.bytes.drop n⟩

@[simp] theorem bytes_take (c : Chunk) (n : ℕ) : (c.take n).bytes = c.bytes.take n := rfl

@[simp] theorem bytes_drop (c : Chunk) (n : ℕ) : (c.drop n).bytes = c.bytes.drop n := rfl

@[simp] theorem length_take (c : Chunk) (n : ℕ) : (c.take n).length = min n c.length := by
  simp [length]

@[simp] theorem length_drop (c : Chunk) (n : ℕ) : (c.drop n).length = c.length - n := by
  simp [length]

@[simp] theorem drop_drop (c : Chunk) (m n : ℕ) : (c.drop m).drop n = c.drop (m + n) := by
  simp [drop, Nat.add_assoc]

theorem take_take (c : Chunk) (m n : ℕ) : (c.take n).take m = c.take (min m n) := by
  simp [take, List.take_take]

theorem drop_take (c : Chunk) (m n : ℕ) : (c.take (m + n)).drop m = (c.drop m).take n := by
  simp [take, drop, List.drop_take]

theorem drop_zero (c : Chunk) : c.drop 0 = c := by simp [drop]

theorem take_length (c : Chunk) : c.take c.length = c := by simp [take, length]

end Chunk

/-- The byte string made up by a sequence of chunks. -/
def joined (cs : List Chunk) : List UInt8 := cs.flatMap Chunk.bytes

@[simp] theorem joined_nil : joined [] = [] := rfl

@[simp] theorem joined_cons (c : Chunk) (cs : List Chunk) :
    joined (c :: cs) = c.bytes ++ joined cs := rfl

@[simp] theorem joined_append (cs ds : List Chunk) :
    joined (cs ++ ds) = joined cs ++ joined ds := by
  simp [joined]

/-- The chunks up to byte `n`. -/
def takeC : ℕ → List Chunk → List Chunk
  | _, [] => []
  | n, c :: cs => if n ≤ c.length then [c.take n] else c :: takeC (n - c.length) cs

/-- The chunks from byte `n` on. -/
def dropC : ℕ → List Chunk → List Chunk
  | _, [] => []
  | n, c :: cs => if n ≤ c.length then c.drop n :: cs else dropC (n - c.length) cs

@[simp] theorem takeC_nil (n : ℕ) : takeC n [] = [] := by simp [takeC]

@[simp] theorem dropC_nil (n : ℕ) : dropC n [] = [] := by simp [dropC]

theorem takeC_of_le {n : ℕ} {c : Chunk} (h : n ≤ c.length) (cs : List Chunk) :
    takeC n (c :: cs) = [c.take n] := by simp [takeC, h]

theorem dropC_of_le {n : ℕ} {c : Chunk} (h : n ≤ c.length) (cs : List Chunk) :
    dropC n (c :: cs) = c.drop n :: cs := by simp [dropC, h]

theorem takeC_of_lt {n : ℕ} {c : Chunk} (h : c.length < n) (cs : List Chunk) :
    takeC n (c :: cs) = c :: takeC (n - c.length) cs := by simp [takeC, Nat.not_le.2 h]

theorem dropC_of_lt {n : ℕ} {c : Chunk} (h : c.length < n) (cs : List Chunk) :
    dropC n (c :: cs) = dropC (n - c.length) cs := by simp [dropC, Nat.not_le.2 h]

theorem dropC_zero (cs : List Chunk) : dropC 0 cs = cs := by
  cases cs with
  | nil => rfl
  | cons c cs => rw [dropC_of_le (Nat.zero_le _), Chunk.drop_zero]

@[simp] theorem joined_takeC (n : ℕ) (cs : List Chunk) :
    joined (takeC n cs) = (joined cs).take n := by
  induction cs generalizing n with
  | nil => simp
  | cons c cs ih =>
    by_cases h : n ≤ c.length
    · rw [takeC_of_le h, joined_cons, joined_nil, joined_cons, List.append_nil, Chunk.bytes_take,
        List.take_append_of_le_length h]
    · rw [takeC_of_lt (Nat.not_le.1 h), joined_cons, joined_cons, ih, List.take_append]
      rw [List.take_of_length_le (Nat.le_of_lt (Nat.not_le.1 h))]
      rfl

@[simp] theorem joined_dropC (n : ℕ) (cs : List Chunk) :
    joined (dropC n cs) = (joined cs).drop n := by
  induction cs generalizing n with
  | nil => simp
  | cons c cs ih =>
    by_cases h : n ≤ c.length
    · rw [dropC_of_le h, joined_cons, joined_cons, Chunk.bytes_drop,
        List.drop_append_of_le_length h]
    · rw [dropC_of_lt (Nat.not_le.1 h), joined_cons, ih, List.drop_append]
      rw [List.drop_of_length_le (Nat.le_of_lt (Nat.not_le.1 h))]
      rfl

/-- Cutting twice is cutting once, further on. -/
theorem dropC_dropC (m n : ℕ) (cs : List Chunk) : dropC n (dropC m cs) = dropC (m + n) cs := by
  induction cs generalizing m with
  | nil => simp
  | cons c cs ih =>
    by_cases h : m ≤ c.length
    · rw [dropC_of_le h]
      by_cases h' : n ≤ c.length - m
      · rw [dropC_of_le (by simpa using h'), dropC_of_le (by omega), Chunk.drop_drop]
      · rw [dropC_of_lt (by simpa using h'), dropC_of_lt (by omega), Chunk.length_drop]
        congr 1; omega
    · rw [dropC_of_lt (Nat.not_le.1 h), dropC_of_lt (by omega), ih]
      congr 1; omega

theorem takeC_takeC (m n : ℕ) (cs : List Chunk) : takeC m (takeC (m + n) cs) = takeC m cs := by
  induction cs generalizing m with
  | nil => simp
  | cons c cs ih =>
    by_cases h : m + n ≤ c.length
    · rw [takeC_of_le h, takeC_of_le (by simp; omega), takeC_of_le (by omega), Chunk.take_take]
      simp
    · rw [takeC_of_lt (Nat.not_le.1 h)]
      by_cases h' : m ≤ c.length
      · rw [takeC_of_le h', takeC_of_le h']
      · rw [takeC_of_lt (Nat.not_le.1 h'), takeC_of_lt (Nat.not_le.1 h'),
          show m + n - c.length = m - c.length + n by omega, ih]

theorem dropC_takeC (m n : ℕ) (cs : List Chunk) :
    dropC m (takeC (m + n) cs) = takeC n (dropC m cs) := by
  induction cs generalizing m with
  | nil => simp
  | cons c cs ih =>
    by_cases h : m + n ≤ c.length
    · rw [takeC_of_le h, dropC_of_le (by simp; omega), dropC_of_le (by omega),
        takeC_of_le (by simp; omega), Chunk.drop_take]
    · rw [takeC_of_lt (Nat.not_le.1 h)]
      by_cases h' : m ≤ c.length
      · rw [dropC_of_le h', dropC_of_le h', takeC_of_lt (by simp; omega), Chunk.length_drop]
        congr 2; omega
      · rw [dropC_of_lt (Nat.not_le.1 h'), dropC_of_lt (Nat.not_le.1 h'),
          show m + n - c.length = m - c.length + n by omega, ih]

theorem dropC_ne_nil {n : ℕ} {cs : List Chunk} (h : n ≤ (joined cs).length) (hne : cs ≠ []) :
    dropC n cs ≠ [] := by
  induction cs generalizing n with
  | nil => exact absurd rfl hne
  | cons c cs ih =>
    by_cases h' : n ≤ c.length
    · rw [dropC_of_le h']; simp
    · rw [dropC_of_lt (Nat.not_le.1 h')]
      simp only [joined_cons, List.length_append] at h
      have hlen : n - c.length ≤ (joined cs).length := by
        simp only [Chunk.length] at h' ⊢; omega
      refine ih hlen ?_
      rintro rfl
      simp only [joined_nil, List.length_nil] at hlen
      omega

/-! ### Cuts -/

/-- The pieces are cut after `n` bytes. -/
def CutAt (cs : List Chunk) (n : ℕ) : Prop :=
  ∃ pre post, cs = pre ++ post ∧ (joined pre).length = n

theorem CutAt.zero (cs : List Chunk) : CutAt cs 0 := ⟨[], cs, rfl, rfl⟩

theorem cutAt_nil {n : ℕ} : CutAt [] n ↔ n = 0 := by
  constructor
  · rintro ⟨pre, post, h, rfl⟩
    rw [(List.append_eq_nil_iff.1 h.symm).1]
    rfl
  · rintro rfl
    exact ⟨[], [], rfl, rfl⟩

theorem cutAt_cons {c : Chunk} {cs : List Chunk} {n : ℕ} :
    CutAt (c :: cs) n ↔ n = 0 ∨ c.length ≤ n ∧ CutAt cs (n - c.length) := by
  constructor
  · rintro ⟨pre, post, h, rfl⟩
    cases pre with
    | nil => exact .inl rfl
    | cons d pre =>
      obtain ⟨rfl, rfl⟩ := List.cons.inj h
      refine .inr ⟨?_, pre, post, rfl, ?_⟩
      all_goals
        rw [joined_cons, List.length_append]
        simp only [Chunk.length]
        omega
  · rintro (rfl | ⟨hle, pre, post, rfl, hn⟩)
    · exact ⟨[], _, rfl, rfl⟩
    · refine ⟨c :: pre, post, rfl, ?_⟩
      rw [joined_cons, List.length_append, hn]
      exact Nat.add_sub_of_le hle

theorem cutAt_dropC {m n : ℕ} (hn : 0 < n) (cs : List Chunk) :
    CutAt (dropC m cs) n ↔ CutAt cs (m + n) := by
  induction cs generalizing m with
  | nil =>
    rw [dropC_nil, cutAt_nil, cutAt_nil]
    omega
  | cons c cs ih =>
    have hne : m + n ≠ 0 := by omega
    rw [cutAt_cons, or_iff_right hne]
    by_cases h : m ≤ c.length
    · have hle : c.length - m ≤ n ↔ c.length ≤ m + n := by omega
      rw [dropC_of_le h, cutAt_cons, or_iff_right (Nat.ne_of_gt hn), Chunk.length_drop, hle]
      refine and_congr_right fun hle => ?_
      have hsub : n - (c.length - m) = m + n - c.length := by omega
      rw [hsub]
    · have h := Nat.not_le.1 h
      have hle : c.length ≤ m + n := by omega
      have hsub : m - c.length + n = m + n - c.length := by omega
      rw [dropC_of_lt h, ih, hsub, and_iff_right hle]

theorem cutAt_takeC {n b : ℕ} (hb : b < n) (cs : List Chunk) :
    CutAt (takeC n cs) b ↔ CutAt cs b := by
  induction cs generalizing n b with
  | nil => rw [takeC_nil]
  | cons c cs ih =>
    by_cases h : n ≤ c.length
    · have hn : ¬ n ≤ b := Nat.not_le.2 hb
      have hc : ¬ c.length ≤ b := by omega
      rw [takeC_of_le h, cutAt_cons, cutAt_cons, Chunk.length_take, Nat.min_eq_left h]
      simp only [hn, hc, false_and]
    · have h := Nat.not_le.1 h
      rw [takeC_of_lt h, cutAt_cons, cutAt_cons]
      refine or_congr_right (and_congr_right fun hle => ih ?_)
      omega

end LedgerNervos
