import Mathlib.Data.List.Basic
import Mathlib.Data.Nat.Notation

/-!
# Writing into a memory

`Store` is a memory of cells, with a bound for the positions that have been written to.
`Writer` is the monad of actions that write into a memory and can throw an exception; unlike the
result, what has been written before is still there then.

## Main results

* `Store.write_write` : two blocks, one behind the other, are written like one.
* `Store.write_overlay` : a block that covers the end of the last one replaces it.
* `Store.read_write` : what has been written is read back.
* `Writer.exec_bind` : actions, one after the other.
-/

namespace LedgerNervos

variable {B : Type}

/-- A memory, with a bound for the positions that have been written to. -/
@[ext]
structure Store (B : Type) where
  cells : ℕ → B
  reach : ℕ

namespace Store

/-- Write a block. -/
def write (s : Store B) (pos : ℕ) (bs : List B) : Store B where
  cells i := if pos ≤ i then (bs[i - pos]?).getD (s.cells i) else s.cells i
  reach := if bs.isEmpty then s.reach else max s.reach (pos + bs.length)

/-- The `n` cells from a position on. -/
def read (s : Store B) (pos n : ℕ) : List B := (List.range n).map fun i => s.cells (pos + i)

variable (s : Store B) (pos : ℕ) (as bs cs : List B)

@[simp] theorem write_nil : s.write pos [] = s := by
  ext i
  · simp [write]
  · rfl

/-- What lies behind a block has not been written with it. -/
theorem cells_write_of_le {i : ℕ} (h : pos + bs.length ≤ i) :
    (s.write pos bs).cells i = s.cells i := by
  rw [write]
  dsimp only
  rw [if_pos (by omega), List.getElem?_eq_none (by omega)]
  rfl

theorem cells_write_of_lt {i : ℕ} (h : i < pos) : (s.write pos bs).cells i = s.cells i :=
  if_neg (by omega)

theorem cells_write {i : ℕ} (h : i < bs.length) : (s.write pos bs).cells (pos + i) = bs[i] := by
  rw [write]
  dsimp only
  rw [if_pos (by omega), Nat.add_sub_cancel_left, List.getElem?_eq_getElem h]
  rfl

/-- A block that covers the end of the last one replaces it. -/
theorem write_overlay (h : bs.length ≤ cs.length) :
    (s.write pos (as ++ bs)).write (pos + as.length) cs = s.write pos (as ++ cs) := by
  ext i
  · by_cases hi : i < pos + as.length
    · rw [cells_write_of_lt _ _ _ hi]
      by_cases hpos : i < pos
      · rw [cells_write_of_lt _ _ _ hpos, cells_write_of_lt _ _ _ hpos]
      · obtain ⟨k, rfl⟩ := Nat.exists_eq_add_of_le (Nat.not_lt.1 hpos)
        have hk : k < as.length := by omega
        rw [cells_write _ _ _ (by simp; omega), cells_write _ _ _ (by simp; omega),
          List.getElem_append_left hk, List.getElem_append_left hk]
    · obtain ⟨k, rfl⟩ := Nat.exists_eq_add_of_le (Nat.not_lt.1 hi)
      by_cases hk : k < cs.length
      · have hlt : as.length + k < (as ++ cs).length := by simp; omega
        have hlast := cells_write s pos (as ++ cs) hlt
        rw [cells_write _ _ _ hk, Nat.add_assoc, hlast, List.getElem_append_right (by omega)]
        congr 1
        omega
      · rw [cells_write_of_le _ _ _ (by omega), cells_write_of_le _ _ _ (by simp; omega),
          cells_write_of_le _ _ _ (by simp; omega)]
  · cases cs with
    | nil =>
      obtain rfl : bs = [] := List.length_eq_zero_iff.1 (Nat.le_zero.1 h)
      rfl
    | cons c cs =>
      simp only [write, List.isEmpty_iff, List.append_eq_nil_iff, List.length_append,
        List.length_cons, reduceCtorEq, and_false, if_false] at h ⊢
      split_ifs
      · omega
      · omega

/-- Two blocks, one behind the other. -/
theorem write_write :
    (s.write pos as).write (pos + as.length) bs = s.write pos (as ++ bs) := by
  have hoverlay := s.write_overlay pos as [] bs (Nat.zero_le _)
  rwa [List.append_nil] at hoverlay

/-- Blocks that do not overlap can be written in any order. -/
theorem write_comm {pos' : ℕ} (h : pos + bs.length ≤ pos') :
    (s.write pos' cs).write pos bs = (s.write pos bs).write pos' cs := by
  ext i
  · by_cases hi : pos' ≤ i
    · have hnone : bs[i - pos]? = none := List.getElem?_eq_none (by omega)
      simp [write, hi, hnone]
    · simp [write, hi]
  · simp only [write]
    split_ifs
    · rfl
    · rfl
    · rfl
    · exact Nat.max_right_comm ..

/-- A block within the last one replaces a part of it. -/
theorem write_within (ds : List B) (h : bs.length = cs.length) :
    (s.write pos (as ++ bs ++ ds)).write (pos + as.length) cs = s.write pos (as ++ cs ++ ds) := by
  have hover := s.write_overlay pos as bs cs (Nat.le_of_eq h)
  have hend : pos + as.length + cs.length = pos + (as ++ bs).length := by
    rw [List.length_append, h, Nat.add_assoc]
  have hend' : pos + (as ++ bs).length = pos + (as ++ cs).length := by
    rw [List.length_append, List.length_append, h]
  rw [← s.write_write pos (as ++ bs) ds, write_comm _ _ _ _ (Nat.le_of_eq hend), hover, hend',
    write_write]

/-- What has been written is read back. -/
theorem read_write {n : ℕ} (h : n ≤ bs.length) : (s.write pos bs).read pos n = bs.take n := by
  refine List.ext_getElem (by simp [read, h]) fun i hi _ => ?_
  have hi' : i < n := by simpa [read] using hi
  simp only [read, List.getElem_map, List.getElem_range, List.getElem_take]
  exact s.cells_write pos bs (by omega)

theorem read_add (m n : ℕ) : s.read pos (m + n) = s.read pos m ++ s.read (pos + m) n := by
  rw [read, List.range_add, List.map_append, List.map_map]
  exact congrArg (s.read pos m ++ ·) (List.map_congr_left fun i _ => by
    rw [Function.comp_apply, Nat.add_assoc])

/-- A block lies within a bound. -/
theorem reach_write_le {n : ℕ} (hbs : bs ≠ []) :
    (s.write pos bs).reach ≤ n ↔ s.reach ≤ n ∧ pos + bs.length ≤ n := by
  rw [write]
  dsimp only
  rw [if_neg (by simpa using hbs)]
  exact Nat.max_le

theorem reach_write_le_of {n : ℕ} (hs : s.reach ≤ n) (hbs : pos + bs.length ≤ n) :
    (s.write pos bs).reach ≤ n := by
  by_cases hnil : bs = []
  · rw [hnil, write_nil]
    exact hs
  · exact (s.reach_write_le pos bs hnil).2 ⟨hs, hbs⟩

end Store

/-! ### Actions -/

/-- An action that writes into a memory, and can throw an exception. -/
abbrev Writer (ε B α : Type) : Type := ExceptT ε (StateM (Store B)) α

namespace Writer

variable {ε α β : Type}

/-- What an action gives, and the memory behind it. -/
def exec (m : Writer ε B α) (s : Store B) : Except ε α × Store B := StateT.run (ExceptT.run m) s

/-- Write a block. -/
def write (pos : ℕ) (bs : List B) : Writer ε B Unit := modify (·.write pos bs)

variable (s : Store B)

@[simp] theorem exec_pure (a : α) : exec (pure a : Writer ε B α) s = (.ok a, s) := rfl

@[simp] theorem exec_throw (e : ε) : exec (throw e : Writer ε B α) s = (.error e, s) := rfl

@[simp] theorem exec_write (pos : ℕ) (bs : List B) :
    exec (write pos bs : Writer ε B Unit) s = (.ok (), s.write pos bs) := rfl

@[simp] theorem exec_get : exec (get : Writer ε B (Store B)) s = (.ok s, s) := rfl

/-- Actions, one after the other. -/
theorem exec_bind (m : Writer ε B α) (f : α → Writer ε B β) :
    exec (m >>= f) s = match exec m s with
      | (.ok a, s') => exec (f a) s'
      | (.error e, s') => (.error e, s') := by
  simp only [exec, ExceptT.run_bind, StateT.run_bind]
  cases h : StateT.run (ExceptT.run m) s with
  | mk r s' => cases r <;> rfl

theorem exec_bind_ok {m : Writer ε B α} {f : α → Writer ε B β} {a : α} {s' : Store B}
    (h : exec m s = (.ok a, s')) : exec (m >>= f) s = exec (f a) s' := by
  rw [exec_bind, h]

theorem exec_ite (p : Prop) [Decidable p] (m m' : Writer ε B α) :
    exec (if p then m else m') s = if p then exec m s else exec m' s := by
  split_ifs <;> rfl

end Writer

end LedgerNervos
