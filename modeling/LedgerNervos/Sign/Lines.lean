import LedgerNervos.Sign.Books
import Mathlib.Data.List.Chain
import Mathlib.Data.List.Forall2
import Mathlib.Data.UInt

/-!
# The lines of the payments

Payments that follow each other and go to one destination share a line on the screens: `Lines b
groups` says that the lines in the books `b` stand for `groups`, which put together are the
payments that have been taken (`Runs.lines`).  The lines are as long as the memory has room for
them, and a second one makes the transaction a transfer with several outputs.
-/

namespace LedgerNervos

variable {env : Env}

/-! ### Lists -/

theorem modify_append_cons {α : Type} (l : List α) (a : α) (r : List α) (f : α → α) :
    (l ++ a :: r).modify l.length f = l ++ f a :: r := by
  induction l with
  | nil => rfl
  | cons b l ih =>
    rw [List.cons_append, List.length_cons, List.modify_succ_cons, ih]
    rfl

theorem getD_append_cons {α : Type} (l : List α) (a : α) (r : List α) (d : α) :
    (l ++ a :: r).getD l.length d = a := by
  rw [List.getD_eq_getElem?_getD, List.getElem?_append_right (Nat.le_refl _), Nat.sub_self]
  rfl

theorem forall₂_concat {α β : Type} {R : α → β → Prop} {as : List α} {bs : List β} {a : α} {b : β}
    (h : List.Forall₂ R as bs) (hab : R a b) : List.Forall₂ R (as ++ [a]) (bs ++ [b]) := by
  induction h with
  | nil => exact .cons hab .nil
  | cons h₁ _ ih => exact .cons h₁ ih

theorem forall₂_concat_right {α β : Type} {R : α → β → Prop} {as : List α} {bs : List β} {b : β}
    (h : List.Forall₂ R as (bs ++ [b])) :
    ∃ as' a, as = as' ++ [a] ∧ List.Forall₂ R as' bs ∧ R a b := by
  induction bs generalizing as with
  | nil =>
    obtain ⟨a, u, ha, hu, rfl⟩ := List.forall₂_cons_right_iff.1 h
    obtain rfl := List.forall₂_nil_right_iff.1 hu
    exact ⟨[], a, rfl, .nil, ha⟩
  | cons b' bs ih =>
    obtain ⟨a', u, ha, hu, rfl⟩ := List.forall₂_cons_right_iff.1 h
    obtain ⟨as', a, rfl, has, hab⟩ := ih hu
    exact ⟨a' :: as', a, rfl, .cons ha has, hab⟩

/-- The entries of a list by their numbers, up to its end. -/
theorem map_range_getD {α : Type} (l : List α) (d : α) {n : ℕ} (hn : n ≤ l.length) :
    (List.range n).map (fun i => l.getD i d) = l.take n := by
  apply List.ext_getElem
  · rw [List.length_map, List.length_range, List.length_take, Nat.min_eq_left hn]
  · intro i hi _
    rw [List.length_map, List.length_range] at hi
    rw [List.getElem_map, List.getElem_range, List.getElem_take, List.getD_eq_getElem?_getD,
      List.getElem?_eq_getElem (Nat.lt_of_lt_of_le hi hn)]
    rfl

/-! ### Lines -/

/-- The line `e` stands for the payments `os`. -/
structure LineOf (e : Output) (os : List Output) : Prop where
  nonempty : os ≠ []
  capacity : e.capacity = (os.map Output.capacity).sum
  /-- Payments share a line when the first 20 bytes of their args agree. -/
  same : ∀ p ∈ os, e.SameLine p
  /-- The line shows the destination of the first one. -/
  destination : ∀ p ∈ os.head?, e.destination = p.destination

/-- The lines in the books stand for `groups` of payments. -/
structure Lines (b : Books) (groups : List (List Output)) : Prop where
  lines : ∃ lines, List.Forall₂ LineOf lines groups ∧
    lines.IsChain (fun e f => ¬ e.SameLine f) ∧
    b.outputs = lines ++ List.replicate (maxOutputs - groups.length) ({} : Output)
  outputCount : b.outputCount = groups.length
  le : groups.length ≤ maxOutputs
  hasDestination : b.flags.hasDestinationAddress = true ↔ groups ≠ []
  tag : b.tag = .multiOutputTransfer ↔ 2 ≤ groups.length

/-- A line for one payment. -/
theorem lineOf_single (p : Output) : LineOf { p with capacity := 0 + p.capacity } [p] where
  nonempty := List.cons_ne_nil _ _
  capacity := by
    rw [List.map_cons, List.sum_cons, List.map_nil, List.sum_nil, UInt64.add_zero,
      UInt64.zero_add]
  same q hq := by
    obtain rfl := List.mem_singleton.1 hq
    exact ⟨rfl, rfl⟩
  destination q hq := by
    obtain rfl := Option.some.inj hq
    rfl

/-- A line with one more payment to its destination. -/
theorem LineOf.concat {e : Output} {os : List Output} {p : Output} (h : LineOf e os)
    (hsame : e.SameLine p) : LineOf { e with capacity := e.capacity + p.capacity } (os ++ [p]) where
  nonempty := List.append_ne_nil_of_right_ne_nil _ (List.cons_ne_nil _ _)
  capacity := by
    rw [List.map_append, List.sum_append, List.map_cons, List.sum_cons, List.map_nil,
      List.sum_nil, UInt64.add_zero, h.capacity]
  same q hq := by
    rcases List.mem_append.1 hq with hq | hq
    · exact h.same q hq
    · rw [List.mem_singleton.1 hq]
      exact hsame
  destination q hq := by
    cases os with
    | nil => exact absurd rfl h.nonempty
    | cons p₁ os => exact h.destination q hq

/-- A payment is added to the lines. -/
theorem LineTaken.lines {p : Output} {b b' : Books} {groups : List (List Output)}
    (h : LineTaken p b b') (hlines : Lines b groups)
    (hflag : b'.flags.hasDestinationAddress = true) :
    ∃ groups', Lines b' groups' ∧ groups'.flatten = groups.flatten ++ [p] := by
  obtain ⟨lines, hlineOf, hchain, houtputs⟩ := hlines.lines
  have hlength : lines.length = groups.length := hlineOf.length_eq
  have hcount := hlines.outputCount
  cases h with
  | fresh room tag outputs outputCount =>
    rw [hcount] at room
    refine ⟨groups ++ [[p]], ⟨⟨lines ++ [_], forall₂_concat hlineOf (lineOf_single p), ?_, ?_⟩,
      ?_, ?_, iff_of_true hflag (by simp), ?_⟩, by rw [List.flatten_append, List.flatten_singleton]⟩
    · -- the new line is not for the destination of the last one
      refine List.isChain_append.2 ⟨hchain, List.isChain_singleton _, fun e he f hf => ?_⟩
      obtain rfl := Option.some.inj hf
      obtain ⟨ls, rfl⟩ := List.getLast?_eq_some_iff.1 he
      rcases tag with ⟨-, hzero, -⟩ | ⟨-, hother, -⟩
      · rw [← hlength, List.length_append] at hcount
        exact absurd (hcount.symm.trans hzero) (Nat.succ_ne_zero _)
      · rw [hcount, ← hlength, List.length_append, houtputs, List.append_assoc,
          List.singleton_append, show ls.length + [e].length - 1 = ls.length from rfl,
          getD_append_cons] at hother
        exact hother
    · have hroom : List.replicate (maxOutputs - groups.length) ({} : Output) =
          {} :: List.replicate (maxOutputs - (groups.length + 1)) {} := by
        rw [← List.replicate_succ]
        congr 1
        omega
      rw [outputs, houtputs, hroom, hcount, List.length_append, List.append_assoc, ← hlength,
        modify_append_cons]
      rfl
    · rw [outputCount, hcount, List.length_append]
      rfl
    · rw [List.length_append]
      exact room
    · rw [List.length_append, List.length_singleton]
      rcases tag with ⟨-, hzero, htag⟩ | ⟨hopen, -, htag, -⟩
      · -- a first line does not change the tag
        have hempty : groups.length = 0 := hcount.symm.trans hzero
        rw [htag, hlines.tag]
        omega
      · have hsome : 0 < groups.length := List.length_pos_iff.2 (hlines.hasDestination.1 hopen)
        exact iff_of_true htag (by omega)
  | last open_ tag same outputs outputCount =>
    obtain ⟨groups, os, rfl⟩ :=
      (List.eq_nil_or_concat' groups).resolve_left (hlines.hasDestination.1 open_)
    obtain ⟨lines, e, rfl, hlineOf, he⟩ := forall₂_concat_right hlineOf
    have hlast : b.outputCount - 1 = lines.length := by
      rw [hcount, ← hlength, List.length_append]
      rfl
    rw [List.append_assoc, List.singleton_append] at houtputs
    rw [houtputs, hlast, getD_append_cons] at same
    refine ⟨groups ++ [os ++ [p]], ⟨⟨lines ++ [_], forall₂_concat hlineOf (he.concat same), ?_,
      ?_⟩, ?_, ?_, iff_of_true hflag (by simp), ?_⟩, ?_⟩
    · -- the last line keeps its destination
      obtain ⟨hbefore, -, hbetween⟩ := List.isChain_append.1 hchain
      refine List.isChain_append.2 ⟨hbefore, List.isChain_singleton _, fun f hf e' he' => ?_⟩
      obtain rfl := Option.some.inj he'
      exact hbetween f hf e rfl
    · rw [outputs, houtputs, hlast, modify_append_cons, List.append_assoc, List.length_append,
        List.length_append]
      rfl
    · rw [outputCount, hcount, List.length_append, List.length_append]
      rfl
    · have hle := hlines.le
      rwa [List.length_append] at hle ⊢
    · rw [tag, hlines.tag, List.length_append, List.length_append]
      rfl
    · simp

/-- Something that is no payment leaves the lines alone. -/
theorem Lines.of_eq {b b' : Books} {groups : List (List Output)} (h : Lines b groups)
    (htag : b'.tag = b.tag) (houtputs : b'.outputs = b.outputs)
    (hcount : b'.outputCount = b.outputCount)
    (hflag : b'.flags.hasDestinationAddress = b.flags.hasDestinationAddress) : Lines b' groups where
  lines := by
    rw [houtputs]
    exact h.lines
  outputCount := hcount.trans h.outputCount
  le := h.le
  hasDestination := by
    rw [hflag]
    exact h.hasDestination
  tag := by
    rw [htag]
    exact h.tag

/-- The payments among outputs. -/
def payments (ls : List (OutputKind × UInt32 × CellOutputVal)) : List CellOutputVal :=
  (ls.filter fun l => l.1 = .plain).map fun l => l.2.2

theorem payments_append (ls ls' : List (OutputKind × UInt32 × CellOutputVal)) :
    payments (ls ++ ls') = payments ls ++ payments ls' := by
  rw [payments, List.filter_append, List.map_append]
  rfl

/-- An output is added to the lines, if it is a payment. -/
theorem OutputTaken.lines {l : OutputKind × UInt32 × CellOutputVal} {b b' : Books}
    {groups : List (List Output)} (h : OutputTaken env b l b') (hlines : Lines b groups) :
    ∃ groups' ps, Lines b' groups' ∧ List.Forall₂ PaymentOf ps (payments [l]) ∧
      groups'.flatten = groups.flatten ++ ps := by
  have hflags : b'.flags.hasDestinationAddress =
      (b.flags.hasDestinationAddress || decide (l.1 = .plain)) := by rw [h.books]
  have hline := h.line
  by_cases hplain : l.1 = .plain
  · rw [if_pos hplain] at hline
    obtain ⟨p, hp, hline⟩ := hline
    have hpayments : payments [l] = [l.2.2] := by simp [payments, hplain]
    obtain ⟨groups', hlines', hflatten⟩ :=
      hline.lines hlines (by rw [hflags, decide_eq_true hplain, Bool.or_true])
    rw [hpayments]
    exact ⟨groups', [p], hlines', .cons hp .nil, hflatten⟩
  · rw [if_neg hplain] at hline
    obtain ⟨htag, houtputs, hcount⟩ := hline
    rw [decide_eq_false hplain, Bool.or_false] at hflags
    have hpayments : payments [l] = [] := by simp [payments, hplain]
    rw [hpayments]
    exact ⟨groups, [], hlines.of_eq htag houtputs hcount hflags, .nil, (List.append_nil _).symm⟩

/-- **Lines.**  Behind the outputs, the lines stand for the payments, in their order. -/
theorem Runs.lines {b b' : Books} {ls : List (OutputKind × UInt32 × CellOutputVal)}
    {groups : List (List Output)} (h : Runs (OutputTaken env) b ls b')
    (hlines : Lines b groups) :
    ∃ groups' ps, Lines b' groups' ∧ List.Forall₂ PaymentOf ps (payments ls) ∧
      groups'.flatten = groups.flatten ++ ps := by
  induction h generalizing groups with
  | nil s => exact ⟨groups, [], hlines, .nil, (List.append_nil _).symm⟩
  | @cons b b₁ b' l ls h₁ _ ih =>
    obtain ⟨groups₁, ps₁, hlines₁, hps₁, hflatten₁⟩ := h₁.lines hlines
    obtain ⟨groups', ps, hlines', hps, hflatten'⟩ := ih hlines₁
    refine ⟨groups', ps₁ ++ ps, hlines', ?_, ?_⟩
    · rw [← List.singleton_append, payments_append]
      exact List.rel_append hps₁ hps
    · rw [hflatten', hflatten₁, List.append_assoc]

/-- The books before the outputs have no lines. -/
theorem lines_nil {b : Books} (houtputs : b.outputs = List.replicate maxOutputs {})
    (hcount : b.outputCount = 0) (hflags : b.flags.hasDestinationAddress = false)
    (htag : b.tag ≠ .multiOutputTransfer) : Lines b [] where
  lines := ⟨[], .nil, .nil, houtputs⟩
  outputCount := hcount
  le := Nat.zero_le _
  hasDestination := iff_of_false (by rw [hflags]; exact Bool.false_ne_true) (not_not_intro rfl)
  tag := iff_of_false htag (by decide)

/-- The lines that are shown. -/
theorem Lines.take {b : Books} {groups : List (List Output)} (h : Lines b groups) :
    List.Forall₂ LineOf (b.outputs.take b.outputCount) groups ∧
      (b.outputs.take b.outputCount).IsChain fun e f => ¬ e.SameLine f := by
  obtain ⟨lines, hlineOf, hchain, houtputs⟩ := h.lines
  rw [houtputs, h.outputCount, ← hlineOf.length_eq, List.take_left]
  exact ⟨hlineOf, hchain⟩

/-- The capacities in the lines add up to that of the payments. -/
theorem Lines.sum {b : Books} {groups : List (List Output)} (h : Lines b groups) :
    ((b.outputs.take b.outputCount).map Output.capacity).sum =
      (groups.flatten.map Output.capacity).sum := by
  have hlines := h.take.1
  generalize b.outputs.take b.outputCount = lines at hlines
  clear h
  induction hlines with
  | nil => rfl
  | cons h₁ _ ih =>
    rw [List.map_cons, List.sum_cons, ih, h₁.capacity, List.flatten_cons, List.map_append,
      List.sum_append]

/-- Payments have the capacities of their outputs. -/
theorem map_capacity_payments {ps : List Output} {os : List CellOutputVal}
    (h : List.Forall₂ PaymentOf ps os) :
    ps.map Output.capacity = os.map CellOutputVal.capacity := by
  induction h with
  | nil => rfl
  | cons h₁ _ ih => rw [List.map_cons, List.map_cons, ih, h₁.capacity]

/-- There are as many lines as the books say. -/
theorem Lines.outputCount_le {b : Books} {groups : List (List Output)} (h : Lines b groups) :
    b.outputCount ≤ b.outputs.length := by
  obtain ⟨lines, hlineOf, -, houtputs⟩ := h.lines
  rw [houtputs, h.outputCount, ← hlineOf.length_eq, List.length_append]
  exact Nat.le_add_right _ _

end LedgerNervos
