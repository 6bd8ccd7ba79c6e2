import Mathlib.Data.Finset.Card

/-!
# Changes and first appearances

A list of items, each with a key, can be counted by the changes of the key from one item to the
next, or by the items that appear for the first time.  The two differ by the items that appear again
behind a change, and by those that appear for the first time without one
(`changes_add_unnoticed`).
-/

namespace LedgerNervos

variable {K A : Type*} [DecidableEq K]

/-- How many times the key changes, from `last` on. -/
def changes : K → List (K × A) → ℕ
  | _, [] => 0
  | last, x :: xs => (if last = x.1 then 0 else 1) + changes x.1 xs

/-- The key of the last item; before all of them it is `last`. -/
def lastKey : K → List (K × A) → K
  | last, [] => last
  | _, x :: xs => lastKey x.1 xs

theorem changes_append (last : K) (xs ys : List (K × A)) :
    changes last (xs ++ ys) = changes last xs + changes (lastKey last xs) ys := by
  induction xs generalizing last with
  | nil => exact (Nat.zero_add _).symm
  | cons x xs ih => rw [List.cons_append, changes, changes, ih, Nat.add_assoc, lastKey]

theorem changes_le_length (last : K) (xs : List (K × A)) : changes last xs ≤ xs.length := by
  induction xs generalizing last with
  | nil => exact Nat.le_refl 0
  | cons x xs ih =>
    have hrest := ih x.1
    rw [changes, List.length_cons]
    split_ifs
    · omega
    · omega

variable [DecidableEq A]

/-- How many items appear again, with another key than the item before. -/
def repeated : K → Finset A → List (K × A) → ℕ
  | _, _, [] => 0
  | last, seen, x :: xs =>
    (if last ≠ x.1 ∧ x.2 ∈ seen then 1 else 0) + repeated x.1 (insert x.2 seen) xs

/-- How many items appear for the first time, with the key of the item before. -/
def unnoticed : K → Finset A → List (K × A) → ℕ
  | _, _, [] => 0
  | last, seen, x :: xs =>
    (if last = x.1 ∧ x.2 ∉ seen then 1 else 0) + unnoticed x.1 (insert x.2 seen) xs

/-- **Counting.**  The changes of the key, and the first appearances that go unnoticed, make up the
different items and those that are counted again. -/
theorem changes_add_unnoticed_card (last : K) (seen : Finset A) (xs : List (K × A)) :
    changes last xs + unnoticed last seen xs + seen.card =
      repeated last seen xs + (seen ∪ (xs.map Prod.snd).toFinset).card := by
  induction xs generalizing last seen with
  | nil => simp [changes, unnoticed, repeated]
  | cons x xs ih =>
    have hrest := ih x.1 (insert x.2 seen)
    have hunion : seen ∪ ((x :: xs).map Prod.snd).toFinset =
        insert x.2 seen ∪ (xs.map Prod.snd).toFinset := by
      rw [List.map_cons, List.toFinset_cons, Finset.union_insert, Finset.insert_union]
    rw [changes, unnoticed, repeated, hunion]
    by_cases hseen : x.2 ∈ seen
    · rw [Finset.insert_eq_self.2 hseen] at hrest ⊢
      by_cases hkey : last = x.1
      · simp only [hkey, hseen, if_true, not_true, and_false, if_false, ne_eq, false_and]
        omega
      · simp only [hkey, hseen, if_true, not_true, if_false, ne_eq, not_false_eq_true, and_self]
        omega
    · rw [Finset.card_insert_of_notMem hseen] at hrest
      by_cases hkey : last = x.1
      · simp only [hkey, hseen, if_true, not_false_eq_true, and_self, if_false, ne_eq, not_true]
        omega
      · simp only [hkey, hseen, if_false, false_and, and_false]
        omega

theorem changes_add_unnoticed (last : K) (xs : List (K × A)) :
    changes last xs + unnoticed last ∅ xs =
      repeated last ∅ xs + (xs.map Prod.snd).toFinset.card := by
  have hcount := changes_add_unnoticed_card last ∅ xs
  rwa [Finset.card_empty, Finset.empty_union, Nat.add_zero] at hcount

end LedgerNervos
