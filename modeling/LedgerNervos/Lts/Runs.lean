import Mathlib.Algebra.BigOperators.Group.List.Basic
import Mathlib.Data.List.Basic

/-!
# Runs of a labelled transition system

A transition system is given by its step relation `step s l s'`: in the state `s` the label `l`
can lead to `s'`.  `Runs step s ls s'` says that the labels `ls`, one after the other, can lead
from `s` to `s'`; `Visits step s tr s'` is the same with a record of the state in which each step
was taken.

## Main results

* `Runs.append_iff` : a run over a concatenation is two runs.
* `Runs.invariant` : what every step keeps holds at the end of a run.
* `Runs.of_mem` : what one step brings about and every step keeps holds at the end.
* `Visits.invariant` : it also holds wherever a step of the run is taken.
* `Visits.invariant_until` : the same, for runs whose end is known.
* `Runs.project` : a view of the state that each label changes by a function of its own is
  changed by a run by folding these functions.
* `Runs.sum` : what each step adds to, by its label, is increased by the sum over the labels.
* `Runs.overwritten` : what some labels overwrite has been written by one of them, if there is one.
-/

namespace LedgerNervos

variable {S L X : Type*}

/-- The labels `ls` can lead from `s` to `s'`. -/
inductive Runs (step : S → L → S → Prop) : S → List L → S → Prop
  | nil (s : S) : Runs step s [] s
  | cons {s s₁ s' : S} {l : L} {ls : List L} :
      step s l s₁ → Runs step s₁ ls s' → Runs step s (l :: ls) s'

/-- The steps of a run, each with the state in which it was taken. -/
inductive Visits (step : S → L → S → Prop) : S → List (S × L) → S → Prop
  | nil (s : S) : Visits step s [] s
  | cons {s s₁ s' : S} {l : L} {tr : List (S × L)} :
      step s l s₁ → Visits step s₁ tr s' → Visits step s ((s, l) :: tr) s'

variable {step : S → L → S → Prop} {s s' : S} {l : L} {ls ls' : List L} {tr tr' : List (S × L)}

namespace Runs

theorem nil_iff : Runs step s [] s' ↔ s' = s := by
  constructor
  · intro h
    cases h
    rfl
  · rintro rfl
    exact nil _

theorem cons_iff : Runs step s (l :: ls) s' ↔ ∃ s₁, step s l s₁ ∧ Runs step s₁ ls s' := by
  constructor
  · intro h
    cases h with
    | cons h₁ h => exact ⟨_, h₁, h⟩
  · rintro ⟨s₁, h₁, h⟩
    exact cons h₁ h

theorem single_iff : Runs step s [l] s' ↔ step s l s' := by
  simp [cons_iff, nil_iff]

theorem append_iff :
    Runs step s (ls ++ ls') s' ↔ ∃ s₁, Runs step s ls s₁ ∧ Runs step s₁ ls' s' := by
  induction ls generalizing s with
  | nil => simp [nil_iff]
  | cons l ls ih =>
    rw [List.cons_append, cons_iff]
    constructor
    · rintro ⟨s₁, h₁, h⟩
      obtain ⟨s₂, h₂, h'⟩ := ih.1 h
      exact ⟨s₂, cons h₁ h₂, h'⟩
    · rintro ⟨s₂, h, h'⟩
      obtain ⟨s₁, h₁, h₂⟩ := cons_iff.1 h
      exact ⟨s₁, h₁, ih.2 ⟨s₂, h₂, h'⟩⟩

theorem append {s₁ : S} (h : Runs step s ls s₁) (h' : Runs step s₁ ls' s') :
    Runs step s (ls ++ ls') s' := append_iff.2 ⟨s₁, h, h'⟩

theorem mono {step' : S → L → S → Prop} (h : Runs step s ls s')
    (hstep : ∀ s l s', l ∈ ls → step s l s' → step' s l s') : Runs step' s ls s' := by
  induction h with
  | nil s => exact nil s
  | cons h₁ _ ih =>
    exact cons (hstep _ _ _ (List.mem_cons_self ..) h₁)
      (ih fun s l s' hl => hstep s l s' (List.mem_cons_of_mem _ hl))

/-- What every step over the labels of the run keeps holds at its end. -/
theorem invariant {I : S → Prop} (h : Runs step s ls s') (h₀ : I s)
    (hstep : ∀ s l s', l ∈ ls → step s l s' → I s → I s') : I s' := by
  induction h with
  | nil s => exact h₀
  | cons h₁ _ ih =>
    exact ih (hstep _ _ _ (List.mem_cons_self ..) h₁ h₀)
      fun s l s' hl => hstep s l s' (List.mem_cons_of_mem _ hl)

/-- What holds at the end of a run, and what no step can bring about, holds at its start. -/
theorem backward {I : S → Prop} (h : Runs step s ls s') (h₀ : I s')
    (hstep : ∀ s l s', step s l s' → I s' → I s) : I s := by
  induction h with
  | nil s => exact h₀
  | cons h₁ _ ih => exact hstep _ _ _ h₁ (ih h₀)

/-- **Projection.**  If each step changes the view `f` of the state by `act`, as long as `I` holds
after it, then a run that ends in `I` folds `act` over its labels. -/
theorem project {I : S → Prop} {f : S → X} {act : X → L → X} (h : Runs step s ls s') (h₀ : I s')
    (hI : ∀ s l s', step s l s' → I s' → I s)
    (hact : ∀ s l s', l ∈ ls → step s l s' → I s' → f s' = act (f s) l) :
    f s' = ls.foldl act (f s) := by
  induction h with
  | nil s => rfl
  | cons h₁ h ih =>
    rw [ih h₀ fun s l s' hl => hact s l s' (List.mem_cons_of_mem _ hl),
      hact _ _ _ (List.mem_cons_self ..) h₁ (h.backward h₀ hI)]
    rfl

/-- A run as it looks through the view `f`: if each step that `I` holds after is a step of another
system there, then so is a run that ends in `I`. -/
theorem view {step' : X → L → X → Prop} {I : S → Prop} (f : S → X) (h : Runs step s ls s')
    (h₀ : I s') (hI : ∀ s l s', step s l s' → I s' → I s)
    (hstep : ∀ s l s', l ∈ ls → step s l s' → I s' → step' (f s) l (f s')) :
    Runs step' (f s) ls (f s') := by
  induction h with
  | nil s => exact nil _
  | cons h₁ h ih =>
    exact cons (hstep _ _ _ (List.mem_cons_self ..) h₁ (h.backward h₀ hI))
      (ih h₀ fun s l s' hl => hstep s l s' (List.mem_cons_of_mem _ hl))

/-- A run over other labels, each of which says less. -/
theorem relabel {M : Type*} {step' : S → M → S → Prop} (f : L → M) (h : Runs step s ls s')
    (hstep : ∀ s l s', step s l s' → step' s (f l) s') : Runs step' s (ls.map f) s' := by
  induction h with
  | nil s => exact nil s
  | cons h₁ _ ih => exact cons (hstep _ _ _ h₁) ih

/-- A view that no step over the labels of the run changes. -/
theorem frame {f : S → X} (h : Runs step s ls s')
    (hact : ∀ s l s', l ∈ ls → step s l s' → f s' = f s) : f s' = f s :=
  h.invariant (I := fun x => f x = f s) rfl fun s l s' hl hs hx => (hact s l s' hl hs).trans hx

/-- What a step over one label of the run brings about, and every step keeps, holds at its end. -/
theorem of_mem {I : S → Prop} (h : Runs step s ls s') (hl : l ∈ ls)
    (hmark : ∀ s s', step s l s' → I s') (hkeep : ∀ s l s', step s l s' → I s → I s') : I s' := by
  obtain ⟨before, behind, rfl⟩ := List.append_of_mem hl
  obtain ⟨s₁, -, h⟩ := append_iff.1 h
  obtain ⟨s₂, hstep, h⟩ := cons_iff.1 h
  exact h.invariant (hmark _ _ hstep) fun s l s' _ => hkeep s l s'

/-- What only steps over some of the labels bring about, and nothing undoes, holds at the end if it
holds at the start or there is such a label. -/
theorem iff_exists {I p : S → Prop} {q : L → Prop} (h : Runs step s ls s') (h₀ : I s)
    (hstep : ∀ s l s', step s l s' → I s → I s' ∧ (p s' ↔ p s ∨ q l)) :
    p s' ↔ p s ∨ ∃ l ∈ ls, q l := by
  induction h with
  | nil s => simp
  | cons h₁ _ ih =>
    obtain ⟨hs₁, hiff⟩ := hstep _ _ _ h₁ h₀
    rw [ih hs₁, hiff, or_assoc]
    simp only [List.mem_cons, exists_eq_or_imp]

/-- What some of the labels overwrite has been written by one of them, or there was none. -/
theorem overwritten {f : S → X} {q : L → Prop} {w : L → X} (h : Runs step s ls s')
    (hwrite : ∀ s l s', step s l s' → q l → f s' = w l)
    (hkeep : ∀ s l s', step s l s' → ¬ q l → f s' = f s) :
    (∃ l ∈ ls, q l ∧ f s' = w l) ∨ (∀ l ∈ ls, ¬ q l) ∧ f s' = f s := by
  induction h with
  | nil s => exact .inr ⟨List.forall_mem_nil _, rfl⟩
  | @cons s s₁ s' l ls h₁ _ ih =>
    rcases ih with ⟨l', hl', hq, hf⟩ | ⟨hnone, hf⟩
    · exact .inl ⟨l', List.mem_cons_of_mem _ hl', hq, hf⟩
    · by_cases hq : q l
      · exact .inl ⟨l, List.mem_cons_self .., hq, hf.trans (hwrite _ _ _ h₁ hq)⟩
      · exact .inr ⟨List.forall_mem_cons.2 ⟨hq, hnone⟩, hf.trans (hkeep _ _ _ h₁ hq)⟩

/-- What every step from a state with the invariant `I` says of its label holds of all labels of
a run. -/
theorem forall_mem_of_invariant {I : S → Prop} {p : L → Prop} (h : Runs step s ls s') (h₀ : I s)
    (hstep : ∀ s l s', step s l s' → I s → I s' ∧ p l) : ∀ l ∈ ls, p l := by
  induction h with
  | nil s => exact List.forall_mem_nil _
  | cons h₁ _ ih =>
    obtain ⟨hs₁, hl⟩ := hstep _ _ _ h₁ h₀
    exact List.forall_mem_cons.2 ⟨hl, ih hs₁⟩

/-- What every step says of its label holds of all labels of a run. -/
theorem forall_mem {p : L → Prop} (h : Runs step s ls s')
    (hstep : ∀ s l s', step s l s' → p l) : ∀ l ∈ ls, p l :=
  h.forall_mem_of_invariant (I := fun _ => True) trivial
    fun s l s' hs _ => ⟨trivial, hstep s l s' hs⟩

/-- **Accumulation.**  If each step from a state with the invariant `I` adds the weight of its
label to `f`, a run adds the sum of the weights. -/
theorem sum_of_invariant {A : Type*} [AddMonoid A] {I : S → Prop} {f : S → A} {w : L → A}
    (h : Runs step s ls s') (h₀ : I s)
    (hstep : ∀ s l s', step s l s' → I s → I s' ∧ f s' = f s + w l) :
    f s' = f s + (ls.map w).sum := by
  induction h with
  | nil s => rw [List.map_nil, List.sum_nil, add_zero]
  | cons h₁ _ ih =>
    obtain ⟨hs₁, hf⟩ := hstep _ _ _ h₁ h₀
    rw [ih hs₁, hf, List.map_cons, List.sum_cons, add_assoc]

theorem sum {A : Type*} [AddMonoid A] {f : S → A} {w : L → A} (h : Runs step s ls s')
    (hstep : ∀ s l s', step s l s' → f s' = f s + w l) : f s' = f s + (ls.map w).sum :=
  h.sum_of_invariant (I := fun _ => True) trivial
    fun s l s' hs _ => ⟨trivial, hstep s l s' hs⟩

end Runs

namespace Visits

theorem runs (h : Visits step s tr s') : Runs step s (tr.map Prod.snd) s' := by
  induction h with
  | nil s => exact .nil s
  | cons h₁ _ ih => exact .cons h₁ ih

theorem of_runs (h : Runs step s ls s') : ∃ tr, tr.map Prod.snd = ls ∧ Visits step s tr s' := by
  induction h with
  | nil s => exact ⟨[], rfl, nil s⟩
  | cons h₁ _ ih =>
    obtain ⟨tr, rfl, htr⟩ := ih
    exact ⟨_, rfl, cons h₁ htr⟩

theorem mono {step' : S → L → S → Prop} (h : Visits step s tr s')
    (hstep : ∀ s l s', l ∈ tr.map Prod.snd → step s l s' → step' s l s') :
    Visits step' s tr s' := by
  induction h with
  | nil s => exact nil s
  | cons h₁ _ ih =>
    exact cons (hstep _ _ _ (List.mem_cons_self ..) h₁)
      (ih fun s l s' hl => hstep s l s' (List.mem_cons_of_mem _ hl))

/-- The steps of a run as they look through the view `f`. -/
theorem view {step' : X → L → X → Prop} {I : S → Prop} (f : S → X) (h : Visits step s tr s')
    (h₀ : I s') (hI : ∀ s l s', step s l s' → I s' → I s)
    (hstep : ∀ s l s', (s, l) ∈ tr → step s l s' → I s' → step' (f s) l (f s')) :
    Visits step' (f s) (tr.map fun x => (f x.1, x.2)) (f s') := by
  induction h with
  | nil s => exact nil _
  | cons h₁ h ih =>
    exact cons (hstep _ _ _ (List.mem_cons_self ..) h₁ (h.runs.backward h₀ hI))
      (ih h₀ fun s l s' hl => hstep s l s' (List.mem_cons_of_mem _ hl))

theorem append_iff :
    Visits step s (tr ++ tr') s' ↔ ∃ s₁, Visits step s tr s₁ ∧ Visits step s₁ tr' s' := by
  induction tr generalizing s with
  | nil =>
    constructor
    · intro h
      exact ⟨s, nil s, h⟩
    · rintro ⟨_, h, h'⟩
      cases h
      exact h'
  | cons x tr ih =>
    constructor
    · intro h
      cases h with
      | cons h₁ h =>
        obtain ⟨s₂, h₂, h'⟩ := ih.1 h
        exact ⟨s₂, cons h₁ h₂, h'⟩
    · rintro ⟨s₂, h, h'⟩
      cases h with
      | cons h₁ h => exact cons h₁ (ih.2 ⟨s₂, h, h'⟩)

/-- What every step of the run keeps holds wherever a step is taken. -/
theorem invariant {I : S → Prop} (h : Visits step s tr s') (h₀ : I s)
    (hstep : ∀ s l s', (s, l) ∈ tr → step s l s' → I s → I s') :
    I s' ∧ ∀ x ∈ tr, I x.1 ∧ ∃ s₁, step x.1 x.2 s₁ := by
  induction h with
  | nil s => exact ⟨h₀, nofun⟩
  | @cons s s₁ s' l tr h₁ _ ih =>
    obtain ⟨hlast, hrest⟩ := ih (hstep _ _ _ (List.mem_cons_self ..) h₁ h₀)
      fun s l s' hl => hstep s l s' (List.mem_cons_of_mem _ hl)
    refine ⟨hlast, fun x hx => ?_⟩
    rcases List.mem_cons.1 hx with rfl | hx
    · exact ⟨h₀, s₁, h₁⟩
    · exact hrest x hx

/-- In a run that ends in `J`, which no step can bring about, what every step into `J` keeps holds
wherever a step is taken. -/
theorem invariant_until {I J : S → Prop} (h : Visits step s tr s') (h₀ : I s) (hend : J s')
    (hback : ∀ s l s', step s l s' → J s' → J s)
    (hstep : ∀ s l s', (s, l) ∈ tr → step s l s' → J s' → I s → I s') :
    I s' ∧ ∀ x ∈ tr, I x.1 := by
  induction h with
  | nil s => exact ⟨h₀, List.forall_mem_nil _⟩
  | @cons s s₁ s' l tr h₁ h ih =>
    have hs₁ : I s₁ := hstep _ _ _ (List.mem_cons_self ..) h₁ (h.runs.backward hend hback) h₀
    obtain ⟨hlast, hrest⟩ := ih hs₁ hend fun s l s' hl => hstep s l s' (List.mem_cons_of_mem _ hl)
    exact ⟨hlast, List.forall_mem_cons.2 ⟨h₀, hrest⟩⟩

theorem append {s₁ : S} (h : Visits step s tr s₁) (h' : Visits step s₁ tr' s') :
    Visits step s (tr ++ tr') s' := append_iff.2 ⟨s₁, h, h'⟩

/-- A run without labels. -/
theorem of_nil (h : Visits step s tr s') (hls : tr.map Prod.snd = []) : tr = [] ∧ s' = s := by
  cases h with
  | nil => exact ⟨rfl, rfl⟩
  | cons _ _ => cases hls

/-- The first step of a run, by its label. -/
theorem uncons (h : Visits step s tr s') (hls : tr.map Prod.snd = l :: ls) :
    ∃ s₁ tr', tr = (s, l) :: tr' ∧ step s l s₁ ∧ Visits step s₁ tr' s' ∧
      tr'.map Prod.snd = ls := by
  cases h with
  | nil => cases hls
  | cons h₁ h =>
    rw [List.map_cons, List.cons.injEq] at hls
    obtain ⟨rfl, hls⟩ := hls
    exact ⟨_, _, rfl, h₁, h, hls⟩

/-- The steps of a run over a concatenation are those of two runs. -/
theorem split (h : Visits step s tr s') (hls : tr.map Prod.snd = ls ++ ls') :
    ∃ tr₁ tr₂ s₁, tr = tr₁ ++ tr₂ ∧ tr₁.map Prod.snd = ls ∧ tr₂.map Prod.snd = ls' ∧
      Visits step s tr₁ s₁ ∧ Visits step s₁ tr₂ s' := by
  obtain ⟨tr₁, tr₂, rfl, h₁, h₂⟩ := List.map_eq_append_iff.1 hls
  obtain ⟨s₁, h, h'⟩ := append_iff.1 h
  exact ⟨tr₁, tr₂, s₁, rfl, h₁, h₂, h, h'⟩

end Visits

end LedgerNervos
