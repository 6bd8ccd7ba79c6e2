import LedgerNervos.Lts.Runs
import LedgerNervos.Molecule.Tap

/-!
# Events of a kind

`Spec.Emits p` says that reading a value only leads to events that satisfy `p`.  There is one
lemma for each combinator, so that the events of a composite reader are looked at by going through
the table of its callbacks.
-/

namespace LedgerNervos

variable {ε α β : Type} {p : ε → Prop}

/-- Reading a value only leads to events that satisfy `p`. -/
def Spec.Emits (sp : Spec ε α) (p : ε → Prop) : Prop :=
  ∀ a cs evs, sp.Tr a cs evs → ∀ e ∈ evs, p e

/-- Reading the fields only leads to events that satisfy `p`. -/
def FieldsSpec.Emits (sps : FieldsSpec ε α) (p : ε → Prop) : Prop :=
  ∀ a cs evs, sps.Tr a cs evs → ∀ e ∈ evs, p e

namespace FieldsSpec

theorem Emits.nil : (FieldsSpec.nil : FieldsSpec ε Unit).Emits p := by
  rintro _ _ _ rfl
  exact nofun

theorem Emits.cons {sp : Spec ε α} {start : List ε} {sps : FieldsSpec ε β} (h : sp.Emits p)
    (hstart : ∀ e ∈ start, p e) (hs : sps.Emits p) : (FieldsSpec.cons sp start sps).Emits p := by
  rintro a cs evs ⟨e₁, _, h₁, ⟨e₂, h₂, rfl⟩, rfl⟩ e he
  rw [List.mem_append, List.mem_append] at he
  rcases he with he | he | he
  · exact h _ _ _ h₁ e he
  · exact hstart e he
  · exact hs _ _ _ h₂ e he

end FieldsSpec

namespace Spec

theorem Emits.array {n : ℕ} {finish : List UInt8 → List ε} (h : ∀ bs, ∀ e ∈ finish bs, p e) :
    (Spec.array n finish).Emits p := by
  rintro a cs evs ⟨-, rfl⟩
  exact h a

theorem Emits.byte {finish : UInt8 → List ε} (h : ∀ b, ∀ e ∈ finish b, p e) :
    (Spec.byte finish).Emits p := by
  rintro a cs evs rfl
  exact h a

theorem Emits.struct {size : UInt32} {sizes : List UInt32} {sps : FieldsSpec ε α}
    (h : sps.Emits p) : (Spec.struct size sizes sps).Emits p := h

theorem Emits.table {n : ℕ} {start : List ε} {offsets : List UInt32 → List ε}
    {sps : FieldsSpec ε α} (hstart : ∀ e ∈ start, p e) (hoffsets : ∀ ws, ∀ e ∈ offsets ws, p e)
    (hs : sps.Emits p) : (Spec.table n start offsets sps).Emits p := by
  rintro a cs evs ⟨e', h', rfl⟩ e he
  rw [List.mem_append, List.mem_append] at he
  rcases he with (he | he) | he
  · exact hstart e he
  · exact hoffsets _ e he
  · exact hs _ _ _ h' e he

theorem Emits.bytes {size : UInt32 → List ε × Bool} {bodyChunk : Chunk → List ε}
    (hsize : ∀ n, ∀ e ∈ (size n).1, p e) (hbody : ∀ c, ∀ e ∈ bodyChunk c, p e) :
    (Spec.bytes size bodyChunk).Emits p := by
  rintro a cs evs ⟨-, -, -, rfl⟩ e he
  rw [List.mem_append] at he
  rcases he with he | he
  · exact hsize _ e he
  · split_ifs at he
    · cases he
    · obtain ⟨c, -, he⟩ := List.mem_flatMap.1 he
      exact hbody c e he

theorem Emits.option {sp : Spec ε α} (h : sp.Emits p) : (Spec.option sp).Emits p := by
  intro a cs evs htr
  cases a with
  | none =>
    obtain rfl : evs = [] := htr
    exact nofun
  | some a => exact h a cs evs htr

/-- The events of items come from the items and their announcements. -/
theorem emits_items {sp : Spec ε α} {start : List ε} {index : UInt32 → List ε} (h : sp.Emits p)
    (hstart : ∀ e ∈ start, p e) (hindex : ∀ n, ∀ e ∈ index n, p e) {as : List α} {idx : UInt32}
    {cs : List Chunk} {evs : List ε} (htr : TrItems sp start index idx as cs evs) :
    ∀ e ∈ evs, p e := by
  induction as generalizing idx cs evs with
  | nil =>
    obtain rfl : evs = [] := htr
    exact nofun
  | cons a as ih =>
    obtain ⟨e₁, e₂, h₁, h₂, rfl⟩ := htr
    intro e he
    simp only [List.mem_append] at he
    rcases he with he | (he | he) | he
    · exact h _ _ _ h₁ e he
    · exact hstart e he
    · exact hindex _ e he
    · exact ih h₂ e he

theorem add_ofNat_succ (i : UInt32) (k : ℕ) :
    i + UInt32.ofNat (k + 1) = i + 1 + UInt32.ofNat k := by
  rw [UInt32.ofNat_add, UInt32.add_comm (UInt32.ofNat k), ← UInt32.add_assoc]
  rfl

/-- Each of the items is announced. -/
theorem TrItems.announced {sp : Spec ε α} {index : UInt32 → List ε} {i : UInt32}
    {as : List α} {cs : List Chunk} {es : List ε} (h : TrItems sp [] index i as cs es) {k : ℕ}
    (hk : k < as.length) : ∀ e ∈ index (i + UInt32.ofNat k), e ∈ index i ++ es := by
  induction as generalizing i cs es k with
  | nil => cases hk
  | cons a as ih =>
    obtain ⟨e₁, e₂, -, h₂, rfl⟩ := h
    intro e he
    cases k with
    | zero =>
      rw [show UInt32.ofNat 0 = 0 from rfl, UInt32.add_zero] at he
      exact List.mem_append_left _ he
    | succ k =>
      have hk' := ih h₂ (Nat.lt_of_succ_lt_succ hk)
      rw [add_ofNat_succ] at he
      exact List.mem_append_right _ (List.mem_append_right _ (hk' e he))

/-- The events before the announcement of an item are those of the items before it. -/
theorem TrItems.upto {sp : Spec ε α} (start : UInt32 → ε)
    (hstart : ∀ {i j}, start i = start j → i = j) (hitem : sp.Emits fun e => ∀ j, e ≠ start j)
    {i j : UInt32} {as : List α} {cs : List Chunk} {es m₁ m₂ : List ε}
    (h : TrItems sp [] (fun i => [start i]) i as cs es)
    (hes : start i :: es = m₁ ++ start j :: m₂) :
    ∃ (k : ℕ) (es' : List ε), k ≤ as.length ∧ j = i + UInt32.ofNat k ∧
      TrItems sp [] (fun i => [start i]) i (as.take k) cs es' ∧
      m₁ ++ [start j] = start i :: es' := by
  induction as generalizing i cs es m₁ with
  | nil =>
    obtain rfl : es = [] := h
    cases m₁ with
    | nil =>
      rw [hstart (List.cons.inj hes).1]
      exact ⟨0, [], Nat.zero_le _, (UInt32.add_zero j).symm, rfl, rfl⟩
    | cons e m₁ => exact absurd (List.cons.inj hes).2.symm (by simp)
  | cons a as ih =>
    obtain ⟨e₁, e₂, h₁, h₂, rfl⟩ := h
    cases m₁ with
    | nil =>
      rw [hstart (List.cons.inj hes).1]
      exact ⟨0, [], Nat.zero_le _, (UInt32.add_zero j).symm, rfl, rfl⟩
    | cons e m₁ =>
      obtain ⟨rfl, htail⟩ := List.cons.inj hes
      -- the announcement is behind the item
      have hbehind : ∃ l, m₁ = e₁ ++ l ∧ start (i + 1) :: e₂ = l ++ start j :: m₂ := by
        rcases List.append_eq_append_iff.1 htail with ⟨l, rfl, hl⟩ | ⟨l, he₁, hl⟩
        · exact ⟨l, rfl, hl⟩
        · cases l with
          | nil => exact ⟨[], by rw [he₁, List.append_nil, List.append_nil], hl.symm⟩
          | cons e l =>
            obtain ⟨rfl, -⟩ := List.cons.inj hl
            exact absurd rfl
              (hitem _ _ _ h₁ _ (he₁ ▸ List.mem_append_right _ (List.mem_cons_self ..)) j)
      obtain ⟨l, rfl, hl⟩ := hbehind
      obtain ⟨k, es', hk, hj, htr, hlast⟩ := ih h₂ hl
      refine ⟨k + 1, e₁ ++ ([] ++ [start (i + 1)] ++ es'), Nat.succ_le_succ hk, ?_,
        ⟨e₁, es', h₁, htr, rfl⟩, ?_⟩
      · rw [hj, add_ofNat_succ]
      · rw [List.cons_append, List.append_assoc, hlast]
        rfl

theorem Emits.fixVec {itemSize : UInt32} {size : UInt32 → List ε × Bool} {start : List ε}
    {index : UInt32 → List ε} {sp : Spec ε α} (hsize : ∀ n, ∀ e ∈ (size n).1, p e)
    (hstart : ∀ e ∈ start, p e) (hindex : ∀ n, ∀ e ∈ index n, p e) (h : sp.Emits p) :
    (Spec.fixVec itemSize size start index sp).Emits p := by
  rintro as cs evs ⟨-, -, e', h', rfl⟩ e he
  simp only [List.mem_append] at he
  rcases he with ((he | he) | he) | he
  · exact hsize _ e he
  · exact hstart e he
  · exact hindex _ e he
  · exact emits_items h hstart hindex h' e he

theorem Emits.dynVec {start : List ε} {length index : UInt32 → List ε} {sp : Spec ε α}
    (hstart : ∀ e ∈ start, p e) (hlength : ∀ n, ∀ e ∈ length n, p e)
    (hindex : ∀ n, ∀ e ∈ index n, p e) (h : sp.Emits p) :
    (Spec.dynVec start length index sp).Emits p := by
  intro a cs evs htr
  cases a with
  | none =>
    obtain rfl : evs = [] := htr
    exact nofun
  | some as =>
    obtain ⟨-, e', h', rfl⟩ := htr
    intro e he
    simp only [List.mem_append] at he
    rcases he with ((he | he) | he) | he
    · exact hstart e he
    · exact hlength _ e he
    · exact hindex _ e he
    · exact emits_items h hstart hindex h' e he

end Spec

/-- What is interleaved with calls of `chunk` satisfies `p` when the calls do. -/
theorem Tapped.forall_mem {chunk : Chunk → List ε} {es evs : List ε} {bs : List UInt8}
    (h : Tapped chunk es bs evs) (hes : ∀ e ∈ es, p e) (hchunk : ∀ c, ∀ e ∈ chunk c, p e) :
    ∀ e ∈ evs, p e := by
  induction h with
  | nil => exact nofun
  | ev e _ ih =>
    intro e' he'
    rcases List.mem_cons.1 he' with rfl | he'
    · exact hes _ (List.mem_cons_self ..)
    · exact ih (fun x hx => hes x (List.mem_cons_of_mem _ hx)) e' he'
  | tap c _ ih =>
    intro e' he'
    rcases List.mem_append.1 he' with he' | he'
    · exact hchunk c e' he'
    · exact ih hes e' he'

/-- Nothing is lost between the calls of `chunk`. -/
theorem Tapped.mem {chunk : Chunk → List ε} {es evs : List ε} {bs : List UInt8}
    (h : Tapped chunk es bs evs) {e : ε} (he : e ∈ es) : e ∈ evs := by
  induction h with
  | nil => exact he
  | ev e' _ ih =>
    rcases List.mem_cons.1 he with rfl | he
    · exact List.mem_cons_self ..
    · exact List.mem_cons_of_mem _ (ih he)
  | tap c _ ih => exact List.mem_append_right _ (ih he)

/-- Events up to one that does not hand over a piece. -/
theorem Tapped.upto {chunk : Chunk → List ε} {es evs l₁ l₂ : List ε} {bs : List UInt8}
    {e : ε} (h : Tapped chunk es bs evs) (hchunk : ∀ c, e ∉ chunk c) (hevs : evs = l₁ ++ e :: l₂) :
    ∃ m₁ m₂ b, es = m₁ ++ e :: m₂ ∧ Tapped chunk (m₁ ++ [e]) b (l₁ ++ [e]) := by
  induction h generalizing l₁ with
  | nil => cases l₁ <;> cases hevs
  | @ev e' es evs bs _ ih =>
    cases l₁ with
    | nil =>
      rw [List.nil_append, List.cons.injEq] at hevs
      obtain ⟨rfl, -⟩ := hevs
      exact ⟨[], es, [], rfl, .ev e' .nil⟩
    | cons e₁ l₁ =>
      rw [List.cons_append, List.cons.injEq] at hevs
      obtain ⟨rfl, hevs⟩ := hevs
      obtain ⟨m₁, m₂, b, rfl, htap⟩ := ih hevs
      exact ⟨e' :: m₁, m₂, b, rfl, .ev e' htap⟩
  | @tap c es evs bs _ ih =>
    rcases List.append_eq_append_iff.1 hevs with ⟨l, rfl, hrest⟩ | ⟨l, hc, hrest⟩
    · obtain ⟨m₁, m₂, b, hes, htap⟩ := ih hrest
      refine ⟨m₁, m₂, c.bytes ++ b, hes, ?_⟩
      rw [List.append_assoc]
      exact .tap c htap
    · cases l with
      | nil =>
        rw [List.append_nil] at hc
        have hnext : evs = [] ++ e :: l₂ := hrest.symm
        obtain ⟨m₁, m₂, b, hes, htap⟩ := ih hnext
        refine ⟨m₁, m₂, c.bytes ++ b, hes, ?_⟩
        rw [← hc]
        exact .tap c htap
      | cons e' l =>
        rw [List.cons_append, List.cons.injEq] at hrest
        obtain ⟨rfl, -⟩ := hrest
        exact absurd (hc ▸ List.mem_append_right _ (List.mem_cons_self ..)) (hchunk c)

/-- Folding over events that are interleaved with calls of `chunk`, when the calls feed their pieces
into the state and this can be put off until after the other events. -/
theorem Tapped.foldl {σ : Type} (act : σ → ε → σ) (feed : σ → List UInt8 → σ)
    {chunk : Chunk → List ε} {es evs : List ε} {bs : List UInt8} (h : Tapped chunk es bs evs)
    (hchunk : ∀ c x, (chunk c).foldl act x = feed x c.bytes) (hnil : ∀ x, feed x [] = x)
    (happend : ∀ x bs bs', feed (feed x bs) bs' = feed x (bs ++ bs'))
    (hcomm : ∀ e ∈ es, ∀ x bs, act (feed x bs) e = feed (act x e) bs) (x : σ) :
    evs.foldl act x = feed (es.foldl act x) bs := by
  induction h generalizing x with
  | nil => exact (hnil x).symm
  | ev e _ ih =>
    exact ih (fun e' he' => hcomm e' (List.mem_cons_of_mem _ he')) (act x e)
  | @tap c es evs bs _ ih =>
    -- the piece goes in after the events that follow it
    have hlater : ∀ (es : List ε) (x : σ),
        (∀ e ∈ es, ∀ x bs, act (feed x bs) e = feed (act x e) bs) →
        es.foldl act (feed x c.bytes) = feed (es.foldl act x) c.bytes := by
      intro es
      induction es with
      | nil => exact fun _ _ => rfl
      | cons e es ih =>
        intro x hes
        rw [List.foldl_cons, List.foldl_cons, hes e (List.mem_cons_self ..)]
        exact ih _ fun e' he' => hes e' (List.mem_cons_of_mem _ he')
    rw [List.foldl_append, hchunk, ih hcomm, hlater es x hcomm, happend]

/-- Calls of `chunk` that do nothing can be left out of a run. -/
theorem Tapped.runs {S : Type} {step : S → ε → S → Prop} {chunk : Chunk → List ε}
    {es evs : List ε} {bs : List UInt8} (h : Tapped chunk es bs evs)
    (hchunk : ∀ c, ∀ e ∈ chunk c, ∀ s s', step s e s' → s' = s) {s s' : S}
    (hs : Runs step s evs s') : Runs step s es s' := by
  induction h generalizing s with
  | nil => exact hs
  | ev e _ ih =>
    obtain ⟨s₁, h₁, hs⟩ := Runs.cons_iff.1 hs
    exact .cons h₁ (ih hs)
  | tap c _ ih =>
    obtain ⟨s₁, h₁, hs⟩ := Runs.append_iff.1 hs
    have hsame : s₁ = s := h₁.frame (f := id) fun s e s' he hstep => hchunk c e he s s' hstep
    exact ih (hsame ▸ hs)

/-- The same for the steps of a run; what they are asked for is not asked for from those calls. -/
theorem Tapped.visits {S K : Type} {step : S → ε → S → Prop} {chunk : Chunk → List ε}
    {es evs : List ε} {bs : List UInt8} (h : Tapped chunk es bs evs) {k : S × ε → Option K}
    (hchunk : ∀ c, ∀ e ∈ chunk c, ∀ s, k (s, e) = none ∧ ∀ s', step s e s' → s' = s) {s s' : S}
    {tr : List (S × ε)} (hv : Visits step s tr s') (hls : tr.map Prod.snd = evs) :
    ∃ tr', Visits step s tr' s' ∧ tr'.map Prod.snd = es ∧ tr'.filterMap k = tr.filterMap k := by
  induction h generalizing s tr with
  | nil => exact ⟨tr, hv, hls, rfl⟩
  | ev e _ ih =>
    obtain ⟨s₁, tr₁, rfl, h₁, hv₁, hls₁⟩ := hv.uncons hls
    obtain ⟨tr', hv', hls', hk⟩ := ih hv₁ hls₁
    refine ⟨(s, e) :: tr', .cons h₁ hv', by rw [List.map_cons, hls'], ?_⟩
    rw [List.filterMap_cons, List.filterMap_cons, hk]
  | tap c _ ih =>
    obtain ⟨tr₁, tr₂, s₁, rfl, hls₁, hls₂, hv₁, hv₂⟩ := hv.split hls
    have hmem (x : S × ε) (hx : x ∈ tr₁) : x.2 ∈ chunk c := by
      rw [← hls₁]
      exact List.mem_map_of_mem hx
    obtain rfl : s₁ = s := hv₁.runs.frame (f := id) fun s e s' he hstep =>
      (hchunk c e (hls₁ ▸ he) s).2 s' hstep
    obtain ⟨tr', hv', hls', hk⟩ := ih hv₂ hls₂
    have hnone : tr₁.filterMap k = [] :=
      List.filterMap_eq_nil_iff.2 fun x hx => (hchunk c x.2 (hmem x hx) x.1).1
    exact ⟨tr', hv', hls', by rw [hk, List.filterMap_append, hnone, List.nil_append]⟩

namespace Spec

theorem Emits.close {h : Hooks ε} {sp : Spec ε α} (hsp : sp.Emits p)
    (hchunk : ∀ c, ∀ e ∈ h.chunk c, p e) (hfinish : ∀ e ∈ h.finish, p e) :
    (Spec.close h sp).Emits p := by
  rintro a cs evs ⟨e₀, e₁, h₀, htap, rfl⟩ e he
  rcases List.mem_append.1 he with he | he
  · exact htap.forall_mem (hsp _ _ _ h₀) hchunk e he
  · exact hfinish e he

theorem Emits.closePlain {finish : List ε} {sp : Spec ε α} (hsp : sp.Emits p)
    (hfinish : ∀ e ∈ finish, p e) : (Spec.closePlain finish sp).Emits p := by
  rintro a cs evs ⟨e', h', rfl⟩ e he
  rcases List.mem_append.1 he with he | he
  · exact hsp _ _ _ h' e he
  · exact hfinish e he

end Spec

end LedgerNervos
