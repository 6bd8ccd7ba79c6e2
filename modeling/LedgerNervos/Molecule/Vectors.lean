import LedgerNervos.Molecule.Spec

/-!
# What the readers of byte strings, options and vectors read

Specifications and lawfulness theorems for `Reader.bytes`, `Reader.option`, `Reader.fixVec` and
`Reader.dynVec`, in the way of `LedgerNervos.Molecule.Spec`.  The vectors read their items one
after the other and announce each by its number; `TrItems` describes the events of that.
-/

namespace LedgerNervos

variable {ε σ α : Type}

namespace Spec

/-- Specification of `Reader.bytes`. -/
def bytes (size : UInt32 → List ε × Bool) (bodyChunk : Chunk → List ε) :
    Spec ε (List UInt8) where
  sem size' bs := (readNum bs).bind fun length r =>
    if 2 ^ 32 ≤ length.toNat + 4 then .fail
    else if !sizeOk size' (length + 4) then .fail
    else if !(size (length + 4)).2 then .fail
    else readN length.toNat r
  len a := 4 + a.length
  Tr a cs evs := a.length + 4 < 2 ^ 32 ∧ a = joined (dropC 4 cs) ∧
    (size (UInt32.ofNat a.length + 4)).2 = true ∧
    evs = (size (UInt32.ofNat a.length + 4)).1 ++
      (if a = [] then [] else (dropC 4 cs).flatMap bodyChunk)

/-- Specification of `Reader.option`. -/
def option (sp : Spec ε α) : Spec ε (Option α) where
  sem size bs := if size = 0 then .done none bs else (sp.sem size bs).map some
  len a := (a.map sp.len).getD 0
  Tr a cs evs := match a with
    | none => evs = []
    | some a => sp.Tr a cs evs

/-- Read `n` items. -/
def readItems (sp : Spec ε α) (size : UInt32) : ℕ → List UInt8 → Res (List α)
  | 0, bs => .done [] bs
  | n + 1, bs => (sp.sem size bs).bind fun a r => (readItems sp size n r).map fun as => a :: as

/-- Number of bytes of a list of items. -/
def itemsLen (sp : Spec ε α) (as : List α) : ℕ := (as.map sp.len).sum

/-- Events of reading items, from number `idx` on: after each item the next one is initialised
and announced. -/
def TrItems (sp : Spec ε α) (start : List ε) (index : UInt32 → List ε) :
    UInt32 → List α → List Chunk → List ε → Prop
  | _, [], _, evs => evs = []
  | idx, a :: as, cs, evs => ∃ e₁ e₂, sp.Tr a (takeC (sp.len a) cs) e₁ ∧
      TrItems sp start index (idx + 1) as (dropC (sp.len a) cs) e₂ ∧
      evs = e₁ ++ (start ++ index (idx + 1) ++ e₂)

/-- Specification of `Reader.fixVec`. -/
def fixVec (itemSize : UInt32) (size : UInt32 → List ε × Bool) (start : List ε)
    (index : UInt32 → List ε) (sp : Spec ε α) : Spec ε (List α) where
  sem size' bs := (readNum bs).bind fun length r =>
    if 2 ^ 32 ≤ length.toNat * itemSize.toNat then .fail
    else if 2 ^ 32 ≤ length.toNat * itemSize.toNat + 4 then .fail
    else if !sizeOk size' (length * itemSize + 4) then .fail
    else if !(size (length * itemSize + 4)).2 then .fail
    else readItems sp itemSize length.toNat r
  len as := 4 + itemsLen sp as
  Tr as cs evs := as.length < 2 ^ 32 ∧
    (size (UInt32.ofNat as.length * itemSize + 4)).2 = true ∧
    ∃ e, TrItems sp start index 0 as (dropC 4 cs) e ∧
      evs = (size (UInt32.ofNat as.length * itemSize + 4)).1 ++ start ++ index 0 ++ e

/-- Skip `n` numbers. -/
def skipNums : ℕ → List UInt8 → Res Unit
  | 0, bs => .done () bs
  | n + 1, bs => (readNum bs).bind fun _ r => skipNums n r

/-- Specification of `Reader.dynVec`.  A vector without bytes after its total size is `none`: its
items are not announced. -/
def dynVec (start : List ε) (length index : UInt32 → List ε) (sp : Spec ε α) :
    Spec ε (Option (List α)) where
  sem size bs := (readNum bs).bind fun total r =>
    if total = 4 then .done none r
    else if !sizeOk size total then .fail
    else (readNum r).bind fun first r =>
      (skipNums ((Reader.itemCount first).toNat - 1) r).bind fun _ r =>
        (readItems sp molNumMax (Reader.itemCount first).toNat r).map some
  len a := match a with
    | none => 4
    | some as => 8 + (4 * (as.length - 1) + itemsLen sp as)
  Tr a cs evs := match a with
    | none => evs = []
    | some as => as.length < 2 ^ 32 ∧
        ∃ e, TrItems sp start index 0 as (dropC (8 + 4 * (as.length - 1)) cs) e ∧
          evs = start ++ length (UInt32.ofNat as.length) ++ index 0 ++ e

end Spec

/-! ### Byte strings -/

/-- The body of a byte string is handed over in the pieces in which it arrives. -/
theorem runWith_parseBody {size : UInt32 → List ε × Bool} {bodyChunk : Chunk → List ε}
    {size' : UInt32} (left : ℕ) (cs : List Chunk) (hcs : cs ≠ []) :
    runWith (Reader.parseBytes size bodyChunk size') (.body left) cs =
      if (joined cs).length < left then .more (cs.flatMap bodyChunk)
      else .done (if left = 0 then [] else (takeC left cs).flatMap bodyChunk) (dropC left cs) := by
  induction cs generalizing left with
  | nil => exact absurd rfl hcs
  | cons c cs ih =>
    have hbody : Reader.parseBytes size bodyChunk size' (.body left) c =
        Reader.parseBody bodyChunk left c := rfl
    rw [runWith_cons, hbody]
    by_cases hle : left ≤ c.length
    · have hshort : ¬ (joined (c :: cs)).length < left := by
        simp only [joined_cons, List.length_append, Chunk.length] at hle ⊢; omega
      simp [Reader.parseBody, Nat.min_eq_left hle, resume, takeC_of_le hle, dropC_of_le hle,
        -joined_cons, hshort]
    · have hlt : c.length < left := Nat.not_le.1 hle
      have hpos : 0 < left - c.length := Nat.sub_pos_of_lt hlt
      have hne : left ≠ 0 := Nat.ne_of_gt (Nat.lt_of_le_of_lt (Nat.zero_le _) hlt)
      simp only [Reader.parseBody, Nat.min_eq_right (Nat.le_of_lt hlt), if_pos hpos, if_neg hne,
        resume, takeC_of_lt hlt, dropC_of_lt hlt, Chunk.take_length]
      cases cs with
      | nil =>
        rw [if_pos (by simpa [Chunk.length] using hlt)]
        simp [RunRes.after]
      | cons d ds =>
        have hlen : (joined (d :: ds)).length < left - c.length ↔
            (joined (c :: d :: ds)).length < left := by
          simp only [joined_cons, List.length_append, Chunk.length] at hlt ⊢; omega
        rw [ih (left - c.length) (by simp), if_neg (Nat.ne_of_gt hpos)]
        by_cases hmore : (joined (c :: d :: ds)).length < left
        · rw [if_pos hmore, if_pos (hlen.2 hmore)]
          simp [RunRes.after]
        · rw [if_neg hmore, if_neg (fun h => hmore (hlen.1 h))]
          simp [RunRes.after]

theorem Lawful.bytes (size : UInt32 → List ε × Bool) (bodyChunk : Chunk → List ε) :
    Lawful (Reader.bytes size bodyChunk) (Spec.bytes size bodyChunk) := by
  intro size' cs hcs
  change Agrees (runWith (Reader.parseBytes size bodyChunk size') (.header []) cs) _ _ _ _
  have hrun := runWith_fill (p := Reader.parseBytes size bodyChunk size')
    (f := Reader.BytesState.header) (n := 4)
    (K := fun bs ds =>
      if 2 ^ 32 ≤ (molUnpackNumber bs).toNat + 4 then .fail []
      else if !sizeOk size' (molUnpackNumber bs + 4) then .fail []
      else if !(size (molUnpackNumber bs + 4)).2 then .fail (size (molUnpackNumber bs + 4)).1
      else (runWith (Reader.parseBytes size bodyChunk size')
        (.body (molUnpackNumber bs).toNat) ds).after (size (molUnpackNumber bs + 4)).1)
    (fun buf c cs => by
      rw [runWith_cons]
      simp only [Reader.parseBytes]
      cases fill 4 buf c with
      | more buf => simp [resume]
      | full bs rest =>
        simp only
        split_ifs with h₁ h₂ h₃
        · rfl
        · rfl
        · rfl
        · rw [resume_after, runWith_cons]
          rfl)
    [] cs (Nat.zero_le _) (.inl hcs)
  rw [hrun]
  simp only [List.length_nil, Nat.zero_add, Nat.sub_zero, List.nil_append]
  have hnum := Agrees.num (c := cs) (ε := ε)
    (K := fun w ds =>
      if 2 ^ 32 ≤ w.toNat + 4 then .fail []
      else if !sizeOk size' (w + 4) then .fail []
      else if !(size (w + 4)).2 then .fail (size (w + 4)).1
      else (runWith (Reader.parseBytes size bodyChunk size') (.body w.toNat) ds).after
        (size (w + 4)).1)
    (k := fun w r =>
      if 2 ^ 32 ≤ w.toNat + 4 then .fail
      else if !sizeOk size' (w + 4) then .fail
      else if !(size (w + 4)).2 then .fail
      else readN w.toNat r)
    (l := List.length)
    (T := fun w a ds evs => a.length = w.toNat ∧ a.length + 4 < 2 ^ 32 ∧ a = joined ds ∧
      (size (w + 4)).2 = true ∧
      evs = (size (w + 4)).1 ++ (if a = [] then [] else ds.flatMap bodyChunk))
    (fun w hle => by
      split_ifs with h₁ h₂ h₃
      · trivial
      · trivial
      · trivial
      · rw [runWith_parseBody _ _ (dropC_ne_nil hle hcs), readN, joined_dropC]
        split_ifs with hlt hw
        · trivial
        all_goals
          have hlen : (List.take w.toNat (List.drop 4 (joined cs))).length = w.toNat := by
            rw [List.length_take]; omega
          refine ⟨by rw [joined_dropC, hlen]; omega, by rw [hlen], by rw [hlen, joined_dropC],
            hlen, by omega, by rw [joined_takeC, joined_dropC, hlen], by simpa using h₃, ?_⟩
        · simp [hw]
        · rw [if_neg, hlen]
          intro h
          exact hw (by simpa [h] using hlen.symm))
  refine (hnum.map (l := (Spec.bytes size bodyChunk).len)
    (T := (Spec.bytes size bodyChunk).Tr) (fun v => v.2) (fun _ => rfl) ?_).congr ?_
  · rintro v ds evs ⟨hlen, hlt, hjoin, hacc, hevs⟩
    have hw : UInt32.ofNat v.2.length = v.1 := by rw [hlen]; simp
    refine ⟨hlt, hjoin, ?_, ?_⟩
    · rw [hw]; exact hacc
    · rw [hw]; exact hevs
  · simp only [Spec.bytes]
    cases readNum (joined cs) with
    | more => rfl
    | fail => rfl
    | done w r =>
      simp only [Res.bind_done, Res.map]
      split_ifs
      · rfl
      · rfl
      · rfl
      · cases readN w.toNat r <;> rfl

/-! ### Options -/

theorem Lawful.option {r : Reader ε} {sp : Spec ε α} (h : Lawful r sp) :
    Lawful (Reader.option r) (Spec.option sp) := by
  intro size cs hcs
  by_cases hsize : size = 0
  · cases cs with
    | nil => exact absurd rfl hcs
    | cons c cs =>
      change Agrees (runWith (Reader.parseOption r size) r.init (c :: cs)) _ _ _ _
      rw [runWith_cons]
      simp only [Reader.parseOption, Spec.option, hsize, if_true, resume, Agrees]
      exact ⟨Nat.zero_le _, (dropC_zero _).symm, rfl, trivial⟩
  · have hmap := runWith_map (p := Reader.parseOption r size) (q := r.parse size)
      (g := fun s => s)
      (fun t c cs run => by simp only [Reader.parseOption, if_neg hsize, resume, Out.mapState])
      r.init cs
    change Agrees (runWith (Reader.parseOption r size) r.init cs) _ _ _ _
    rw [hmap]
    simp only [Spec.option, if_neg hsize]
    exact (h size cs hcs).map some (fun _ => rfl) fun _ _ _ he => he

/-! ### Items -/

theorem Spec.length_readItems {sp : Spec ε α} {size : UInt32} {n : ℕ} {bs rest : List UInt8}
    {as : List α} (h : Spec.readItems sp size n bs = .done as rest) : as.length = n := by
  induction n generalizing bs as with
  | zero =>
    simp only [Spec.readItems, Res.done.injEq] at h
    rw [← h.1]; rfl
  | succ n ih =>
    simp only [Spec.readItems, Res.bind, Res.map] at h
    cases hx : sp.sem size bs with
    | more => simp [hx] at h
    | fail => simp [hx] at h
    | done a r =>
      cases hy : Spec.readItems sp size n r with
      | more => simp [hx, hy] at h
      | fail => simp [hx, hy] at h
      | done as' r' =>
        simp only [hx, hy, Res.done.injEq] at h
        obtain ⟨rfl, rfl⟩ := h
        rw [List.length_cons, ih hy]

/-- A run of items reads as many as it was told to. -/
theorem Agrees.count {x : RunRes ε} {sp : Spec ε α} {size : UInt32} {n : ℕ} {bs : List UInt8}
    {len : List α → ℕ} {Tr : List α → List Chunk → List ε → Prop} {cs : List Chunk}
    (h : Agrees x (Spec.readItems sp size n bs) len Tr cs) :
    Agrees x (Spec.readItems sp size n bs) len
      (fun as ds e => Tr as ds e ∧ as.length = n) cs := by
  cases hy : Spec.readItems sp size n bs with
  | done as rest =>
    rw [hy] at h
    cases x with
    | done evs r => exact ⟨h.1, h.2.1, h.2.2.1, h.2.2.2, Spec.length_readItems hy⟩
    | more _ => exact h
    | fail _ => exact h
  | more => rw [hy] at h; cases x <;> exact h
  | fail => rw [hy] at h; cases x <;> exact h

/-- Reading items agrees with reading them from the joined bytes. -/
theorem agrees_items {r : Reader ε} {sp : Spec ε α} (h : Lawful r sp) (index : UInt32 → List ε)
    (size : UInt32) (wrap : UInt32 → ℕ → r.State → σ) {p : σ → Chunk → Out σ ε}
    (hp : ∀ idx left s c, p (wrap idx left s) c =
      Reader.parseItems r index size wrap left idx s c)
    (n : ℕ) (idx : UInt32) (cs : List Chunk) (hcs : cs ≠ []) :
    Agrees (runWith p (wrap idx n r.init) cs) (Spec.readItems sp size n (joined cs))
      (Spec.itemsLen sp) (Spec.TrItems sp r.start index idx) cs := by
  induction n generalizing idx cs with
  | zero =>
    cases cs with
    | nil => exact absurd rfl hcs
    | cons c cs =>
      rw [runWith_cons, hp]
      exact ⟨Nat.zero_le _, (dropC_zero _).symm, rfl, rfl⟩
  | succ n ih =>
    have hrun := runWith_seq (p := p) (q := r.parse size) (f := wrap idx (n + 1))
      (K := fun ds => (runWith p (wrap (idx + 1) n r.init) ds).after
        (r.start ++ index (idx + 1)))
      (fun t c cs => by
        rw [runWith_cons, hp, Reader.parseItems]
        cases hrv : (r.parse size t c).rv with
        | complete =>
          rw [if_pos rfl, resume_after, ← hp, ← runWith_cons, RunRes.after_after,
            List.append_assoc]
        | reject => simp [resume]
        | incomplete => simp [resume])
      r.init cs
    rw [hrun]
    have hbind := (h size cs hcs).bind (k := fun _ bs => Spec.readItems sp size n bs)
      (K := fun ds => (runWith p (wrap (idx + 1) n r.init) ds).after
        (r.start ++ index (idx + 1)))
      (T := fun _ as ds e => ∃ e₂, Spec.TrItems sp r.start index (idx + 1) as ds e₂ ∧
        e = r.start ++ index (idx + 1) ++ e₂)
      (fun a hle => by
        have hrest := ih (idx + 1) (dropC (sp.len a) cs) (dropC_ne_nil hle hcs)
        rw [joined_dropC] at hrest
        exact hrest.after _ fun _ _ e he => ⟨e, he, rfl⟩)
    refine (hbind.map (fun v => v.1 :: v.2) (l := Spec.itemsLen sp)
      (fun v => by simp [Spec.itemsLen]) ?_).congr ?_
    · rintro v ds evs ⟨e₁, e, h₁, ⟨e₂, h₂, rfl⟩, rfl⟩
      exact ⟨e₁, e₂, h₁, h₂, rfl⟩
    · simp only [Spec.readItems, Res.map, Res.bind]
      cases sp.sem size (joined cs) with
      | more => rfl
      | fail => rfl
      | done a bs =>
        simp only
        cases Spec.readItems sp size n bs <;> rfl

/-! ### Vectors -/

theorem Lawful.fixVec {r : Reader ε} {sp : Spec ε α} (itemSize : UInt32)
    (size : UInt32 → List ε × Bool) (index : UInt32 → List ε) (h : Lawful r sp) :
    Lawful (Reader.fixVec itemSize size index r)
      (Spec.fixVec itemSize size r.start index sp) := by
  intro size' cs hcs
  change Agrees (runWith (Reader.parseFixVec itemSize size index r size') (.header []) cs) _ _ _ _
  have hrun := runWith_fill (p := Reader.parseFixVec itemSize size index r size')
    (f := Reader.FixVecState.header) (n := 4)
    (K := fun bs ds =>
      let length := molUnpackNumber bs
      if 2 ^ 32 ≤ length.toNat * itemSize.toNat then .fail []
      else if 2 ^ 32 ≤ length.toNat * itemSize.toNat + 4 then .fail []
      else if !sizeOk size' (length * itemSize + 4) then .fail []
      else if !(size (length * itemSize + 4)).2 then .fail (size (length * itemSize + 4)).1
      else (runWith (Reader.parseFixVec itemSize size index r size')
        (.items 0 length.toNat r.init) ds).after
          ((size (length * itemSize + 4)).1 ++ r.start ++ index 0))
    (fun buf c cs => by
      rw [runWith_cons]
      simp only [Reader.parseFixVec]
      cases fill 4 buf c with
      | more buf => simp [resume]
      | full bs rest =>
        simp only
        split_ifs with h₁ h₂ h₃ h₄
        · rfl
        · rfl
        · rfl
        · rfl
        · rw [resume_after, runWith_cons]
          rfl)
    [] cs (Nat.zero_le _) (.inl hcs)
  rw [hrun]
  simp only [List.length_nil, Nat.zero_add, Nat.sub_zero, List.nil_append]
  have hnum := Agrees.num (c := cs) (ε := ε)
    (K := fun length ds =>
      if 2 ^ 32 ≤ length.toNat * itemSize.toNat then .fail []
      else if 2 ^ 32 ≤ length.toNat * itemSize.toNat + 4 then .fail []
      else if !sizeOk size' (length * itemSize + 4) then .fail []
      else if !(size (length * itemSize + 4)).2 then .fail (size (length * itemSize + 4)).1
      else (runWith (Reader.parseFixVec itemSize size index r size')
        (.items 0 length.toNat r.init) ds).after
          ((size (length * itemSize + 4)).1 ++ r.start ++ index 0))
    (k := fun length r' =>
      if 2 ^ 32 ≤ length.toNat * itemSize.toNat then .fail
      else if 2 ^ 32 ≤ length.toNat * itemSize.toNat + 4 then .fail
      else if !sizeOk size' (length * itemSize + 4) then .fail
      else if !(size (length * itemSize + 4)).2 then .fail
      else Spec.readItems sp itemSize length.toNat r')
    (l := Spec.itemsLen sp)
    (T := fun length as ds evs => as.length = length.toNat ∧
      (size (length * itemSize + 4)).2 = true ∧
      ∃ e, Spec.TrItems sp r.start index 0 as ds e ∧
        evs = (size (length * itemSize + 4)).1 ++ r.start ++ index 0 ++ e)
    (fun length hle => by
      split_ifs with h₁ h₂ h₃ h₄
      · trivial
      · trivial
      · trivial
      · trivial
      · have hitems := agrees_items h index itemSize Reader.FixVecState.items
          (p := Reader.parseFixVec itemSize size index r size') (fun _ _ _ _ => rfl)
          length.toNat 0 (dropC 4 cs) (dropC_ne_nil hle hcs)
        rw [joined_dropC] at hitems
        exact hitems.count.after _ fun as ds e he =>
          ⟨he.2, by simpa using h₄, e, he.1, rfl⟩)
  refine (hnum.map (l := (Spec.fixVec itemSize size r.start index sp).len) (fun v => v.2)
    (fun _ => rfl) ?_).congr ?_
  · rintro v ds evs ⟨hlen, hacc, e, he, hevs⟩
    have hw : UInt32.ofNat v.2.length = v.1 := by rw [hlen]; simp
    refine ⟨by rw [hlen]; exact v.1.toNat_lt, ?_, e, he, ?_⟩
    · rw [hw]; exact hacc
    · rw [hw]; exact hevs
  · simp only [Spec.fixVec]
    cases readNum (joined cs) with
    | more => rfl
    | fail => rfl
    | done w r' =>
      simp only [Res.bind_done, Res.map]
      split_ifs
      · rfl
      · rfl
      · rfl
      · rfl
      · cases Spec.readItems sp itemSize w.toNat r' <;> rfl

/-- Skipping the offsets, then reading the items. -/
theorem agrees_offsets {r : Reader ε} {sp : Spec ε α} (h : Lawful r sp)
    (length index : UInt32 → List ε) (size count : UInt32) (n : ℕ) (cs : List Chunk)
    (hcs : cs ≠ []) :
    Agrees (runWith (Reader.parseDynVec length index r size) (.offsets count n []) cs)
      ((Spec.skipNums n (joined cs)).bind fun _ r =>
        Spec.readItems sp molNumMax count.toNat r)
      (fun as => 4 * n + Spec.itemsLen sp as)
      (fun as ds evs => as.length = count.toNat ∧
        ∃ e, Spec.TrItems sp r.start index 0 as (dropC (4 * n) ds) e ∧
          evs = r.start ++ length count ++ index 0 ++ e) cs := by
  induction n generalizing cs with
  | zero =>
    have hitems := agrees_items h index molNumMax Reader.DynVecState.items
      (p := Reader.parseDynVec length index r size) (fun _ _ _ _ => rfl) count.toNat 0 cs hcs
    have hrun : runWith (Reader.parseDynVec length index r size) (.offsets count 0 []) cs =
        (runWith (Reader.parseDynVec length index r size) (.items 0 count.toNat r.init)
          cs).after (r.start ++ length count ++ index 0) := by
      cases cs with
      | nil => exact absurd rfl hcs
      | cons c cs =>
        rw [runWith_cons, runWith_cons, ← resume_after]
        rfl
    rw [hrun]
    simp only [Nat.mul_zero, Nat.zero_add, dropC_zero, Spec.skipNums, Res.bind_done]
    exact hitems.count.after _ fun as ds e he => ⟨he.2, e, he.1, rfl⟩
  | succ n ih =>
    have hrun := runWith_fill (p := Reader.parseDynVec length index r size)
      (f := Reader.DynVecState.offsets count (n + 1)) (n := 4)
      (K := fun _ ds => runWith (Reader.parseDynVec length index r size) (.offsets count n []) ds)
      (fun buf c cs => by
        rw [runWith_cons]
        simp only [Reader.parseDynVec, Reader.parseOffsets]
        cases fill 4 buf c with
        | more buf => simp [resume]
        | full bs rest => rfl)
      [] cs (Nat.zero_le _) (.inl hcs)
    rw [hrun]
    simp only [List.length_nil, Nat.zero_add, Nat.sub_zero]
    have hnum := Agrees.num (c := cs) (ε := ε)
      (K := fun _ ds => runWith (Reader.parseDynVec length index r size) (.offsets count n []) ds)
      (k := fun _ r' => (Spec.skipNums n r').bind fun _ r' =>
        Spec.readItems sp molNumMax count.toNat r')
      (l := fun as => 4 * n + Spec.itemsLen sp as)
      (T := fun _ as ds evs => as.length = count.toNat ∧
        ∃ e, Spec.TrItems sp r.start index 0 as (dropC (4 * n) ds) e ∧
          evs = r.start ++ length count ++ index 0 ++ e)
      (fun _ hle => by
        have hrest := ih (dropC 4 cs) (dropC_ne_nil hle hcs)
        rwa [joined_dropC] at hrest)
    refine (hnum.map (l := fun as => 4 * (n + 1) + Spec.itemsLen sp as) (fun v => v.2)
      (fun v => by omega) ?_).congr ?_
    · rintro v ds evs ⟨hlen, e, he, hevs⟩
      rw [dropC_dropC, show 4 + 4 * n = 4 * (n + 1) by omega] at he
      exact ⟨hlen, e, he, hevs⟩
    · simp only [Spec.skipNums]
      cases readNum (joined cs) with
      | more => rfl
      | fail => rfl
      | done w r' =>
        simp only [Res.bind_done, Res.map]
        cases Spec.skipNums n r' with
        | more => rfl
        | fail => rfl
        | done _ r'' =>
          simp only [Res.bind_done]
          cases Spec.readItems sp molNumMax count.toNat r'' <;> rfl

theorem Lawful.dynVec {r : Reader ε} {sp : Spec ε α} (length index : UInt32 → List ε)
    (h : Lawful r sp) :
    Lawful (Reader.dynVec length index r) (Spec.dynVec r.start length index sp) := by
  intro size cs hcs
  change Agrees (runWith (Reader.parseDynVec length index r size) (.total []) cs) _ _ _ _
  -- the offset of the first item and all that follows it
  have hfirst : ∀ ds, ds ≠ [] →
      Agrees (runWith (Reader.parseDynVec length index r size) (.first []) ds)
        ((readNum (joined ds)).bind fun first r' =>
          (Spec.skipNums ((Reader.itemCount first).toNat - 1) r').bind fun _ r' =>
            Spec.readItems sp molNumMax (Reader.itemCount first).toNat r')
        (fun as => 4 + (4 * (as.length - 1) + Spec.itemsLen sp as))
        (fun as ds evs => as.length < 2 ^ 32 ∧
          ∃ e, Spec.TrItems sp r.start index 0 as (dropC (4 + 4 * (as.length - 1)) ds) e ∧
            evs = r.start ++ length (UInt32.ofNat as.length) ++ index 0 ++ e) ds := by
    intro ds hds
    have hrun := runWith_fill (p := Reader.parseDynVec length index r size)
      (f := Reader.DynVecState.first) (n := 4)
      (K := fun bs ds =>
        let count := Reader.itemCount (molUnpackNumber bs)
        runWith (Reader.parseDynVec length index r size) (.offsets count (count.toNat - 1) []) ds)
      (fun buf c cs => by
        rw [runWith_cons]
        simp only [Reader.parseDynVec, Reader.parseFirst]
        cases fill 4 buf c with
        | more buf => simp [resume]
        | full bs rest => rfl)
      [] ds (Nat.zero_le _) (.inl hds)
    rw [hrun]
    simp only [List.length_nil, Nat.zero_add, Nat.sub_zero, List.nil_append]
    have hnum := Agrees.num (c := ds) (ε := ε)
      (K := fun first ds => runWith (Reader.parseDynVec length index r size)
        (.offsets (Reader.itemCount first) ((Reader.itemCount first).toNat - 1) []) ds)
      (k := fun first r' => (Spec.skipNums ((Reader.itemCount first).toNat - 1) r').bind
        fun _ r' => Spec.readItems sp molNumMax (Reader.itemCount first).toNat r')
      (l := fun as => 4 * (as.length - 1) + Spec.itemsLen sp as)
      (T := fun first as ds evs => as.length = (Reader.itemCount first).toNat ∧
        ∃ e, Spec.TrItems sp r.start index 0 as (dropC (4 * (as.length - 1)) ds) e ∧
          evs = r.start ++ length (Reader.itemCount first) ++ index 0 ++ e)
      (fun first hle => by
        have hrest := agrees_offsets h length index size (Reader.itemCount first)
          ((Reader.itemCount first).toNat - 1) (dropC 4 ds) (dropC_ne_nil hle hds)
        rw [joined_dropC] at hrest
        exact hrest.fixLen (fun as ds e he => by rw [he.1]) fun as ds e ⟨hlen, he⟩ =>
          ⟨hlen, by rw [hlen]; exact he⟩)
    refine (hnum.map (l := fun as => 4 + (4 * (as.length - 1) + Spec.itemsLen sp as))
      (fun v => v.2) (fun v => rfl) ?_).congr ?_
    · rintro v ds evs ⟨hlen, e, he, hevs⟩
      have hw : UInt32.ofNat v.2.length = Reader.itemCount v.1 := by rw [hlen]; simp
      rw [dropC_dropC] at he
      exact ⟨by rw [hlen]; exact (Reader.itemCount v.1).toNat_lt, e, he, by rw [hw]; exact hevs⟩
    · cases readNum (joined ds) with
      | more => rfl
      | fail => rfl
      | done first r' =>
        simp only [Res.bind_done, Res.map]
        cases (Spec.skipNums ((Reader.itemCount first).toNat - 1) r') with
        | more => rfl
        | fail => rfl
        | done _ r'' =>
          simp only [Res.bind_done]
          cases Spec.readItems sp molNumMax (Reader.itemCount first).toNat r'' <;> rfl
  have hrun := runWith_fill (p := Reader.parseDynVec length index r size)
    (f := Reader.DynVecState.total) (n := 4)
    (K := fun bs ds =>
      if molUnpackNumber bs = 4 then .done [] ds
      else if !sizeOk size (molUnpackNumber bs) then .fail []
      else runWith (Reader.parseDynVec length index r size) (.first []) ds)
    (fun buf c cs => by
      rw [runWith_cons]
      simp only [Reader.parseDynVec]
      cases fill 4 buf c with
      | more buf => simp [resume]
      | full bs rest =>
        simp only
        split_ifs with h₁ h₂
        · rfl
        · rfl
        · rfl)
    [] cs (Nat.zero_le _) (.inl hcs)
  rw [hrun]
  simp only [List.length_nil, Nat.zero_add, Nat.sub_zero, List.nil_append]
  have hnum := Agrees.num (c := cs) (ε := ε)
    (K := fun total ds =>
      if total = 4 then .done [] ds
      else if !sizeOk size total then .fail []
      else runWith (Reader.parseDynVec length index r size) (.first []) ds)
    (k := fun total r' =>
      if total = 4 then .done none r'
      else if !sizeOk size total then .fail
      else ((readNum r').bind fun first r' =>
        (Spec.skipNums ((Reader.itemCount first).toNat - 1) r').bind fun _ r' =>
          Spec.readItems sp molNumMax (Reader.itemCount first).toNat r').map some)
    (l := fun a => match a with
      | none => 0
      | some as => 4 + (4 * (as.length - 1) + Spec.itemsLen sp as))
    (T := fun _ a ds evs => match a with
      | none => evs = []
      | some as => as.length < 2 ^ 32 ∧
          ∃ e, Spec.TrItems sp r.start index 0 as (dropC (4 + 4 * (as.length - 1)) ds) e ∧
            evs = r.start ++ length (UInt32.ofNat as.length) ++ index 0 ++ e)
    (fun total hle => by
      split_ifs with h₁ h₂
      · exact ⟨Nat.zero_le _, (dropC_zero _).symm, by rw [joined_dropC]; rfl, rfl⟩
      · trivial
      · have hrest := hfirst (dropC 4 cs) (dropC_ne_nil hle hcs)
        rw [joined_dropC] at hrest
        exact hrest.map some (fun _ => rfl) fun _ _ _ he => he)
  refine (hnum.map (l := (Spec.dynVec r.start length index sp).len) (fun v => v.2) ?_
    ?_).congr ?_
  · rintro ⟨w, _ | as⟩
    · rfl
    · simp only [Spec.dynVec]; omega
  · rintro ⟨w, _ | as⟩ ds evs htr
    · exact htr
    · obtain ⟨hlt, e, he, hevs⟩ := htr
      rw [dropC_dropC, ← Nat.add_assoc] at he
      exact ⟨hlt, e, he, hevs⟩
  · simp only [Spec.dynVec]
    cases readNum (joined cs) with
    | more => rfl
    | fail => rfl
    | done w r' =>
      simp only [Res.bind_done, Res.map]
      split_ifs
      · rfl
      · rfl
      · cases readNum r' with
        | more => rfl
        | fail => rfl
        | done first r' =>
          simp only [Res.bind_done]
          cases (Spec.skipNums ((Reader.itemCount first).toNat - 1) r') with
          | more => rfl
          | fail => rfl
          | done _ r'' =>
            simp only [Res.bind_done]
            cases Spec.readItems sp molNumMax (Reader.itemCount first).toNat r'' <;> rfl

end LedgerNervos
