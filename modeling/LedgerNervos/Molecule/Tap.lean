import LedgerNervos.Molecule.Vectors

/-!
# The `chunk` callback

Every composite reader can be given a `chunk` callback, which gets the value in pieces: after each
call of the parse function, what that call has consumed.  Where a call ends is decided by the
packets, so the pieces are not determined by the value; what is determined is the byte string
they make up.  `Tapped chunk es bs evs` says that `evs` are the events `es` interleaved with calls
of `chunk` on pieces that make up `bs`.

A reader is `Tame` when it consumes what it is given from the front, all of it when it asks for
more, and skips its own `chunk` callback only when it refuses the input.
-/

namespace LedgerNervos

variable {ε α β : Type}

/-- The events `es`, interleaved with calls of `chunk` on pieces that make up `bs`. -/
inductive Tapped (chunk : Chunk → List ε) : List ε → List UInt8 → List ε → Prop
  | nil : Tapped chunk [] [] []
  | ev (e : ε) {es evs : List ε} {bs : List UInt8} :
      Tapped chunk es bs evs → Tapped chunk (e :: es) bs (e :: evs)
  | tap (c : Chunk) {es evs : List ε} {bs : List UInt8} :
      Tapped chunk es bs evs → Tapped chunk es (c.bytes ++ bs) (chunk c ++ evs)

namespace Tapped

variable {chunk : Chunk → List ε} {es es' evs evs' : List ε} {bs bs' : List UInt8}

/-- Events without a call of `chunk`. -/
theorem refl (chunk : Chunk → List ε) (es : List ε) : Tapped chunk es [] es := by
  induction es with
  | nil => exact nil
  | cons e es ih => exact ev e ih

theorem append (h : Tapped chunk es bs evs) (h' : Tapped chunk es' bs' evs') :
    Tapped chunk (es ++ es') (bs ++ bs') (evs ++ evs') := by
  induction h with
  | nil => exact h'
  | ev e _ ih => exact ev e ih
  | tap c _ ih =>
    rw [List.append_assoc, List.append_assoc]
    exact tap c ih

/-- A single call of `chunk`. -/
theorem single (chunk : Chunk → List ε) (c : Chunk) : Tapped chunk [] c.bytes (chunk c) := by
  have h : Tapped chunk [] (c.bytes ++ []) (chunk c ++ []) := tap c nil
  rwa [List.append_nil, List.append_nil] at h

/-- A callback that does nothing leaves no trace. -/
theorem eq_of_empty (h : Tapped (fun _ => []) es bs evs) : evs = es := by
  induction h with
  | nil => rfl
  | ev e _ ih => rw [ih]
  | tap _ _ ih => simpa using ih

end Tapped

/-- A call has consumed the chunk from the front, and all of it when it asks for more. -/
structure Out.Ate {σ : Type} (o : Out σ ε) (c : Chunk) : Prop where
  front : ∃ k ≤ c.length, o.rest = c.drop k
  all : o.rv = .incomplete → o.rest.length = 0

namespace Reader

/-- Every call consumes its chunk from the front, and all of it when it asks for more. -/
def Eats (r : Reader ε) : Prop := ∀ size s c, (r.parse size s c).Ate c

/-- The reader consumes the input from the front, all of it when it asks for more, and calls its
`chunk` callback unless it refuses the input. -/
structure Tame (r : Reader ε) : Prop where
  eats : r.Eats
  bare : ∀ size s c, (r.parse size s c).rv ≠ .reject → (r.parse size s c).bare = false

end Reader

/-- The tapped run of a reader runs like the reader itself; the pieces that are handed over make
up what the run consumes. -/
theorem runWith_parseClose {r : Reader ε} (ht : r.Tame) (h : Hooks ε) (size : UInt32)
    (s : r.State) (cs : List Chunk) :
    match runWith (r.parse size) s cs with
    | .done e₀ rest => ∃ e₁ bs, Tapped h.chunk e₀ bs e₁ ∧ bs ++ joined rest = joined cs ∧
        runWith (Reader.parseClose h r size) s cs = .done (e₁ ++ h.finish) rest
    | .more _ => ∃ e, runWith (Reader.parseClose h r size) s cs = .more e
    | .fail _ => ∃ e, runWith (Reader.parseClose h r size) s cs = .fail e := by
  induction cs generalizing s with
  | nil => exact ⟨_, rfl⟩
  | cons c cs ih =>
    rw [runWith_cons, runWith_cons]
    obtain ⟨k, hk, hrest⟩ := (ht.eats size s c).front
    have htap : Tapped h.chunk (r.parse size s c).evs (c.bytes.take k)
        ((r.parse size s c).evs ++
          h.chunk (c.take (c.length - (r.parse size s c).rest.length))) := by
      have hlen : c.length - (r.parse size s c).rest.length = k := by
        rw [hrest, Chunk.length_drop]; omega
      rw [hlen]
      simpa using (Tapped.refl h.chunk (r.parse size s c).evs).append
        (Tapped.single h.chunk (c.take k))
    cases hrv : (r.parse size s c).rv with
    | complete =>
      have hbare := ht.bare size s c (by rw [hrv]; simp)
      simp only [resume, hrv, Reader.parseClose, hbare, if_true, Bool.false_eq_true, if_false]
      refine ⟨_, _, htap, ?_, rfl⟩
      rw [joined_cons, joined_cons, hrest, Chunk.bytes_drop, ← List.append_assoc,
        List.take_append_drop]
    | reject =>
      simp only [resume, hrv, Reader.parseClose]
      exact ⟨_, rfl⟩
    | incomplete =>
      have hbare := ht.bare size s c (by rw [hrv]; simp)
      have hall := (ht.eats size s c).all hrv
      have hfull : c.bytes.take k = c.bytes := by
        rw [hrest, Chunk.length_drop] at hall
        exact List.take_of_length_le (by simp only [Chunk.length] at hall hk; omega)
      rw [hfull] at htap
      have hnext := ih (r.parse size s c).st
      simp only [resume, hrv, Reader.parseClose, hbare, Bool.false_eq_true, if_false]
      cases hrun : runWith (r.parse size) (r.parse size s c).st cs with
      | done e₀ rest =>
        rw [hrun] at hnext
        obtain ⟨e₁, bs, htap', hjoin, hclose⟩ := hnext
        rw [hclose]
        refine ⟨_, _, htap.append htap', ?_, ?_⟩
        · rw [List.append_assoc, hjoin, joined_cons]
        · simp [RunRes.after]
      | more e₀ =>
        rw [hrun] at hnext
        obtain ⟨e, he⟩ := hnext
        exact ⟨_, by rw [he]; rfl⟩
      | fail e₀ =>
        rw [hrun] at hnext
        obtain ⟨e, he⟩ := hnext
        exact ⟨_, by rw [he]; rfl⟩

/-- Specification of `Reader.close`. -/
def Spec.close (h : Hooks ε) (sp : Spec ε α) : Spec ε α where
  sem := sp.sem
  len := sp.len
  Tr a cs evs := ∃ e₀ e₁, sp.Tr a cs e₀ ∧ Tapped h.chunk e₀ (joined cs) e₁ ∧ evs = e₁ ++ h.finish

theorem Lawful.close {r : Reader ε} {sp : Spec ε α} (ht : r.Tame) (h : Hooks ε)
    (hr : Lawful r sp) : Lawful (Reader.close h r) (Spec.close h sp) := by
  intro size cs hcs
  change Agrees (runWith (Reader.parseClose h r size) r.init cs) _ _ _ _
  have hrun := runWith_parseClose ht h size r.init cs
  have hag := hr size cs hcs
  rw [Reader.run] at hag
  simp only [Spec.close]
  cases hx : runWith (r.parse size) r.init cs with
  | done e₀ rest =>
    rw [hx] at hrun hag
    obtain ⟨e₁, bs, htap, hjoin, hclose⟩ := hrun
    rw [hclose]
    cases hy : sp.sem size (joined cs) with
    | more => rw [hy] at hag; exact hag
    | fail => rw [hy] at hag; exact hag
    | done a r' =>
      rw [hy] at hag
      obtain ⟨hle, hrest, hr', htr⟩ := hag
      refine ⟨hle, hrest, hr', e₀, e₁, htr, ?_, rfl⟩
      have hbs : bs = joined (takeC (sp.len a) cs) := by
        rw [hrest, joined_dropC] at hjoin
        rw [joined_takeC]
        exact List.append_cancel_right (hjoin.trans (List.take_append_drop _ _).symm)
      rwa [← hbs]
  | more e₀ =>
    rw [hx] at hrun hag
    obtain ⟨e, he⟩ := hrun
    rw [he]
    cases hy : sp.sem size (joined cs) <;> rw [hy] at hag <;> exact hag
  | fail e₀ =>
    rw [hx] at hrun hag
    obtain ⟨e, he⟩ := hrun
    rw [he]
    cases hy : sp.sem size (joined cs) <;> rw [hy] at hag <;> exact hag

/-- Without a `chunk` callback, `Reader.close` only adds the event at the end. -/
theorem runWith_parseClose_plain {r : Reader ε} (start finish : List ε) (size : UInt32)
    (s : r.State) (cs : List Chunk) :
    runWith (Reader.parseClose { start := start, finish := finish } r size) s cs =
      (runWith (r.parse size) s cs).bind fun ds => .done finish ds := by
  induction cs generalizing s with
  | nil => rfl
  | cons c cs ih =>
    rw [runWith_cons, runWith_cons]
    cases hrv : (r.parse size s c).rv with
    | complete => simp [resume, hrv, Reader.parseClose, RunRes.bind, RunRes.after]
    | reject => simp [resume, hrv, Reader.parseClose, RunRes.bind]
    | incomplete =>
      simp only [resume, hrv, Reader.parseClose, RunRes.after_bind, ← ih]
      simp

/-- Specification of `Reader.close` without a `chunk` callback. -/
def Spec.closePlain (finish : List ε) (sp : Spec ε α) : Spec ε α where
  sem := sp.sem
  len := sp.len
  Tr a cs evs := ∃ e, sp.Tr a cs e ∧ evs = e ++ finish

theorem Lawful.closePlain {r : Reader ε} {sp : Spec ε α} (start finish : List ε)
    (hr : Lawful r sp) :
    Lawful (Reader.close { start := start, finish := finish } r) (Spec.closePlain finish sp) := by
  intro size cs hcs
  change Agrees (runWith (Reader.parseClose _ r size) r.init cs) _ _ _ _
  rw [runWith_parseClose_plain]
  have hag := hr size cs hcs
  rw [Reader.run] at hag
  simp only [Spec.closePlain]
  cases hx : runWith (r.parse size) r.init cs <;> rw [hx] at hag
  case done e₀ rest =>
    cases hy : sp.sem size (joined cs) <;> rw [hy] at hag
    case done a r' =>
      exact ⟨hag.1, hag.2.1, hag.2.2.1, e₀, hag.2.2.2, rfl⟩
    case more => exact hag
    case fail => exact hag
  case more => cases hy : sp.sem size (joined cs) <;> rw [hy] at hag <;> exact hag
  case fail => cases hy : sp.sem size (joined cs) <;> rw [hy] at hag <;> exact hag

/-! ### The combinators are tame -/

namespace Out.Ate

variable {σ τ : Type} {o : Out σ ε} {c : Chunk}

theorem mapState (h : o.Ate c) (f : σ → τ) : (o.mapState f).Ate c := ⟨h.front, h.all⟩

theorem after (h : o.Ate c) (es : List ε) : (o.after es).Ate c := ⟨h.front, h.all⟩

/-- A call that goes on where another one stopped. -/
theorem trans {o' : Out τ ε} (h : ∃ k ≤ c.length, o.rest = c.drop k) (h' : o'.Ate o.rest) :
    o'.Ate c := by
  obtain ⟨k, hk, hrest⟩ := h
  obtain ⟨k', hk', hrest'⟩ := h'.front
  refine ⟨⟨k + k', ?_, ?_⟩, h'.all⟩
  · rw [hrest, Chunk.length_drop] at hk'; omega
  · rw [hrest', hrest, Chunk.drop_drop]

/-- Nothing consumed, and no more asked for. -/
theorem idle {rv : Rv} {s : σ} {evs : List ε} {bare : Bool} (h : rv ≠ .incomplete) :
    (Out.mk rv s c evs bare).Ate c :=
  ⟨⟨0, Nat.zero_le _, (Chunk.drop_zero c).symm⟩, fun h' => absurd h' h⟩

/-- All consumed. -/
theorem spent {rv : Rv} {s : σ} {evs : List ε} {bare : Bool} :
    (Out.mk rv s c.spent evs bare).Ate c :=
  ⟨⟨c.length, Nat.le_refl _, rfl⟩, fun _ => by simp [Chunk.spent]⟩

end Out.Ate

/-- A filled buffer leaves the rest of the chunk. -/
theorem fill_rest {n : ℕ} {buf bs : List UInt8} {c rest : Chunk}
    (h : fill n buf c = .full bs rest) : ∃ k ≤ c.length, rest = c.drop k := by
  unfold fill at h
  split_ifs at h with hlt
  simp only [Fill.full.injEq] at h
  exact ⟨_, Nat.not_lt.1 hlt, h.2.symm⟩

namespace Reader

/-- Going on after a number, and refusing, when the number has been read from the front. -/
theorem ate_of_fill {σ : Type} {n : ℕ} {buf : List UInt8} {c : Chunk}
    {more : List UInt8 → Out σ ε} {f : List UInt8 → Chunk → Out σ ε}
    (hmore : ∀ buf, (more buf).Ate c) (hfull : ∀ bs rest, (f bs rest).Ate rest) :
    (match fill n buf c with
      | .more buf => more buf
      | .full bs rest => f bs rest).Ate c := by
  cases hf : fill n buf c with
  | more buf => exact hmore buf
  | full bs rest =>
    have hrest : ∃ k ≤ c.length, (Out.mk Rv.complete () rest ([] : List ε) false).rest = c.drop k :=
      fill_rest hf
    exact Out.Ate.trans hrest (hfull bs rest)

theorem Eats.array (n : ℕ) (finish : List UInt8 → List ε) : (array n finish).Eats := by
  intro _ buf c
  exact ate_of_fill (f := fun bs rest => ⟨.complete, bs, rest, finish bs, false⟩)
    (fun _ => .spent) (fun _ _ => .idle (by simp))

theorem Eats.byte (finish : UInt8 → List ε) : (byte finish).Eats := by
  intro size s c
  change (parseByte finish size s c).Ate c
  unfold parseByte
  split_ifs with h
  · exact .idle (by simp)
  · cases hb : c.bytes with
    | nil =>
      exact ⟨⟨0, Nat.zero_le _, (Chunk.drop_zero c).symm⟩, fun _ => by simp [Chunk.length, hb]⟩
    | cons b bs => exact ⟨⟨1, by simp [Chunk.length, hb], rfl⟩, by simp⟩

theorem Eats.close (h : Hooks ε) {r : Reader ε} (hr : r.Eats) : (close h r).Eats :=
  fun size s c => ⟨(hr size s c).front, (hr size s c).all⟩

theorem Eats.option {r : Reader ε} (hr : r.Eats) : (option r).Eats := by
  intro size s c
  change (parseOption r size s c).Ate c
  unfold parseOption
  split_ifs with h
  · exact .idle (by simp)
  · exact ⟨(hr size s c).front, (hr size s c).all⟩

theorem Eats.fields {rs : List (Reader ε)} (hrs : ∀ r ∈ rs, r.Eats) (sizes : List UInt32)
    (s : FieldsState rs) (c : Chunk) : (parseFields rs sizes s c).Ate c := by
  induction rs generalizing sizes c with
  | nil => exact .idle (by simp)
  | cons r rs ih =>
    have ihrs := ih fun r' hr' => hrs r' (List.mem_cons_of_mem _ hr')
    cases s with
    | inr s => exact (ihrs _ s c).mapState _
    | inl s =>
      have hr := hrs r List.mem_cons_self (sizes.headD 0) s c
      change (parseFields (r :: rs) sizes (.here s) c).Ate c
      rw [parseFields_here]
      split_ifs with hrv
      · exact (Out.Ate.trans hr.front (ihrs _ _ _)).mapState _ |>.after _
      · exact ⟨hr.front, hr.all⟩

theorem Eats.struct (size : UInt32) (sizes : List UInt32) {rs : List (Reader ε)}
    (hrs : ∀ r ∈ rs, r.Eats) : (struct size sizes rs).Eats := by
  intro size' s c
  change (parseStruct size sizes rs size' s c).Ate c
  unfold parseStruct
  split_ifs with h
  · exact .idle (by simp)
  · exact Eats.fields hrs _ _ _

theorem Eats.table (offsets : List UInt32 → List ε) {rs : List (Reader ε)}
    (hrs : ∀ r ∈ rs, r.Eats) : (table offsets rs).Eats := by
  intro size s c
  have hheader : ∀ k words num c, (parseHeader rs offsets size k words num c).Ate c := by
    intro k
    induction k with
    | zero => exact fun words num c => ((Eats.fields hrs _ _ c).mapState _).after _
    | succ k ih =>
      intro words num c
      refine ate_of_fill (fun _ => .spent) fun bs rest => ?_
      split_ifs with h
      · exact .idle (by simp)
      · exact ih _ _ _
  cases s with
  | header words num => exact hheader _ _ _ _
  | body words fields => exact (Eats.fields hrs _ _ c).mapState _

theorem Eats.bytes (size : UInt32 → List ε × Bool) (bodyChunk : Chunk → List ε) :
    (bytes size bodyChunk).Eats := by
  intro size' s c
  have hbody : ∀ left c, (parseBody bodyChunk left c).Ate c := by
    intro left c
    simp only [parseBody]
    by_cases h : 0 < left - min left c.length
    · rw [if_pos h]
      exact ⟨⟨_, Nat.min_le_right _ _, rfl⟩, fun _ => by simp; omega⟩
    · rw [if_neg h]
      exact ⟨⟨_, Nat.min_le_right _ _, rfl⟩, by simp⟩
  cases s with
  | body left => exact hbody left c
  | header num =>
    refine ate_of_fill (fun _ => .spent) fun bs rest => ?_
    simp only
    split_ifs with h₁ h₂ h₃
    · exact .idle (by simp)
    · exact .idle (by simp)
    · exact .idle (by simp)
    · exact (hbody _ _).after _

theorem Eats.items {σ : Type} {r : Reader ε} (hr : r.Eats) (index : UInt32 → List ε)
    (size : UInt32) (wrap : UInt32 → ℕ → r.State → σ) (left : ℕ) (idx : UInt32) (s : r.State)
    (c : Chunk) : (parseItems r index size wrap left idx s c).Ate c := by
  induction left generalizing idx s c with
  | zero => exact .idle (by simp)
  | succ left ih =>
    unfold parseItems
    simp only
    split_ifs with hrv
    · exact (Out.Ate.trans (hr size s c).front (ih _ _ _)).after _
    · exact ⟨(hr size s c).front, (hr size s c).all⟩

theorem Eats.fixVec (itemSize : UInt32) (size : UInt32 → List ε × Bool) (index : UInt32 → List ε)
    {r : Reader ε} (hr : r.Eats) : (fixVec itemSize size index r).Eats := by
  intro size' s c
  cases s with
  | items idx left s => exact Eats.items hr _ _ _ _ _ _ _
  | header num =>
    refine ate_of_fill (fun _ => .spent) fun bs rest => ?_
    simp only
    split_ifs with h₁ h₂ h₃ h₄
    · exact .idle (by simp)
    · exact .idle (by simp)
    · exact .idle (by simp)
    · exact .idle (by simp)
    · exact (Eats.items hr _ _ _ _ _ _ _).after _

theorem Eats.dynVec (length index : UInt32 → List ε) {r : Reader ε} (hr : r.Eats) :
    (dynVec length index r).Eats := by
  intro size s c
  have hoffsets : ∀ count left num c, (parseOffsets r length index count left num c).Ate c := by
    intro count left
    induction left with
    | zero => exact fun _ _ => (Eats.items hr _ _ _ _ _ _ _).after _
    | succ left ih => exact fun _ _ => ate_of_fill (fun _ => .spent) fun _ _ => ih _ _
  have hfirst : ∀ num c, (parseFirst r length index num c).Ate c :=
    fun _ _ => ate_of_fill (fun _ => .spent) fun _ _ => hoffsets _ _ _ _
  cases s with
  | items idx left s => exact Eats.items hr _ _ _ _ _ _ _
  | offsets count left num => exact hoffsets _ _ _ _
  | first num => exact hfirst _ _
  | total num =>
    refine ate_of_fill (fun _ => .spent) fun bs rest => ?_
    split_ifs with h₁ h₂
    · exact .idle (by simp)
    · exact .idle (by simp)
    · exact hfirst _ _

/-! Only a refusal of its own lets a reader skip its `chunk` callback. -/

theorem bare_fields (rs : List (Reader ε)) (sizes : List UInt32) (s : FieldsState rs)
    (c : Chunk) : (parseFields rs sizes s c).bare = false := by
  induction rs generalizing sizes c with
  | nil => rfl
  | cons r rs ih =>
    cases s with
    | inr s => exact ih _ s c
    | inl s =>
      change (parseFields (r :: rs) sizes (.here s) c).bare = false
      rw [parseFields_here]
      split_ifs with hrv
      · exact ih _ _ _
      · rfl

theorem bare_items {σ : Type} (r : Reader ε) (index : UInt32 → List ε) (size : UInt32)
    (wrap : UInt32 → ℕ → r.State → σ) (left : ℕ) (idx : UInt32) (s : r.State) (c : Chunk) :
    (parseItems r index size wrap left idx s c).bare = false := by
  induction left generalizing idx s c with
  | zero => rfl
  | succ left ih =>
    simp only [parseItems]
    split_ifs with hrv
    · exact ih _ _ _
    · rfl

/-- The `bare` flag after a number has been read. -/
theorem bare_of_fill {σ : Type} {n : ℕ} {buf : List UInt8} {c : Chunk}
    {more : List UInt8 → Out σ ε} {full : List UInt8 → Chunk → Out σ ε}
    (hmore : ∀ buf, (more buf).bare = false)
    (hfull : ∀ bs rest, (full bs rest).rv ≠ .reject → (full bs rest).bare = false) :
    (match fill n buf c with
      | .more buf => more buf
      | .full bs rest => full bs rest).rv ≠ .reject →
    (match fill n buf c with
      | .more buf => more buf
      | .full bs rest => full bs rest).bare = false := by
  cases fill n buf c with
  | more buf => exact fun _ => hmore buf
  | full bs rest => exact hfull bs rest

theorem Tame.option {r : Reader ε} (hr : r.Eats) : (Reader.option r).Tame where
  eats := .option hr
  bare size s c _ := by
    change (parseOption r size s c).bare = false
    unfold parseOption
    split_ifs <;> rfl

theorem Tame.table (offsets : List UInt32 → List ε) {rs : List (Reader ε)}
    (hrs : ∀ r ∈ rs, r.Eats) : (Reader.table offsets rs).Tame where
  eats := .table offsets hrs
  bare size s c := by
    have hheader : ∀ k words num c, (parseHeader rs offsets size k words num c).rv ≠ .reject →
        (parseHeader rs offsets size k words num c).bare = false := by
      intro k
      induction k with
      | zero => exact fun _ _ c _ => bare_fields rs _ _ c
      | succ k ih =>
        intro words num c
        refine bare_of_fill (fun _ => rfl) fun bs rest => ?_
        split_ifs with h
        · exact fun hrv => absurd rfl hrv
        · exact ih _ _ _
    cases s with
    | header words num => exact hheader _ _ _ _
    | body words fields => exact fun _ => bare_fields rs _ fields c

theorem Tame.fixVec (itemSize : UInt32) (size : UInt32 → List ε × Bool)
    (index : UInt32 → List ε) {r : Reader ε} (hr : r.Eats) :
    (Reader.fixVec itemSize size index r).Tame where
  eats := .fixVec itemSize size index hr
  bare size' s c := by
    cases s with
    | items idx left s => exact fun _ => bare_items _ _ _ _ _ _ _ _
    | header num =>
      refine bare_of_fill (fun _ => rfl) fun bs rest => ?_
      simp only
      split_ifs with h₁ h₂ h₃ h₄
      · exact fun hrv => absurd rfl hrv
      · exact fun hrv => absurd rfl hrv
      · exact fun hrv => absurd rfl hrv
      · exact fun hrv => absurd rfl hrv
      · exact fun _ => bare_items _ _ _ _ _ _ _ _

theorem Tame.dynVec (length index : UInt32 → List ε) {r : Reader ε} (hr : r.Eats) :
    (Reader.dynVec length index r).Tame where
  eats := .dynVec length index hr
  bare size s c := by
    have hoffsets : ∀ count left num c,
        (parseOffsets r length index count left num c).rv ≠ .reject →
        (parseOffsets r length index count left num c).bare = false := by
      intro count left
      induction left with
      | zero => exact fun _ _ _ => bare_items _ _ _ _ _ _ _ _
      | succ left ih => exact fun _ _ => bare_of_fill (fun _ => rfl) fun _ _ => ih _ _
    have hfirst : ∀ num c, (parseFirst r length index num c).rv ≠ .reject →
        (parseFirst r length index num c).bare = false :=
      fun _ _ => bare_of_fill (fun _ => rfl) fun _ _ => hoffsets _ _ _ _
    cases s with
    | items idx left s => exact fun _ => bare_items _ _ _ _ _ _ _ _
    | offsets count left num => exact hoffsets _ _ _ _
    | first num => exact hfirst _ _
    | total num =>
      refine bare_of_fill (fun _ => rfl) fun bs rest => ?_
      split_ifs with h₁ h₂
      · exact fun _ => rfl
      · exact fun hrv => absurd rfl hrv
      · exact hfirst _ _

end Reader

end LedgerNervos
