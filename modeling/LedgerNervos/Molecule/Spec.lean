import LedgerNervos.Molecule.Run

/-!
# What a reader reads

A `Spec` says what a reader makes of a byte string that it gets at once: the value (`sem`), the
number of bytes it takes (`len`) and the events it leads to (`Tr`), the last relative to the
chunks in which the bytes arrived.  `Lawful r sp` is the statement that the resumable reader `r`
does the same, **however the bytes are cut into chunks**.

There is one specification and one lawfulness theorem for each combinator of
`LedgerNervos.Molecule.Reader`; the specification of a composite reader is put together from them
in the same way as the reader itself.
-/

namespace LedgerNervos

variable {ε α β : Type}

/-- What a reader makes of the bytes it is given. -/
structure Spec (ε α : Type) where
  /-- Read a value from the start of a byte string, expecting the given size. -/
  sem : UInt32 → List UInt8 → Res α
  /-- Number of bytes a value takes. -/
  len : α → ℕ
  /-- The events of reading a value from exactly these chunks. -/
  Tr : α → List Chunk → List ε → Prop

/-- The reader reads what the specification says, however the input is cut. -/
def Lawful (r : Reader ε) (sp : Spec ε α) : Prop :=
  ∀ size cs, cs ≠ [] → Agrees (r.run size cs) (sp.sem size (joined cs)) sp.len sp.Tr cs

/-- What is left over follows the bytes of the value. -/
theorem Lawful.rest {r : Reader ε} {sp : Spec ε α} (hr : Lawful r sp) {size : UInt32}
    {bs rest : List UInt8} {a : α} (h : sp.sem size bs = .done a rest) :
    sp.len a ≤ bs.length ∧ rest = bs.drop (sp.len a) := by
  have hone : joined [⟨0, bs⟩] = bs := List.append_nil _
  rw [← hone] at h
  have hrest := (hr size [⟨0, bs⟩] (List.cons_ne_nil _ _)).rest h
  rwa [hone] at hrest

/-! ### Arrays and single bytes -/

namespace Spec

/-- Specification of `Reader.array`. -/
def array (n : ℕ) (finish : List UInt8 → List ε) : Spec ε (List UInt8) where
  sem _ bs := readN n bs
  len _ := n
  Tr a _ evs := a.length = n ∧ evs = finish a

/-- Specification of `Reader.byte`. -/
def byte (finish : UInt8 → List ε) : Spec ε UInt8 where
  sem size bs := if size ≠ 1 then .fail else match bs with
    | [] => .more
    | b :: bs => .done b bs
  len _ := 1
  Tr b _ evs := evs = finish b

end Spec

theorem Lawful.array (n : ℕ) (finish : List UInt8 → List ε) :
    Lawful (Reader.array n finish) (Spec.array n finish) := by
  intro size cs hcs
  have hrun := runWith_fill (p := Reader.parseArray n finish) (f := id) (n := n)
    (K := fun bs cs => .done (finish bs) cs)
    (fun buf c cs => by
      rw [runWith_cons]
      simp only [Reader.parseArray, id]
      cases fill n buf c <;> simp [resume])
    [] cs (Nat.zero_le _) (.inl hcs)
  change Agrees (runWith (Reader.parseArray n finish) (id []) cs) _ _ _ _
  rw [hrun]
  simp only [List.length_nil, Nat.zero_add, Nat.sub_zero, List.nil_append, Spec.array, readN]
  split_ifs with h
  · trivial
  · exact ⟨Nat.not_lt.1 h, rfl, rfl, by simp; omega, rfl⟩

theorem Lawful.byte (finish : UInt8 → List ε) :
    Lawful (Reader.byte finish) (Spec.byte finish) := by
  intro size cs hcs
  change Agrees (runWith (Reader.parseByte finish size) () cs) _ _ _ _
  by_cases hsize : size = 1
  · subst hsize
    induction cs with
    | nil => exact absurd rfl hcs
    | cons c cs ih =>
      rw [runWith_cons]
      obtain ⟨off, bytes⟩ := c
      cases bytes with
      | cons b bs =>
        simp only [resume, Reader.parseByte, Spec.byte, joined_cons, List.cons_append, ne_eq,
          not_true_eq_false, if_false, Agrees]
        refine ⟨by simp, ?_, rfl, trivial⟩
        rw [dropC_of_le (by simp [Chunk.length])]
      | nil =>
        simp only [resume, Reader.parseByte, Spec.byte, joined_cons, List.nil_append, ne_eq,
          not_true_eq_false, if_false, RunRes.after_nil]
        cases cs with
        | nil => trivial
        | cons d ds =>
          have := ih (by simp)
          simp only [Spec.byte, ne_eq, not_true_eq_false, if_false, Agrees] at this ⊢
          rw [dropC_of_lt (by simp [Chunk.length])]
          exact this
  · cases cs with
    | nil => exact absurd rfl hcs
    | cons c cs =>
      rw [runWith_cons]
      simp [resume, Reader.parseByte, Spec.byte, hsize, Agrees]

/-! ### Fields -/

/-- What a sequence of fields makes of the bytes, given the sizes expected of them. -/
structure FieldsSpec (ε α : Type) where
  sem : List UInt32 → List UInt8 → Res α
  len : α → ℕ
  Tr : α → List Chunk → List ε → Prop

namespace FieldsSpec

/-- No fields. -/
def nil : FieldsSpec ε Unit where
  sem _ bs := .done () bs
  len _ := 0
  Tr _ _ evs := evs = []

/-- A field, followed by fields whose initialisation has the events `start`. -/
def cons (sp : Spec ε α) (start : List ε) (sps : FieldsSpec ε β) : FieldsSpec ε (α × β) where
  sem sizes bs := (sp.sem (sizes.headD 0) bs).bind fun a r =>
    (sps.sem sizes.tail r).map fun b => (a, b)
  len v := sp.len v.1 + sps.len v.2
  Tr v cs evs := SeqTr sp.len sp.Tr (fun _ b ds e => ∃ e', sps.Tr b ds e' ∧ e = start ++ e')
    v.1 v.2 cs evs

end FieldsSpec

/-- The fields are read as specified, however the input is cut. -/
def LawfulFields (rs : List (Reader ε)) (sps : FieldsSpec ε α) : Prop :=
  ∀ sizes cs, cs ≠ [] →
    Agrees (runWith (Reader.parseFields rs sizes) (Reader.initFields rs) cs)
      (sps.sem sizes (joined cs)) sps.len sps.Tr cs

theorem LawfulFields.rest {rs : List (Reader ε)} {sps : FieldsSpec ε α} (hr : LawfulFields rs sps)
    {sizes : List UInt32} {bs rest : List UInt8} {a : α} (h : sps.sem sizes bs = .done a rest) :
    sps.len a ≤ bs.length ∧ rest = bs.drop (sps.len a) := by
  have hone : joined [⟨0, bs⟩] = bs := List.append_nil _
  rw [← hone] at h
  have hrest := (hr sizes [⟨0, bs⟩] (List.cons_ne_nil _ _)).rest h
  rwa [hone] at hrest

theorem LawfulFields.nil : LawfulFields [] (FieldsSpec.nil : FieldsSpec ε Unit) := by
  intro sizes cs hcs
  cases cs with
  | nil => exact absurd rfl hcs
  | cons c cs =>
    rw [runWith_cons]
    exact ⟨Nat.zero_le _, (dropC_zero _).symm, rfl, rfl⟩

theorem LawfulFields.cons {r : Reader ε} {rs : List (Reader ε)} {sp : Spec ε α}
    {sps : FieldsSpec ε β} (h : Lawful r sp) (hs : LawfulFields rs sps) :
    LawfulFields (r :: rs) (FieldsSpec.cons sp (Reader.startFields rs) sps) := by
  intro sizes cs hcs
  have hrun := runWith_seq (p := Reader.parseFields (r :: rs) sizes)
    (q := r.parse (sizes.headD 0)) (f := Reader.FieldsState.here)
    (K := fun ds => (runWith (Reader.parseFields rs sizes.tail) (Reader.initFields rs) ds).after
      (Reader.startFields rs))
    (fun t c cs => by
      rw [runWith_cons, Reader.parseFields_here]
      cases hrv : (r.parse (sizes.headD 0) t c).rv with
      | complete =>
        have hmap := runWith_map (p := Reader.parseFields (r :: rs) sizes)
          (q := Reader.parseFields rs sizes.tail) (g := Reader.FieldsState.there)
          (fun _ _ _ _ => rfl) (Reader.initFields rs) ((r.parse (sizes.headD 0) t c).rest :: cs)
        rw [if_pos rfl, resume_after, ← hmap, runWith_cons, RunRes.after_after,
          Reader.parseFields_there]
      | reject => rfl
      | incomplete => rfl)
    r.init cs
  change Agrees (runWith (Reader.parseFields (r :: rs) sizes) (.here r.init) cs) _ _ _ _
  rw [hrun]
  refine (h (sizes.headD 0) cs hcs).bind (k := fun _ bs => sps.sem sizes.tail bs)
    (T := fun _ b ds e => ∃ e', sps.Tr b ds e' ∧ e = Reader.startFields rs ++ e')
    fun a hle => ?_
  have hrest := hs sizes.tail (dropC (sp.len a) cs) (dropC_ne_nil hle hcs)
  rw [joined_dropC] at hrest
  exact hrest.after _ fun _ _ e he => ⟨e, he, rfl⟩

/-! ### Structs and tables -/

namespace Spec

/-- Specification of `Reader.struct`. -/
def struct (size : UInt32) (sizes : List UInt32) (sps : FieldsSpec ε α) : Spec ε α where
  sem size' bs := if !sizeOk size' size then .fail else sps.sem sizes bs
  len := sps.len
  Tr := sps.Tr

/-- Read the remaining `k` numbers of the header of a table. -/
def readHeader (size : UInt32) : ℕ → List UInt32 → List UInt8 → Res (List UInt32)
  | 0, words, bs => .done words bs
  | k + 1, words, bs => (readNum bs).bind fun w r =>
    if words = [] ∧ !sizeOk size w then .fail else readHeader size k (words ++ [w]) r

/-- Specification of `Reader.table`: a value is the header and the values of the fields. -/
def table (n : ℕ) (start : List ε) (offsets : List UInt32 → List ε) (sps : FieldsSpec ε α) :
    Spec ε (List UInt32 × α) where
  sem size bs := (readHeader size (n + 1) [] bs).bind fun words r =>
    (sps.sem (Reader.tableSizes words) r).map fun a => (words, a)
  len v := 4 * (n + 1) + sps.len v.2
  Tr v cs evs := ∃ e, sps.Tr v.2 (dropC (4 * (n + 1)) cs) e ∧ evs = start ++ offsets v.1 ++ e

end Spec

theorem Lawful.struct {rs : List (Reader ε)} {sps : FieldsSpec ε α} (size : UInt32)
    (sizes : List UInt32) (hs : LawfulFields rs sps) :
    Lawful (Reader.struct size sizes rs) (Spec.struct size sizes sps) := by
  intro size' cs hcs
  change Agrees (runWith (Reader.parseStruct size sizes rs size') (Reader.initFields rs) cs) _ _ _ _
  simp only [Spec.struct]
  split_ifs with hsize
  · cases cs with
    | nil => exact absurd rfl hcs
    | cons c cs =>
      rw [runWith_cons]
      simp [resume, Reader.parseStruct, hsize, Agrees]
  · have hmap := runWith_map (p := Reader.parseStruct size sizes rs size')
      (q := Reader.parseFields rs sizes) (g := fun s => s)
      (fun t c cs run => by simp [Reader.parseStruct, hsize, Out.mapState, resume])
    rw [hmap]
    exact hs _ cs hcs

/-- The body of a table runs like its fields. -/
theorem Reader.runWith_table_body (offsets : List UInt32 → List ε) (rs : List (Reader ε))
    (size : UInt32) (words : List UInt32) (f : Reader.FieldsState rs) (cs : List Chunk) :
    runWith (Reader.parseTable offsets rs size) (.body words f) cs =
      runWith (Reader.parseFields rs (Reader.tableSizes words)) f cs :=
  runWith_map (g := Reader.TableState.body words) (fun _ _ _ _ => rfl) f cs

theorem Lawful.table {rs : List (Reader ε)} {sps : FieldsSpec ε α}
    (offsets : List UInt32 → List ε) (hs : LawfulFields rs sps) :
    Lawful (Reader.table offsets rs)
      (Spec.table rs.length (Reader.startFields rs) offsets sps) := by
  intro size cs hcs
  -- the induction is on the number of header words still to be read
  suffices key : ∀ (k : ℕ) (words : List UInt32) (cs : List Chunk), cs ≠ [] →
      words.length + k = rs.length + 1 →
      Agrees (runWith (Reader.parseTable offsets rs size) (.header words []) cs)
        ((Spec.readHeader size k words (joined cs)).bind fun words r =>
          (sps.sem (Reader.tableSizes words) r).map fun a => (words, a))
        (fun v => 4 * k + sps.len v.2)
        (fun v ds evs => ∃ e, sps.Tr v.2 (dropC (4 * k) ds) e ∧
          evs = Reader.startFields rs ++ offsets v.1 ++ e) cs from
    key (rs.length + 1) [] cs hcs (by simp)
  intro k
  induction k with
  | zero =>
    intro words cs hcs hlen
    have hbody : runWith (Reader.parseTable offsets rs size) (.header words []) cs =
        (runWith (Reader.parseFields rs (Reader.tableSizes words)) (Reader.initFields rs)
          cs).after (Reader.startFields rs ++ offsets words) := by
      cases cs with
      | nil => exact absurd rfl hcs
      | cons c cs =>
        rw [← Reader.runWith_table_body offsets rs size words, runWith_cons, runWith_cons,
          ← resume_after]
        simp only [Reader.parseTable, show rs.length + 1 - words.length = 0 by omega,
          Reader.parseHeader]
    rw [hbody]
    simp only [Spec.readHeader, Res.bind_done]
    refine ((hs (Reader.tableSizes words) cs hcs).map (fun a => (words, a))
      (l := fun v => 4 * 0 + sps.len v.2)
      (T := fun v ds e => v.1 = words ∧ sps.Tr v.2 ds e) (by simp)
      (fun _ _ _ h => ⟨rfl, h⟩)).after _ ?_
    rintro a ds e ⟨hw, he⟩
    exact ⟨e, by rwa [Nat.mul_zero, dropC_zero], by rw [hw]⟩
  | succ k ih =>
    intro words cs hcs hlen
    have hrun := runWith_fill (p := Reader.parseTable offsets rs size)
      (f := Reader.TableState.header words) (n := 4)
      (K := fun bs ds =>
        if words = [] ∧ !sizeOk size (molUnpackNumber bs) then .fail []
        else runWith (Reader.parseTable offsets rs size)
          (.header (words ++ [molUnpackNumber bs]) []) ds)
      (fun buf c cs => by
        rw [runWith_cons]
        simp only [Reader.parseTable, show rs.length + 1 - words.length = k + 1 by omega,
          Reader.parseHeader]
        cases fill 4 buf c with
        | more buf => simp [resume]
        | full bs rest =>
          by_cases hbad : words = [] ∧ (!sizeOk size (molUnpackNumber bs)) = true
          · simp only [if_pos hbad]
            rfl
          · simp only [if_neg hbad]
            rw [runWith_cons]
            simp only [Reader.parseTable, List.length_append, List.length_singleton,
              show rs.length + 1 - (words.length + 1) = k by omega])
      [] cs (Nat.zero_le _) (.inl hcs)
    rw [hrun]
    simp only [List.length_nil, Nat.zero_add, Nat.sub_zero, List.nil_append]
    have hnum := Agrees.num (c := cs) (ε := ε)
      (K := fun w ds => if words = [] ∧ !sizeOk size w then .fail []
        else runWith (Reader.parseTable offsets rs size) (.header (words ++ [w]) []) ds)
      (k := fun w r => if words = [] ∧ !sizeOk size w then .fail
        else (Spec.readHeader size k (words ++ [w]) r).bind fun words r =>
          (sps.sem (Reader.tableSizes words) r).map fun a => (words, a))
      (l := fun v => 4 * k + sps.len v.2)
      (T := fun _ v ds evs => ∃ e, sps.Tr v.2 (dropC (4 * k) ds) e ∧
        evs = Reader.startFields rs ++ offsets v.1 ++ e)
      (fun w hle => by
        split_ifs with hbad
        · trivial
        · have := ih (words ++ [w]) (dropC 4 cs) (dropC_ne_nil hle hcs)
            (by simp only [List.length_append, List.length_singleton]; omega)
          rwa [joined_dropC] at this)
    refine (hnum.map (fun v => v.2) (l := fun v => 4 * (k + 1) + sps.len v.2)
      (T := fun v ds evs => ∃ e, sps.Tr v.2 (dropC (4 * (k + 1)) ds) e ∧
        evs = Reader.startFields rs ++ offsets v.1 ++ e)
      (fun v => by omega)
      (fun v ds evs htr => by
        obtain ⟨e, he, hevs⟩ := htr
        rw [dropC_dropC, show 4 + 4 * k = 4 * (k + 1) by omega] at he
        exact ⟨e, he, hevs⟩)).congr ?_
    simp only [Spec.readHeader]
    cases readNum (joined cs) with
    | more => rfl
    | fail => rfl
    | done w r =>
      simp only [Res.bind_done, Res.map]
      split_ifs with hbad
      · rfl
      · cases Spec.readHeader size k (words ++ [w]) r with
        | more => rfl
        | fail => rfl
        | done ws r' =>
          simp only [Res.bind_done]
          cases sps.sem (Reader.tableSizes ws) r' <;> rfl

end LedgerNervos
