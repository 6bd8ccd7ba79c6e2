import LedgerNervos.Molecule.Reader

/-!
# Running a reader over a sequence of chunks

`runWith p s cs` calls the parse function `p` on the chunks of `cs` in turn, each call with the
state that the last one left, until the value is complete or refused.  Its result keeps the
events of all calls and the chunks that are left over.

A reader is compared with a plain function on byte strings (`Res`): `Agrees x y len Tr cs` says
that the run `x` over `cs` and the reading `y` of the joined bytes come to the same end, that a
completed run has consumed `len a` bytes for the value `a`, and that its events are among those
that `Tr` allows.  The lemmas `runWith_fill`, `runWith_seq` and `Agrees.bind` are the rules by
which the combinators are proved to agree with what they read.
-/

namespace LedgerNervos

variable {ε σ τ α β : Type}

/-- Result of running a reader over a sequence of chunks. -/
inductive RunRes (ε : Type) where
  | done (evs : List ε) (rest : List Chunk)
  | more (evs : List ε)
  | fail (evs : List ε)

namespace RunRes

/-- Put events before those of a run. -/
def after (es : List ε) : RunRes ε → RunRes ε
  | done evs rest => done (es ++ evs) rest
  | more evs => more (es ++ evs)
  | fail evs => fail (es ++ evs)

/-- Continue a completed run on what it has left over. -/
def bind (x : RunRes ε) (K : List Chunk → RunRes ε) : RunRes ε :=
  match x with
  | done evs rest => (K rest).after evs
  | more evs => more evs
  | fail evs => fail evs

@[simp] theorem after_nil (x : RunRes ε) : x.after [] = x := by cases x <;> rfl

@[simp] theorem after_after (es es' : List ε) (x : RunRes ε) :
    (x.after es').after es = x.after (es ++ es') := by cases x <;> simp [after]

@[simp] theorem after_bind (es : List ε) (x : RunRes ε) (K : List Chunk → RunRes ε) :
    (x.after es).bind K = (x.bind K).after es := by
  cases x with
  | done evs rest => simp only [after, bind]; cases K rest <;> simp
  | more _ => rfl
  | fail _ => rfl

end RunRes

/-- Go on after a call that left `o`, the chunks `cs` still to come. -/
def resume (run : σ → List Chunk → RunRes ε) (o : Out σ ε) (cs : List Chunk) : RunRes ε :=
  match o.rv with
  | .complete => .done o.evs (o.rest :: cs)
  | .reject => .fail o.evs
  | .incomplete => (run o.st cs).after o.evs

/-- Call a parse function on one chunk after the other. -/
def runWith (p : σ → Chunk → Out σ ε) (s : σ) : List Chunk → RunRes ε
  | [] => .more []
  | c :: cs =>
    match (p s c).rv with
    | .complete => .done (p s c).evs ((p s c).rest :: cs)
    | .reject => .fail (p s c).evs
    | .incomplete => (runWith p (p s c).st cs).after (p s c).evs

/-- Run a reader from its initial state. -/
def Reader.run (r : Reader ε) (size : UInt32) (cs : List Chunk) : RunRes ε :=
  runWith (r.parse size) r.init cs

@[simp] theorem runWith_nil (p : σ → Chunk → Out σ ε) (s : σ) : runWith p s [] = .more [] := rfl

theorem runWith_cons (p : σ → Chunk → Out σ ε) (s : σ) (c : Chunk) (cs : List Chunk) :
    runWith p s (c :: cs) = resume (runWith p) (p s c) cs := by
  rfl

@[simp] theorem resume_after (run : σ → List Chunk → RunRes ε) (es : List ε) (o : Out σ ε)
    (cs : List Chunk) : resume run (o.after es) cs = (resume run o cs).after es := by
  simp only [resume, Out.after]
  cases o.rv with
  | complete => rfl
  | reject => rfl
  | incomplete => rw [RunRes.after_after]

/-! ### The two rules of sequencing -/

/-- **Collecting a number.**  A phase that fills a buffer of `n` bytes and then continues with
`K` takes exactly the next bytes of the input, however they are cut. -/
theorem runWith_fill {p : σ → Chunk → Out σ ε} {f : List UInt8 → σ} {n : ℕ}
    {K : List UInt8 → List Chunk → RunRes ε}
    (hp : ∀ buf c cs, runWith p (f buf) (c :: cs) = match fill n buf c with
      | .more buf => runWith p (f buf) cs
      | .full bs rest => K bs (rest :: cs))
    (buf : List UInt8) (cs : List Chunk) (hbuf : buf.length ≤ n)
    (hcs : cs ≠ [] ∨ buf.length < n) :
    runWith p (f buf) cs =
      if buf.length + (joined cs).length < n then .more []
      else K (buf ++ (joined cs).take (n - buf.length)) (dropC (n - buf.length) cs) := by
  induction cs generalizing buf with
  | nil =>
    have : buf.length < n := hcs.resolve_left (fun h => h rfl)
    simp [this]
  | cons c cs ih =>
    rw [hp]
    unfold fill
    by_cases h : c.length < n - buf.length
    · simp only [if_pos h]
      have hlt : (buf ++ c.bytes).length < n := by
        simp only [List.length_append, Chunk.length] at h ⊢; omega
      rw [ih (buf ++ c.bytes) (Nat.le_of_lt hlt) (.inr hlt)]
      have htake : (c.bytes ++ joined cs).take (n - buf.length) =
          c.bytes ++ (joined cs).take (n - (buf ++ c.bytes).length) := by
        rw [List.take_append, List.take_of_length_le (Nat.le_of_lt h), List.length_append,
          Nat.sub_sub]
      rw [joined_cons, htake, dropC_of_lt h, List.length_append, List.length_append,
        List.append_assoc, Nat.add_assoc, Nat.sub_sub]
      rfl
    · have hle : n - buf.length ≤ c.length := Nat.not_lt.1 h
      simp only [if_neg h]
      rw [if_neg, dropC_of_le hle, joined_cons, List.take_append_of_le_length hle]
      simp only [joined_cons, List.length_append, Chunk.length] at hle ⊢
      omega

/-- **One part after the other.**  A phase that delegates to `q` and then continues with `K` runs
`q` first and `K` on what `q` has left over. -/
theorem runWith_seq {p : σ → Chunk → Out σ ε} {q : τ → Chunk → Out τ ε} {f : τ → σ}
    {K : List Chunk → RunRes ε}
    (hp : ∀ t c cs, runWith p (f t) (c :: cs) = match (q t c).rv with
      | .complete => (K ((q t c).rest :: cs)).after (q t c).evs
      | .reject => .fail (q t c).evs
      | .incomplete => (runWith p (f (q t c).st) cs).after (q t c).evs)
    (t : τ) (cs : List Chunk) :
    runWith p (f t) cs = (runWith q t cs).bind K := by
  induction cs generalizing t with
  | nil => rfl
  | cons c cs ih =>
    rw [hp, runWith_cons, resume]
    cases (q t c).rv with
    | complete => rfl
    | reject => rfl
    | incomplete => simp only [RunRes.after_bind, ih]

/-- A phase that only renames the state of another one runs like it. -/
theorem runWith_map {p : σ → Chunk → Out σ ε} {q : τ → Chunk → Out τ ε} {g : τ → σ}
    (hp : ∀ t c cs run, resume run (p (g t) c) cs = resume run ((q t c).mapState g) cs)
    (t : τ) (cs : List Chunk) : runWith p (g t) cs = runWith q t cs := by
  induction cs generalizing t with
  | nil => rfl
  | cons c cs ih =>
    rw [runWith_cons, runWith_cons, hp]
    simp only [resume, Out.mapState]
    cases (q t c).rv with
    | complete => rfl
    | reject => rfl
    | incomplete => simp only [ih]

/-! ### Reading a byte string at once -/

/-- Result of reading a byte string from its start. -/
inductive Res (α : Type) where
  | done (a : α) (rest : List UInt8)
  | more
  | fail
deriving DecidableEq

namespace Res

/-- Continue with what has not been read yet. -/
def bind (x : Res α) (k : α → List UInt8 → Res β) : Res β :=
  match x with
  | done a rest => k a rest
  | more => more
  | fail => fail

/-- Change the value. -/
def map (f : α → β) (x : Res α) : Res β := x.bind fun a rest => done (f a) rest

@[simp] theorem bind_done (a : α) (rest : List UInt8) (k : α → List UInt8 → Res β) :
    (done a rest).bind k = k a rest := rfl

theorem bind_eq_done_iff {x : Res α} {k : α → List UInt8 → Res β} {b : β} {rest : List UInt8} :
    x.bind k = done b rest ↔ ∃ a r, x = done a r ∧ k a r = done b rest := by
  cases x <;> simp [bind]

theorem map_eq_done_iff {x : Res α} {f : α → β} {b : β} {rest : List UInt8} :
    x.map f = done b rest ↔ ∃ a, x = done a rest ∧ f a = b := by
  cases x <;> simp [map, bind, and_comm]

end Res

/-- Read `n` bytes. -/
def readN (n : ℕ) (bs : List UInt8) : Res (List UInt8) :=
  if bs.length < n then .more else .done (bs.take n) (bs.drop n)

/-- Read a 32-bit number. -/
def readNum (bs : List UInt8) : Res UInt32 := (readN 4 bs).map molUnpackNumber

/-- The run `x` over the chunks `cs` and the reading `y` of their bytes come to the same end.
`len` is the number of bytes a value takes, `Tr` relates a value and the chunks it was read from
to the events. -/
def Agrees (x : RunRes ε) (y : Res α) (len : α → ℕ) (Tr : α → List Chunk → List ε → Prop)
    (cs : List Chunk) : Prop :=
  match x, y with
  | .done evs rest, .done a bs =>
    len a ≤ (joined cs).length ∧ rest = dropC (len a) cs ∧ bs = (joined cs).drop (len a) ∧
      Tr a (takeC (len a) cs) evs
  | .more _, .more => True
  | .fail _, .fail => True
  | _, _ => False

theorem Agrees.mono {x : RunRes ε} {y : Res α} {len : α → ℕ}
    {Tr Tr' : α → List Chunk → List ε → Prop} {cs : List Chunk} (h : Agrees x y len Tr cs)
    (hTr : ∀ a ds evs, Tr a ds evs → Tr' a ds evs) : Agrees x y len Tr' cs := by
  cases x <;> cases y <;> simp only [Agrees] at h ⊢
  exact ⟨h.1, h.2.1, h.2.2.1, hTr _ _ _ h.2.2.2⟩

/-- Another way of writing the reading. -/
theorem Agrees.congr {x : RunRes ε} {y y' : Res α} {len : α → ℕ}
    {Tr : α → List Chunk → List ε → Prop} {cs : List Chunk} (h : Agrees x y len Tr cs)
    (hy : y = y') : Agrees x y' len Tr cs := hy ▸ h

/-- What is left over follows the bytes of the value. -/
theorem Agrees.rest {x : RunRes ε} {y : Res α} {len : α → ℕ}
    {Tr : α → List Chunk → List ε → Prop} {cs : List Chunk} (h : Agrees x y len Tr cs) {a : α}
    {rest : List UInt8} (hy : y = .done a rest) :
    len a ≤ (joined cs).length ∧ rest = (joined cs).drop (len a) := by
  subst hy
  cases x with
  | done evs rest' => exact ⟨h.1, h.2.2.1⟩
  | more evs => exact h.elim
  | fail evs => exact h.elim

/-- Change the value that is read. -/
theorem Agrees.map {x : RunRes ε} {y : Res α} {len : α → ℕ} {l : β → ℕ}
    {Tr : α → List Chunk → List ε → Prop} {T : β → List Chunk → List ε → Prop}
    {cs : List Chunk} (f : α → β) (h : Agrees x y len Tr cs) (hlen : ∀ a, l (f a) = len a)
    (hTr : ∀ a ds evs, Tr a ds evs → T (f a) ds evs) : Agrees x (y.map f) l T cs := by
  cases x <;> cases y <;> simp only [Agrees, Res.map, Res.bind] at h ⊢
  rw [hlen]
  exact ⟨h.1, h.2.1, h.2.2.1, hTr _ _ _ h.2.2.2⟩

/-- Another way of writing the number of bytes, and the events. -/
theorem Agrees.fixLen {x : RunRes ε} {y : Res α} {len len' : α → ℕ}
    {Tr Tr' : α → List Chunk → List ε → Prop} {cs : List Chunk} (h : Agrees x y len Tr cs)
    (hlen : ∀ a ds evs, Tr a ds evs → len' a = len a)
    (hTr : ∀ a ds evs, Tr a ds evs → Tr' a ds evs) : Agrees x y len' Tr' cs := by
  cases x <;> cases y <;> simp only [Agrees] at h ⊢
  obtain ⟨hle, hrest, hbs, htr⟩ := h
  rw [hlen _ _ _ htr]
  exact ⟨hle, hrest, hbs, hTr _ _ _ htr⟩

/-- Events put before a run go before those of its value. -/
theorem Agrees.after {x : RunRes ε} {y : Res α} {len : α → ℕ}
    {Tr Tr' : α → List Chunk → List ε → Prop} {cs : List Chunk} (es : List ε)
    (h : Agrees x y len Tr cs) (hTr : ∀ a ds evs, Tr a ds evs → Tr' a ds (es ++ evs)) :
    Agrees (x.after es) y len Tr' cs := by
  cases x <;> cases y <;> simp only [Agrees, RunRes.after] at h ⊢
  exact ⟨h.1, h.2.1, h.2.2.1, hTr _ _ _ h.2.2.2⟩

/-- Events of a sequence of two parts, the first of which takes `len a` bytes. -/
def SeqTr (len : α → ℕ) (Tr₁ : α → List Chunk → List ε → Prop)
    (Tr₂ : α → β → List Chunk → List ε → Prop) (a : α) (b : β) (cs : List Chunk)
    (evs : List ε) : Prop :=
  ∃ e₁ e₂, Tr₁ a (takeC (len a) cs) e₁ ∧ Tr₂ a b (dropC (len a) cs) e₂ ∧ evs = e₁ ++ e₂

/-- **Sequencing.**  If the first parts agree, and the continuations agree on what the first parts
leave over, then the sequences agree. -/
theorem Agrees.bind {x : RunRes ε} {y : Res α} {len₁ : α → ℕ}
    {Tr₁ : α → List Chunk → List ε → Prop} {cs : List Chunk} {K : List Chunk → RunRes ε}
    {k : α → List UInt8 → Res β} {len₂ : β → ℕ} {T : α → β → List Chunk → List ε → Prop}
    (h : Agrees x y len₁ Tr₁ cs)
    (hk : ∀ a, len₁ a ≤ (joined cs).length →
      Agrees (K (dropC (len₁ a) cs)) (k a ((joined cs).drop (len₁ a))) len₂ (T a)
        (dropC (len₁ a) cs)) :
    Agrees (x.bind K) (y.bind fun a bs => (k a bs).map fun b => (a, b))
      (fun v => len₁ v.1 + len₂ v.2) (fun v => SeqTr len₁ Tr₁ T v.1 v.2) cs := by
  cases x with
  | more _ => cases y <;> simp_all [Agrees, RunRes.bind, Res.bind]
  | fail _ => cases y <;> simp_all [Agrees, RunRes.bind, Res.bind]
  | done e₁ rest =>
    cases y with
    | more => simp [Agrees] at h
    | fail => simp [Agrees] at h
    | done a bs =>
      obtain ⟨hle, rfl, rfl, htr⟩ := h
      have hk' := hk a hle
      simp only [RunRes.bind, Res.bind]
      cases hx : K (dropC (len₁ a) cs) <;> cases hy : k a ((joined cs).drop (len₁ a)) <;>
        rw [hx, hy] at hk' <;> simp only [Agrees] at hk'
      case done.done e₂ rest₂ b bs₂ =>
        obtain ⟨hle₂, rfl, rfl, htr₂⟩ := hk'
        simp only [joined_dropC, List.length_drop] at hle₂
        refine ⟨by simp only; omega, dropC_dropC _ _ _, by simp [List.drop_drop], e₁, e₂, ?_, ?_,
          rfl⟩
        · rw [takeC_takeC]; exact htr
        · rw [dropC_takeC]; exact htr₂
      case more.more => trivial
      case fail.fail => trivial

/-- A collected number agrees with the number at the start of the bytes. -/
theorem Agrees.num {c : List Chunk} {K : UInt32 → List Chunk → RunRes ε}
    {k : UInt32 → List UInt8 → Res β} {l : β → ℕ} {T : UInt32 → β → List Chunk → List ε → Prop}
    (hk : ∀ w, 4 ≤ (joined c).length →
      Agrees (K w (dropC 4 c)) (k w ((joined c).drop 4)) l (T w) (dropC 4 c)) :
    Agrees
      (if (joined c).length < 4 then RunRes.more []
        else K (molUnpackNumber ((joined c).take 4)) (dropC 4 c))
      ((readNum (joined c)).bind fun w bs => (k w bs).map fun b => (w, b))
      (fun v => 4 + l v.2) (fun v ds evs => T v.1 v.2 (dropC 4 ds) evs) c := by
  unfold readNum readN
  split_ifs with h
  · simp [Agrees, Res.map, Res.bind]
  · have hk' := hk (molUnpackNumber ((joined c).take 4)) (by omega)
    simp only [Res.map, Res.bind]
    cases hx : K (molUnpackNumber ((joined c).take 4)) (dropC 4 c) <;>
      cases hy : k (molUnpackNumber ((joined c).take 4)) ((joined c).drop 4) <;>
      rw [hx, hy] at hk' <;> simp only [Agrees] at hk'
    case done.done e₂ rest₂ b bs₂ =>
      obtain ⟨hle₂, rfl, rfl, htr₂⟩ := hk'
      simp only [joined_dropC, List.length_drop] at hle₂
      refine ⟨by simp only; omega, dropC_dropC _ _ _, by simp [List.drop_drop], ?_⟩
      change T _ _ (dropC 4 (takeC (4 + l b) c)) e₂
      rw [dropC_takeC]; exact htr₂
    case more.more => trivial
    case fail.fail => trivial

end LedgerNervos
