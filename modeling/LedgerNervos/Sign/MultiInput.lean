import LedgerNervos.Lists.Changes
import LedgerNervos.Sign.Classification
import LedgerNervos.Sign.Exact

/-!
# Transfers with several sources

The prompt for a transfer with several sources says which of them the signer is, how many there
are, and what comes from the signer.  The sources are not kept: each cell that an input refers to
is compared with the one before.  `inputs_shown_iff` says for which lists of cells the prompt is
right nonetheless.
-/

namespace LedgerNervos

variable {env : Env} {P : NvramData → Prop} {g g' : SignState}

/-! ### The sources of the inputs -/

/-- The 20 bytes that are compared, and the args, of each cell that an input refers to. -/
def sources (ls : List (LockArg × AnnotatedCellInputVal)) : List (StandardLockArg × List UInt8) :=
  ls.filterMap fun l => l.2.cell.map fun o => (LockArg.hash l.1, o.lock.args)

/-- The args of the lock scripts of the cells that the inputs refer to. -/
def AnnotatedTransactionVal.inputLockArgs (v : AnnotatedTransactionVal) : List (List UInt8) :=
  (v.inputs.getD []).filterMap fun a => a.cell.map fun o => o.lock.args

/-- The cell that the input refers to has the args `own`. -/
def AnnotatedCellInputVal.isLockedBy (own : StandardLockArg) (a : AnnotatedCellInputVal) : Bool :=
  a.cell.any fun o => o.lock.args = own.1

theorem sources_cons (l : LockArg × AnnotatedCellInputVal)
    (ls : List (LockArg × AnnotatedCellInputVal)) : sources (l :: ls) =
      (l.2.cell.map fun o => (LockArg.hash l.1, o.lock.args)).toList ++ sources ls := by
  unfold sources
  rw [List.filterMap_cons]
  cases l.2.cell <;> rfl

theorem map_sources {v : AnnotatedTransactionVal} {ls : List (LockArg × AnnotatedCellInputVal)}
    (h : ls.map Prod.snd = v.inputs.getD []) : (sources ls).map Prod.snd = v.inputLockArgs := by
  rw [AnnotatedTransactionVal.inputLockArgs, ← h, List.filterMap_map, sources, List.map_filterMap]
  congr 1
  funext l
  cases hcell : l.2.cell <;> simp [hcell]

theorem inputKeys_cons (l : LockArg × AnnotatedCellInputVal)
    (ls : List (LockArg × AnnotatedCellInputVal)) :
    inputKeys (l :: ls) = (l.2.cell.map fun _ => LockArg.hash l.1).toList ++ inputKeys ls := by
  unfold inputKeys
  rw [List.flatMap_cons]
  cases l.2.cell <;> rfl

theorem map_fst_sources (ls : List (LockArg × AnnotatedCellInputVal)) :
    (sources ls).map Prod.fst = inputKeys ls := by
  induction ls with
  | nil => rfl
  | cons l ls ih =>
    rw [sources_cons, inputKeys_cons, List.map_append, ih]
    cases l.2.cell <;> rfl

/-- The sources are the 20 bytes that are compared, each with the args that they are found in. -/
theorem sources_eq_zip {v : AnnotatedTransactionVal} {ls : List (LockArg × AnnotatedCellInputVal)}
    (h : ls.map Prod.snd = v.inputs.getD []) :
    sources ls = (inputKeys ls).zip v.inputLockArgs :=
  List.zip_of_prod (map_fst_sources ls) (map_sources h)

theorem length_sources_le (ls : List (LockArg × AnnotatedCellInputVal)) :
    (sources ls).length ≤ ls.length := List.length_filterMap_le ..

/-- Up to 28 bytes of args are compared by their first 20. -/
theorem eq_keyed {xs : List (StandardLockArg × List UInt8)} {args : List (List UInt8)}
    (hargs : xs.map Prod.snd = args)
    (hlock : ∀ x ∈ xs, x.2.length ≤ 28 → x.1 = LockArg.hash (Bytes.ofList 28 x.2))
    (hshort : ∀ s ∈ args, s.length ≤ 28) :
    xs = args.map fun s => (LockArg.hash (Bytes.ofList 28 s), s) := by
  have hid : xs.map id = xs.map fun x => (LockArg.hash (Bytes.ofList 28 x.2), x.2) :=
    List.map_congr_left fun x hx =>
      Prod.ext (hlock x hx (hshort x.2 (hargs ▸ List.mem_map_of_mem hx))) rfl
  rw [List.map_id] at hid
  rw [← hargs, List.map_map]
  exact hid

/-! ### Counting -/

/-- An input without a cell is not noted. -/
theorem InputNoted.marks_none {l : LockArg × AnnotatedCellInputVal} (h : InputNoted g l g')
    (hcell : l.2.cell = none) : g'.marks.last = g.marks.last ∧
      g'.marks.sources = g.marks.sources ∧ g'.marks.signing = g.marks.signing := by
  rw [h.marks, hcell]
  exact ⟨rfl, rfl, rfl⟩

/-- An input with a cell is noted. -/
theorem InputNoted.marks_some {l : LockArg × AnnotatedCellInputVal} {o : CellOutputVal}
    (h : InputNoted g l g') (hcell : l.2.cell = some o) :
    g'.marks.last = LockArg.hash l.1 ∧
      g'.marks.sources =
        g.marks.sources + UInt32.ofNat (if g.marks.last = LockArg.hash l.1 then 0 else 1) ∧
      g'.marks.signing = if g.marks.last ≠ LockArg.hash l.1 ∧ o.lock.args <+: g.ownWindow
        then g'.marks.sources.toUInt64 else g.marks.signing := by
  have hown : l.2.isOwn g.ownWindow = true ↔ o.lock.args <+: g.ownWindow := by
    rw [AnnotatedCellInputVal.isOwn, hcell, Option.all_some, List.isPrefixOf_iff_prefix]
  rw [h.marks, hcell]
  simp only [Option.isSome_some, if_true, Marks.note, hown]
  refine ⟨trivial, ?_, ?_⟩
  · split_ifs
    · exact (UInt32.add_zero _).symm
    · rfl
  · split_ifs with hlast hsame
    · exact absurd hsame hlast.1
    · rfl
    · rfl

/-- The changes of the lock argument are counted. -/
theorem Runs.sourcesNoted {ls : List (LockArg × AnnotatedCellInputVal)}
    (h : Runs InputNoted g ls g') : g'.marks.last = lastKey g.marks.last (sources ls) ∧
      g'.marks.sources = g.marks.sources + UInt32.ofNat (changes g.marks.last (sources ls)) := by
  induction h with
  | nil => exact ⟨rfl, (UInt32.add_zero _).symm⟩
  | @cons g g₁ g' l ls h₁ _ ih =>
    obtain ⟨hlast, hcount⟩ := ih
    rw [sources_cons]
    cases hcell : l.2.cell with
    | none =>
      obtain ⟨hlast₁, hcount₁, -⟩ := h₁.marks_none hcell
      rw [hlast, hcount, hlast₁, hcount₁]
      exact ⟨rfl, rfl⟩
    | some o =>
      obtain ⟨hlast₁, hcount₁, -⟩ := h₁.marks_some hcell
      rw [hlast, hcount, hlast₁, hcount₁]
      refine ⟨rfl, ?_⟩
      rw [UInt32.add_assoc, ← UInt32.ofNat_add]
      rfl

/-- The signer is only noted once. -/
theorem Runs.signing_kept {ls : List (LockArg × AnnotatedCellInputVal)}
    (h : Runs InputNoted g ls g') (hset : g.marks.signing ≠ 0) :
    g'.marks.signing = g.marks.signing := by
  refine h.invariant (I := fun s => s.marks.signing = g.marks.signing) rfl
    fun s l s' _ hstep hs => ?_
  cases hcell : l.2.cell with
  | none => rw [(hstep.marks_none hcell).2.2, hs]
  | some o =>
    rw [(hstep.marks_some hcell).2.2, if_neg ?_, hs]
    rintro ⟨hlast, hown⟩
    refine hset (hs.symm.trans (hstep.once (by rw [hcell]; rfl) ?_ hlast))
    rw [AnnotatedCellInputVal.isOwn, hcell, Option.all_some]
    exact List.isPrefixOf_iff_prefix.2 hown

theorem toUInt64_ofNat_ne_zero {n : ℕ} (hpos : 0 < n) (hlt : n < 2 ^ 32) :
    (UInt32.ofNat n).toUInt64 ≠ 0 := by
  intro hbad
  have hnat := congrArg UInt64.toNat hbad
  rw [UInt32.toNat_toUInt64, UInt32.toNat_ofNat', Nat.mod_eq_of_lt hlt] at hnat
  exact absurd hnat (Nat.pos_iff_ne_zero.1 hpos)

/-- Where the signer is noted: the change that leads there. -/
theorem Runs.signing_at {ls : List (LockArg × AnnotatedCellInputVal)} (h : Runs InputNoted g ls g')
    (hstart : g.marks.sources = 0) (hlength : ls.length < 2 ^ 32)
    {before behind : List (StandardLockArg × List UInt8)} {x : StandardLockArg × List UInt8}
    (hsources : sources ls = before ++ x :: behind) (hown : x.2 <+: g.ownWindow)
    (hchange : lastKey g.marks.last before ≠ x.1) :
    g'.marks.signing = (UInt32.ofNat (changes g.marks.last (before ++ [x]))).toUInt64 := by
  obtain ⟨ls₁, ls₂, rfl, hbefore, hrest⟩ := List.filterMap_eq_append_iff.1 hsources
  obtain ⟨skipped, l, ls₃, rfl, hskipped, hl, -⟩ := List.filterMap_eq_cons_iff.1 hrest
  obtain ⟨o, hcell, rfl⟩ := Option.map_eq_some_iff.1 hl
  have hbefore : sources (ls₁ ++ skipped) = before := by
    unfold sources
    rw [List.filterMap_append, hbefore, List.filterMap_eq_nil_iff.2 hskipped, List.append_nil]
  rw [← List.append_assoc] at h hlength
  obtain ⟨g₁, h₁, h⟩ := Runs.append_iff.1 h
  obtain ⟨g₂, hstep, hbehind⟩ := Runs.cons_iff.1 h
  obtain ⟨hlast, hcount⟩ := h₁.sourcesNoted
  have hwindow : g₁.ownWindow = g.ownWindow := h₁.frame fun _ _ _ _ hstep => hstep.window
  obtain ⟨-, hcount₂, hsigning⟩ := hstep.marks_some hcell
  rw [hbefore] at hlast hcount
  rw [if_pos ⟨hlast ▸ hchange, hwindow ▸ hown⟩] at hsigning
  have hchanges : changes g.marks.last (before ++ [(LockArg.hash l.1, o.lock.args)]) =
      changes g.marks.last before + 1 := by
    rw [changes_append, changes, if_neg hchange]
    rfl
  have hsources₂ : g₂.marks.sources =
      UInt32.ofNat (changes g.marks.last (before ++ [(LockArg.hash l.1, o.lock.args)])) := by
    rw [hcount₂, hcount, hstart, UInt32.zero_add, if_neg (hlast ▸ hchange), hchanges,
      UInt32.ofNat_add]
  rw [hsources₂] at hsigning
  rw [← hsigning]
  refine hbehind.signing_kept ?_
  rw [hsigning, hchanges]
  refine toUInt64_ofNat_ne_zero (Nat.succ_pos _) ?_
  have hle := changes_le_length g.marks.last before
  have hle' := length_sources_le (ls₁ ++ skipped)
  rw [hbefore] at hle'
  rw [List.length_append, List.length_cons] at hlength
  omega

/-- If the signer is noted, there is a change that leads there. -/
theorem Runs.signing_exists {ls : List (LockArg × AnnotatedCellInputVal)}
    (h : Runs InputNoted g ls g') (hstart : g.marks.signing = 0) (hset : g'.marks.signing ≠ 0) :
    ∃ before x behind, sources ls = before ++ x :: behind ∧ x.2 <+: g.ownWindow ∧
      lastKey g.marks.last before ≠ x.1 := by
  induction h with
  | nil => exact absurd hstart hset
  | @cons g g₁ g' l ls h₁ _ ih =>
    rw [sources_cons]
    cases hcell : l.2.cell with
    | none =>
      obtain ⟨hlast, -, hsigning⟩ := h₁.marks_none hcell
      obtain ⟨before, x, behind, hsources, hown, hchange⟩ := ih (hsigning.trans hstart) hset
      exact ⟨before, x, behind, hsources, h₁.window ▸ hown, hlast ▸ hchange⟩
    | some o =>
      obtain ⟨hlast, -, hsigning⟩ := h₁.marks_some hcell
      by_cases hnoted : g.marks.last ≠ LockArg.hash l.1 ∧ o.lock.args <+: g.ownWindow
      · exact ⟨[], _, sources ls, rfl, hnoted.2, hnoted.1⟩
      · rw [if_neg hnoted] at hsigning
        obtain ⟨before, x, behind, hsources, hown, hchange⟩ := ih (hsigning.trans hstart) hset
        refine ⟨(LockArg.hash l.1, o.lock.args) :: before, x, behind, ?_, h₁.window ▸ hown, ?_⟩
        · rw [hsources]
          rfl
        · rw [lastKey, ← hlast]
          exact hchange

/-! ### What comes from the signer -/

theorem inputExact_cons (p : AnnotatedCellInputVal → Bool) (a : AnnotatedCellInputVal)
    (as : List AnnotatedCellInputVal) :
    inputExact p (a :: as) = (if p a then a.capacity.toNat else 0) + inputExact p as := by
  unfold inputExact
  cases hp : p a with
  | true => rw [List.filter_cons_of_pos hp]; rfl
  | false => rw [List.filter_cons_of_neg (by rw [hp]; exact Bool.false_ne_true)]; simp

theorem AnnotatedCellInputVal.isOwn_of_isLockedBy {own : StandardLockArg} {rest : List UInt8}
    {a : AnnotatedCellInputVal} (h : a.isLockedBy own = true) : a.isOwn (own.1 ++ rest) = true := by
  obtain ⟨o, hcell, hargs⟩ := (Option.any_eq_true _ _).1 h
  rw [isOwn, hcell, Option.all_some, of_decide_eq_true hargs]
  exact List.isPrefixOf_iff_prefix.2 (List.prefix_append _ _)

/-- What is counted for the signer, and what is missing because no data come for it, make up what
comes from the signer and from cells that match the key only in part. -/
theorem inputExact_own (own : StandardLockArg) (rest : List UInt8)
    (as : List AnnotatedCellInputVal) :
    inputExact (fun a => a.isCounted && !a.isDao && a.isOwn (own.1 ++ rest)) as +
        inputExact (fun a => !a.isCounted && !a.isDao && a.isLockedBy own) as =
      inputExact (fun a => !a.isDao && a.isLockedBy own) as +
        inputExact (fun a => a.isCounted && !a.isDao && a.isOwn (own.1 ++ rest) &&
          !a.isLockedBy own) as := by
  induction as with
  | nil => rfl
  | cons a as ih =>
    simp only [inputExact_cons]
    have hown : a.isLockedBy own = true → a.isOwn (own.1 ++ rest) = true := a.isOwn_of_isLockedBy
    cases a.isCounted <;> cases a.isDao <;> cases hlocked : a.isLockedBy own
    all_goals
      simp only [hlocked, hown, Bool.true_and, Bool.false_and, Bool.and_true, Bool.and_false,
        Bool.not_true, Bool.not_false, if_true, Bool.false_eq_true, if_false]
      omega

/-! ### The prompt for several sources -/

/-- The number of `s` among the different items, in the order of their first appearance. -/
def rank (s : List UInt8) (args : List (List UInt8)) : ℕ :=
  (args.takeWhile (· ≠ s)).toFinset.card + 1

/-- The prompt tells the number of different lock args, the number of the signer's among them, and
what comes from cells with it that are no deposits. -/
structure InputShown (own : StandardLockArg) (v : AnnotatedTransactionVal)
    (screens : List Screen) : Prop where
  count : ∃ k n : UInt64, (∀ value, ⟨.text "Input", value⟩ ∈ screens ↔ value = .countOf (k, n)) ∧
    n.toNat = v.inputLockArgs.toFinset.card ∧ own.1 ∈ v.inputLockArgs ∧
      k.toNat = rank own.1 v.inputLockArgs
  amount : ∃ a b : UInt64,
    (∀ value, ⟨.text "Amount", value⟩ ∈ screens ↔ value = .amountOf (a, b)) ∧
      a.toNat = inputExact (fun a => !a.isDao && a.isLockedBy own) (v.inputs.getD [])

/-- When the cells `xs` can be counted by their changes: as many lock args appear again behind a
change as appear for the first time without one, and likewise up to the cell that the signer is
found by; and nothing is missing of what comes from the signer. -/
structure SourcesTold (own : StandardLockArg) (w : List UInt8) (v : AnnotatedTransactionVal)
    (xs : List (StandardLockArg × List UInt8)) : Prop where
  count : repeated (.zero 20) ∅ xs = unnoticed (.zero 20) ∅ xs
  signer : own.1 ∈ v.inputLockArgs
  rank : ∀ before x behind, xs = before ++ x :: behind → x.2 <+: w →
    lastKey (.zero 20) before ≠ x.1 →
      repeated (.zero 20) ∅ (before ++ [x]) + ((before ++ [x]).map Prod.snd).toFinset.card =
        unnoticed (.zero 20) ∅ (before ++ [x]) + LedgerNervos.rank own.1 v.inputLockArgs
  fits : inputExact (fun a => !a.isDao && a.isLockedBy own) (v.inputs.getD []) < 2 ^ 64
  missing : inputExact (fun a => !a.isCounted && !a.isDao && a.isLockedBy own) (v.inputs.getD []) ≡
    inputExact (fun a => a.isCounted && !a.isDao && a.isOwn w && !a.isLockedBy own)
      (v.inputs.getD []) [MOD 2 ^ 64]

theorem Operation.multiInput {w : ParsedTransaction} (h : Operation g w)
    (htag : w.tag = .multiInputTransfer) : g.maybe.v.inputCount.1 ≠ 0 ∧
      w.inputCount = (g.maybe.v.inputCount.1, g.distinctInputSources.toUInt64) ∧
      w.amount = (g.inputAmount.1, g.tx.plainOutputAmount) := by
  cases h with
  | multiInputTransfer stored several single signing tag inputCount amount =>
    exact ⟨signing, inputCount, amount⟩
  | single stored single tag amount =>
    rw [tag] at htag
    split_ifs at htag
  | selfTransfer stored tag amount => exact absurd (htag.symm.trans tag) (by decide)
  | multiOutputTransfer stored single tag amount => exact absurd (htag.symm.trans tag) (by decide)
  | daoDeposit stored tag daoAmount => exact absurd (htag.symm.trans tag) (by decide)
  | daoPrepare stored tag balance daoAmount => exact absurd (htag.symm.trans tag) (by decide)
  | daoWithdraw stored tag daoOutput plainOutput daoAmount =>
    exact absurd (htag.symm.trans tag) (by decide)

/-- The screens for several sources. -/
theorem multiInput_mem {nd : NvramData} {screens : List Screen}
    (htag : g.maybe.v.tag = .multiInputTransfer) (h : g.screens nd = some screens) :
    (∀ value, ⟨.text "Input", value⟩ ∈ screens ↔ value = .countOf g.maybe.v.inputCount) ∧
      ∀ value, ⟨.text "Amount", value⟩ ∈ screens ↔ value = .amountOf g.maybe.v.amount := by
  unfold SignState.screens at h
  dsimp only at h
  rw [htag] at h
  obtain rfl := Option.some.inj h
  simp

theorem InputCalls.length_lt {v : AnnotatedTransactionVal} {es : List Callback}
    (h : InputCalls v es) : (v.inputs.getD []).length < 2 ^ 32 := by
  have hevents := h.events
  generalize v.inputs = inputs at hevents
  cases hevents with
  | empty => decide
  | items hlen _ => exact hlen

section Session

variable {v : AnnotatedTransactionVal} {t : Transcript env P v} {instruction : UInt8}
  {ps : List Packet} {prompt : Prompt}

/-- The keys are those that were found before the inputs. -/
theorem Accepted.signer (h : Accepted env P instruction ps prompt g v t) :
    g.currentLockArg = t.opened.currentLockArg ∧ g.ownWindow = t.ownWindow := by
  have hspent := (t.books_spent h.hardReject h.isUnsafe).frame
    (f := fun b : Books => (b.own, b.change)) fun _ _ _ _ hstep => by rw [hstep.books]
  have hpaid := t.paid_frame (f := fun b : Books => (b.own, b.change)) h.hardReject h.isUnsafe
    (fun _ _ _ hstep => by rw [hstep.books]) fun _ _ _ _ _ _ _ => rfl
  have hstored := (t.books_stored h.hardReject h.isUnsafe).frame
    (f := fun b : Books => (b.own, b.change)) fun _ _ _ _ hstep => by rw [hstep.books]
  have hlast : (g.books.own, g.books.change) = (t.stored.books.own, t.stored.books.change) := by
    rw [h.finalized.books]
  have hsame := hlast.trans (hstored.trans (hpaid.trans hspent))
  have hown : g.currentLockArg = t.opened.currentLockArg := congrArg Prod.fst hsame
  have hchange : g.changeLockArg = t.opened.changeLockArg := congrArg Prod.snd hsame
  exact ⟨hown, by rw [SignState.ownWindow, hown, hchange]; rfl⟩

/-- The cells that the inputs refer to: the 20 bytes that are compared, each with the args. -/
def Transcript.sources (t : Transcript env P v) : List (StandardLockArg × List UInt8) :=
  t.comparedKeys.zip v.inputLockArgs

/-- Each cell is compared once, and up to 28 bytes of args are compared by their first 20. -/
theorem Accepted.compared (h : Accepted env P instruction ps prompt g v t) :
    t.comparedKeys.length = v.inputLockArgs.length ∧
      ∀ x ∈ t.sources, x.2.length ≤ 28 → x.1 = LockArg.hash (Bytes.ofList 28 x.2) := by
  obtain ⟨ls, g₁, hls, hruns, -, -, hkeys⟩ := t.noted h.hardReject h.isUnsafe
  constructor
  · rw [hkeys, ← map_fst_sources, ← map_sources hls, List.length_map, List.length_map]
  · intro x hx hlen
    rw [Transcript.sources, hkeys, ← sources_eq_zip hls] at hx
    obtain ⟨l, hl, hx⟩ := List.mem_filterMap.1 hx
    obtain ⟨o, hcell, rfl⟩ := Option.map_eq_some_iff.1 hx
    have hlockArg := hruns.forall_mem (p := fun l => ∀ o ∈ l.2.cell, o.lock.args.length ≤ 28 →
      l.1 = Bytes.ofList 28 o.lock.args) (fun _ _ _ hstep => hstep.lockArg) l hl o hcell hlen
    exact congrArg LockArg.hash hlockArg

/-- What the prompt for several sources tells of them. -/
structure SourcesCounted (t : Transcript env P v) (xs : List (StandardLockArg × List UInt8))
    (k n : UInt64) : Prop where
  sources : n.toNat = changes (.zero 20) xs
  signer : ∃ before x behind, xs = before ++ x :: behind ∧ x.2 <+: t.ownWindow ∧
    lastKey (.zero 20) before ≠ x.1
  signing : ∀ before x behind, xs = before ++ x :: behind → x.2 <+: t.ownWindow →
    lastKey (.zero 20) before ≠ x.1 → k.toNat = changes (.zero 20) (before ++ [x])

/-- The prompt for several sources tells of their changes. -/
theorem Accepted.sourcesCounted (h : Accepted env P instruction ps prompt g v t)
    (htag : g.maybe.v.tag = .multiInputTransfer) :
    SourcesCounted t t.sources g.maybe.v.inputCount.1 g.maybe.v.inputCount.2 := by
  obtain ⟨ls, g₁, hls, hruns, hstored, -, hkeys⟩ := t.noted h.hardReject h.isUnsafe
  obtain ⟨hset, hcount, -⟩ := h.finalized.operation.multiInput htag
  have hlength : ls.length < 2 ^ 32 := by
    have hlt := t.inputs.1.length_lt
    rwa [← hls, List.length_map] at hlt
  have hlt {xs : List (StandardLockArg × List UInt8)} (hxs : xs.length ≤ (sources ls).length) :
      (UInt32.ofNat (changes (.zero 20) xs)).toUInt64.toNat = changes (.zero 20) xs := by
    have hle := changes_le_length (Bytes.zero 20) xs
    have hle' := length_sources_le ls
    rw [UInt32.toNat_toUInt64, UInt32.toNat_ofNat']
    exact Nat.mod_eq_of_lt (by omega)
  have hsources : t.stored.distinctInputSources =
      UInt32.ofNat (changes (.zero 20) (sources ls)) := by
    have hmarks := congrArg Marks.sources hstored
    rw [show t.stored.distinctInputSources = t.stored.marks.sources from rfl, hmarks]
    exact hruns.sourcesNoted.2.trans (UInt32.zero_add _)
  have hsigning : t.stored.maybe.v.inputCount.1 = g₁.marks.signing :=
    congrArg Marks.signing hstored
  rw [Transcript.sources, hkeys, ← sources_eq_zip hls]
  refine ⟨?_, ?_, ?_⟩
  · rw [hcount, hsources]
    exact hlt (Nat.le_refl _)
  · rw [hsigning] at hset
    exact hruns.signing_exists rfl hset
  · intro before x behind hxs hown hchange
    rw [hcount, hsigning, hruns.signing_at rfl hlength hxs hown hchange]
    refine hlt ?_
    rw [hxs]
    simp only [List.length_append, List.length_cons, List.length_nil]
    omega

/-- The prompt for several sources tells what is counted for the signer. -/
theorem Accepted.amount_counted (h : Accepted env P instruction ps prompt g v t)
    (htag : g.maybe.v.tag = .multiInputTransfer) : g.maybe.v.amount.1.toNat =
      inputExact (fun a => a.isCounted && !a.isDao && a.isOwn t.ownWindow) (v.inputs.getD []) %
        2 ^ 64 := by
  obtain ⟨-, -, hamount⟩ := h.finalized.operation.multiInput htag
  have hown : t.stored.inputAmount.1 = g.books.ownInput :=
    (congrArg Books.ownInput h.finalized.books).symm
  rw [hamount, hown, h.accounts.ownInput]
  exact toNat_sum _

/-- **The prompt for several sources** is right if and only if they can be counted by their
changes. -/
theorem Accepted.inputShown_iff (h : Accepted env P instruction ps prompt g v t)
    (htag : g.maybe.v.tag = .multiInputTransfer) :
    InputShown g.currentLockArg v prompt.screens ↔
      SourcesTold g.currentLockArg g.ownWindow v t.sources := by
  obtain ⟨hown, hwindow⟩ := h.signer
  obtain ⟨nd, -, hprompt⟩ := h.complete
  obtain ⟨hinput, hamount⟩ := multiInput_mem htag (SignState.signComplete_screens hprompt)
  have hcounted := h.sourcesCounted htag
  have hargs : t.sources.map Prod.snd = v.inputLockArgs :=
    List.map_snd_zip (Nat.le_of_eq h.compared.1.symm)
  have hcapacity := h.amount_counted htag
  have hsum := inputExact_own t.opened.currentLockArg (t.opened.changeLockArg.1.take 8)
    (v.inputs.getD [])
  rw [← Transcript.ownWindow, ← hown] at hsum
  have hall := changes_add_unnoticed (.zero 20 : StandardLockArg) t.sources
  rw [hargs] at hall
  rw [hwindow]
  refine ⟨?_, ?_⟩
  · rintro ⟨⟨k, n, hshown, hn, hsigner, hk⟩, a, b, hshown', ha⟩
    have hcount := (hinput _).1 ((hshown _).2 rfl)
    have hvalue := (hamount _).1 ((hshown' _).2 rfl)
    injection hcount with hcount
    injection hvalue with hvalue
    have hkey := congrArg Prod.fst hcount
    have hnumber := congrArg Prod.snd hcount
    have hfirst := congrArg Prod.fst hvalue
    dsimp only at hkey hnumber hfirst
    rw [hnumber, hcounted.sources] at hn
    rw [hfirst, hcapacity] at ha
    refine ⟨by omega, hsigner, fun before x behind hxs hown hchange => ?_, by omega, ?_⟩
    · have hupto := changes_add_unnoticed (.zero 20 : StandardLockArg) (before ++ [x])
      rw [hkey, hcounted.signing before x behind hxs hown hchange] at hk
      omega
    · unfold Nat.ModEq
      omega
  · rintro ⟨hcount, hsigner, hrank, hfits, hmissing⟩
    obtain ⟨before, x, behind, hxs, hown, hchange⟩ := hcounted.signer
    have hupto := changes_add_unnoticed (.zero 20 : StandardLockArg) (before ++ [x])
    have hk := hcounted.signing before x behind hxs hown hchange
    have hn := hcounted.sources
    have hrank := hrank before x behind hxs hown hchange
    unfold Nat.ModEq at hmissing
    refine ⟨⟨g.maybe.v.inputCount.1, g.maybe.v.inputCount.2, hinput, ?_, hsigner, ?_⟩,
      g.maybe.v.amount.1, g.maybe.v.amount.2, hamount, ?_⟩
    · omega
    · omega
    · omega

end Session

/-- **The prompt for several sources.**  When a session leads to the prompt for a transfer with
several sources, it tells the number of different lock args, that of the signer's among them, and
what comes from it, if and only if the sources can be counted by their changes: as many lock args
appear again behind a change as appear for the first time without one.  A change is one of the 20
bytes that `input_lock_arg_end` compares; up to 28 bytes of args have their first 20 compared. -/
theorem inputs_shown_iff (env : Env) (instruction : UInt8) (ps : List Packet) (prompt : Prompt)
    (g : SignState) (h : signSession env instruction ps = some (prompt, g))
    (htag : g.maybe.v.tag = .multiInputTransfer) :
    (∃ v, ∃ t : Transcript env (fun _ => True) v,
      Accepted env (fun _ => True) instruction ps prompt g v t) ∧
    ∀ v (t : Transcript env (fun _ => True) v),
      Accepted env (fun _ => True) instruction ps prompt g v t →
        t.comparedKeys.length = v.inputLockArgs.length ∧
        (∀ x ∈ t.sources, x.2.length ≤ 28 → x.1 = LockArg.hash (Bytes.ofList 28 x.2)) ∧
        (InputShown g.currentLockArg v prompt.screens ↔
          SourcesTold g.currentLockArg g.ownWindow v t.sources) := by
  refine ⟨signSession_transcript (fun _ _ => trivial) h, fun v t haccepted => ?_⟩
  obtain ⟨hlength, hlock⟩ := haccepted.compared
  exact ⟨hlength, hlock, haccepted.inputShown_iff htag⟩

theorem inputs_shown_iff_jointPayment :
    ∃ prompt g v, ∃ t : Transcript Env.reference (fun _ => True) v,
      signSession Env.reference 0x03 (cutPackets 5 jointPayment.encode) = some (prompt, g) ∧
        Accepted Env.reference (fun _ => True) 0x03 (cutPackets 5 jointPayment.encode) prompt g
          v t ∧ InputShown g.currentLockArg v prompt.screens := by
  have hsome : (signSession Env.reference 0x03 (cutPackets 5 jointPayment.encode)).any
      (fun r => r.2.maybe.v.tag = .multiInputTransfer ∧
        r.2.currentLockArg.1 = referenceLockArg ∧ r.2.changeLockArg.1 = referenceLockArg) =
        true := by
    decide +kernel
  obtain ⟨⟨prompt, g⟩, h, hg⟩ := (Option.any_eq_true _ _).1 hsome
  obtain ⟨htag, hown, hchange⟩ := of_decide_eq_true hg
  obtain ⟨⟨v, t, haccepted⟩, hall⟩ := inputs_shown_iff Env.reference 0x03 _ prompt g h htag
  obtain ⟨hlength, hlock, hiff⟩ := hall v t haccepted
  obtain rfl := haccepted.value_eq_cut (by decide +kernel) (by decide) (by decide) (by decide)
  replace hown : g.currentLockArg = ⟨referenceLockArg, by decide⟩ := Subtype.ext hown
  replace hchange : g.changeLockArg = ⟨referenceLockArg, by decide⟩ := Subtype.ext hchange
  have hsources : t.sources = [(⟨referenceLockArg, by decide⟩, referenceLockArg),
      (⟨List.replicate 20 9, by decide⟩, List.replicate 20 9)] :=
    (eq_keyed (List.map_snd_zip (Nat.le_of_eq hlength.symm)) hlock (by decide)).trans (by decide)
  refine ⟨prompt, g, _, t, h, haccepted, hiff.2 ?_⟩
  rw [SignState.ownWindow, hown, hchange, hsources]
  refine ⟨by decide, by decide, fun before x behind hsplit hown hchange => ?_, by decide, by decide⟩
  rcases before with - | ⟨_, - | ⟨_, _⟩⟩
  · obtain ⟨rfl, -⟩ := List.cons.inj hsplit
    decide
  · obtain ⟨-, hsplit⟩ := List.cons.inj hsplit
    obtain ⟨rfl, -⟩ := List.cons.inj hsplit
    exact absurd hown (by decide)
  · obtain ⟨-, hsplit⟩ := List.cons.inj hsplit
    obtain ⟨-, hsplit⟩ := List.cons.inj hsplit
    exact absurd hsplit.symm (by simp)

/-- A payment of two owners, whose cells do not follow each other. -/
def splitPayment : AnnotatedTransaction :=
  { payment with
    inputCount := 3
    raw := { payment.raw with inputs :=
      [⟨⟨.zero 8, ⟨.zero 32, 0⟩⟩, coinbase ⟨500, sighashLock (List.replicate 20 9), none⟩ []⟩] ++
        payment.raw.inputs ++
      [⟨⟨.zero 8, ⟨.zero 32, 0⟩⟩, coinbase ⟨500, sighashLock (List.replicate 20 9), none⟩ []⟩] } }

/-- The prompt for two owners tells of three when their cells do not follow each other. -/
theorem splitPayment_miscounted :
    ∃ prompt g,
      signSession Env.reference 0x03 (cutPackets 5 splitPayment.encode) = some (prompt, g) ∧
      g.maybe.v.tag = .multiInputTransfer ∧
      ∀ v (t : Transcript Env.reference (fun _ => True) v),
        Accepted Env.reference (fun _ => True) 0x03 (cutPackets 5 splitPayment.encode) prompt g
          v t → ¬ InputShown g.currentLockArg v prompt.screens := by
  have hsome : (signSession Env.reference 0x03 (cutPackets 5 splitPayment.encode)).any
      (fun r => r.2.maybe.v.tag = .multiInputTransfer ∧ r.2.maybe.v.inputCount.2 = 3) = true := by
    decide +kernel
  obtain ⟨⟨prompt, g⟩, h, hg⟩ := (Option.any_eq_true _ _).1 hsome
  obtain ⟨htag, hcount⟩ := of_decide_eq_true hg
  refine ⟨prompt, g, h, htag, fun v t haccepted hshown => ?_⟩
  obtain ⟨nd, -, hprompt⟩ := haccepted.complete
  obtain ⟨hinput, -⟩ := multiInput_mem htag (SignState.signComplete_screens hprompt)
  obtain rfl := haccepted.value_eq_cut (by decide +kernel) (by decide) (by decide) (by decide)
  obtain ⟨k, n, hvalue, hn, -⟩ := hshown.count
  have hshownCount := (hinput _).1 ((hvalue _).2 rfl)
  injection hshownCount with hshownCount
  rw [show n = 3 from (congrArg Prod.snd hshownCount).trans hcount] at hn
  exact absurd hn (by decide)

end LedgerNervos
