import LedgerNervos.Sign.Books

/-!
# The strict settings

While contract data is refused, only cells that the prompts can describe are let pass.  What the
code finds out about an output is forgotten before its data arrive, but for a bit in a mask of 64
bits, under the number of the output.
-/

namespace LedgerNervos

variable {env : Env} {P : NvramData → Prop} {g g' : SignState}

/-- A cell with its data that the prompts can describe. -/
structure StrictCell (o : CellOutputVal) (d : List UInt8) : Prop where
  standard : o.Standard
  untyped : o.type_ = none → d = []
  deposit : o.isDao = true → d.length = 8

/-- The bits that the deposits among outputs set. -/
def daoMask (env : Env) (os : List CellOutputVal) : UInt64 :=
  (numbered 0 os).foldl (fun m l => if l.2.isDao then m ||| bitInt env l.1 else m) 0

/-! ### The mask -/

/-- A deposit is a deposit, whoever it belongs to. -/
theorem kind_eq_dao_iff {change owner : StandardLockArg} {o : CellOutputVal} :
    o.kind change owner = .dao ↔ o.isDao = true := by
  unfold CellOutputVal.kind
  split_ifs with hdao hback
  · exact iff_of_true rfl hdao
  · exact iff_of_false nofun hdao
  · exact iff_of_false nofun hdao

theorem foldl_classified (env : Env) (change owner : StandardLockArg) (i : UInt32)
    (os : List CellOutputVal) (m : UInt64) :
    (classified change owner i os).foldl
        (fun m l => if l.1 = .dao then m ||| bitInt env l.2.1 else m) m =
      (numbered i os).foldl (fun m l => if l.2.isDao then m ||| bitInt env l.1 else m) m := by
  induction os generalizing owner i m with
  | nil => rfl
  | cons o os ih =>
    rw [classified, numbered, List.foldl_cons, List.foldl_cons, ih]
    simp only [kind_eq_dao_iff]

namespace Transcript

variable {v : AnnotatedTransactionVal} (t : Transcript env P v)

/-- The mask that the data of the outputs are compared with. -/
theorem daoBitmask_paid (hok : t.last.maybe.hardReject = false)
    (hsafe : t.last.maybe.isUnsafe = false) :
    t.paid.tx.daoBitmask = daoMask env (v.outputs.getD []) := by
  obtain ⟨b, houtputs, hclosed⟩ := t.books_paid hok hsafe
  have hspent : t.spent.books.daoBitmask = 0 :=
    (t.books_spent hok hsafe).frame (f := Books.daoBitmask) fun _ _ _ _ hstep => by
      rw [hstep.books]
  have hmask : b.daoBitmask = (classified _ _ 0 (v.outputs.getD [])).foldl
      (fun m l => if l.1 = .dao then m ||| bitInt env l.2.1 else m) t.spent.books.daoBitmask :=
    houtputs.project (I := fun _ => True) (f := Books.daoBitmask) trivial
      (fun _ _ _ _ _ => trivial) fun _ _ _ _ hstep _ => by rw [hstep.books]
  rw [hspent, foldl_classified] at hmask
  exact (hclosed.frame (f := Books.daoBitmask) fun _ _ _ _ _ _ _ => rfl).trans hmask

end Transcript

/-! ### The cells of a session -/

/-- Every output of the transaction, and every cell that an input refers to, is one that the
prompts can describe, with its data. -/
structure StrictCells (v : AnnotatedTransactionVal) : Prop where
  output : ∀ (i : ℕ) o, (v.outputs.getD [])[i]? = some o →
    ∃ d, (v.outputsData.getD [])[i]? = some d ∧ StrictCell o d
  cell : ∀ a ∈ v.inputs.getD [], ∀ o, a.cell = some o → ∃ d, a.data = some d ∧ StrictCell o d

/-- There are as many data as outputs, in the transaction and in the transactions that the inputs
refer to. -/
structure Balanced (v : AnnotatedTransactionVal) : Prop where
  outputs : (v.outputs.getD []).length = (v.outputsData.getD []).length
  source : ∀ a ∈ v.inputs.getD [], a.sourceOutputs.length = a.sourceData.length

theorem getElem?_of_length_eq {α β : Type} {as : List α} {bs : List β}
    (h : as.length = bs.length) {i : ℕ} {a : α} (ha : as[i]? = some a) : ∃ b, bs[i]? = some b := by
  obtain ⟨hi, -⟩ := List.getElem?_eq_some_iff.1 ha
  exact ⟨bs[i], List.getElem?_eq_getElem (h ▸ hi)⟩

/-- The kind of a cell that the prompts can describe says whether it has a type. -/
theorem CellOutputVal.Standard.isDao_iff {o : CellOutputVal} (h : o.Standard) :
    o.isDao = true ↔ o.type_ ≠ none := by
  cases htype : o.type_ with
  | none => simp [isDao, htype]
  | some s => simp [isDao, htype, (h.type_ s htype).1]

/-- The data of a cell that the prompts can describe have the length for its kind. -/
theorem strictCell_of_length {o : CellOutputVal} {d : List UInt8} (h : o.Standard)
    (hlength : d.length = if o.isDao then 8 else 0) : StrictCell o d := by
  refine ⟨h, fun htype => ?_, fun hdao => ?_⟩
  · have hplain : ¬ o.isDao = true := fun hdao => h.isDao_iff.1 hdao htype
    rw [if_neg hplain] at hlength
    exact List.length_eq_zero_iff.1 hlength
  · rwa [if_pos hdao] at hlength

/-- Under the strict settings, the cells that are let pass are those that the prompts can describe
if and only if each output finds the bit for its kind in the mask. -/
theorem StrictTaken.cells_iff {v : AnnotatedTransactionVal} (hv : Balanced v)
    (h : StrictTaken env v (daoMask env (v.outputs.getD []))) :
    StrictCells v ↔ ∀ (i : ℕ) o, (v.outputs.getD [])[i]? = some o →
      flagged env (daoMask env (v.outputs.getD [])) (UInt32.ofNat i) = o.isDao := by
  have hlength (i : ℕ) (d : List UInt8) (hd : (v.outputsData.getD [])[i]? = some d) :
      d.length = if flagged env (daoMask env (v.outputs.getD [])) (UInt32.ofNat i) then 8 else 0 :=
    h.outputData _ (mem_numbered_of_getElem? hd)
  constructor
  · intro hcells i o ho
    obtain ⟨d, hd, hcell⟩ := hcells.output i o ho
    have hlen := hlength i d hd
    cases hdao : o.isDao with
    | true =>
      rw [hcell.deposit hdao] at hlen
      by_contra hflag
      rw [if_neg hflag] at hlen
      cases hlen
    | false =>
      have htype : o.type_ = none := by
        by_contra htype
        rw [hcell.standard.isDao_iff.2 htype] at hdao
        cases hdao
      rw [hcell.untyped htype] at hlen
      by_contra hflag
      rw [if_pos (by simpa using hflag)] at hlen
      cases hlen
  · intro hflags
    refine ⟨fun i o ho => ?_, fun a ha o ho => ?_⟩
    · obtain ⟨d, hd⟩ := getElem?_of_length_eq hv.outputs ho
      have hlen := hlength i d hd
      rw [hflags i o ho] at hlen
      exact ⟨d, hd, strictCell_of_length (h.output _ (mem_numbered_of_getElem? ho)) hlen⟩
    · obtain ⟨d, hd⟩ := getElem?_of_length_eq (hv.source a ha) ho
      have hlen := h.data a ha d hd
      rw [AnnotatedCellInputVal.isDao, ho, Option.any_some] at hlen
      exact ⟨d, hd, strictCell_of_length (h.cell a ha o ho) hlen⟩

/-- **Strict settings.**  When a session leads to the prompt while contract data is refused, and
there are as many data as outputs everywhere, the cells of the transaction are all ones that the
prompts can describe if and only if the mask has the bit of an output just when this output is a
deposit. -/
theorem strict_cells_iff (env : Env) (instruction : UInt8) (ps : List Packet) (prompt : Prompt)
    (g : SignState) (hstrict : ∀ p ∈ ps, p.nd.contractDataType = .disallow)
    (h : signSession env instruction ps = some (prompt, g)) :
    (∃ v, ∃ t : Transcript env (fun nd => nd.contractDataType = .disallow) v,
      Accepted env (fun nd => nd.contractDataType = .disallow) instruction ps prompt g v t) ∧
    ∀ v (t : Transcript env (fun nd => nd.contractDataType = .disallow) v),
      Accepted env (fun nd => nd.contractDataType = .disallow) instruction ps prompt g v t →
        (Balanced v → (StrictCells v ↔ ∀ (i : ℕ) o, (v.outputs.getD [])[i]? = some o →
          flagged env (daoMask env (v.outputs.getD [])) (UInt32.ofNat i) = o.isDao)) := by
  refine ⟨signSession_transcript hstrict h, fun v t haccepted hv => ?_⟩
  have htaken := t.strictTaken (fun _ => id) haccepted.hardReject haccepted.isUnsafe
  rw [t.daoBitmask_paid haccepted.hardReject haccepted.isUnsafe] at htaken
  exact htaken.cells_iff hv

theorem strict_cells_iff_payment :
    ∃ prompt g v, ∃ t : Transcript Env.reference (fun nd => nd.contractDataType = .disallow) v,
      signSession Env.reference 0x03 (cutPackets 3 payment.encode) = some (prompt, g) ∧
        Accepted Env.reference (fun nd => nd.contractDataType = .disallow) 0x03
          (cutPackets 3 payment.encode) prompt g v t ∧ StrictCells v := by
  have hsome : (signSession Env.reference 0x03 (cutPackets 3 payment.encode)).isSome = true := by
    decide +kernel
  obtain ⟨⟨prompt, g⟩, h⟩ := Option.isSome_iff_exists.1 hsome
  have hstrict : ∀ p ∈ cutPackets 3 payment.encode, p.nd.contractDataType = .disallow := by
    decide +kernel
  obtain ⟨⟨v, t, haccepted⟩, hall⟩ :=
    strict_cells_iff Env.reference 0x03 _ prompt g hstrict h
  have hiff := hall v t haccepted
  obtain rfl := haccepted.value_eq_cut (by decide +kernel) (by decide) (by decide) (by decide)
  refine ⟨prompt, g, _, t, h, haccepted, (hiff ⟨rfl, ?_⟩).2 fun i o ho => ?_⟩
  · decide
  · match i with
    | 0 =>
      obtain rfl := Option.some.inj ho
      decide
    | i + 1 => cases ho

/-- A deposit in the output number 31 of 33.  Its bit is the sign of an integer, and sets the bits
that follow too. -/
def deposit : AnnotatedTransaction :=
  { payment with raw := { payment.raw with
      outputs := List.replicate 31 ⟨1, emptyLock, none⟩ ++
        [⟨100, emptyLock, some ⟨⟨daoTypeScriptHash, length_daoTypeScriptHash⟩, 1, []⟩⟩,
          ⟨1, emptyLock, none⟩]
      outputsData := List.replicate 31 [] ++ [List.replicate 8 0, List.replicate 8 0] } }

/-- Behind a deposit in the output number 31, an output without a type gets past with data. -/
theorem deposit_not_strict :
    ∃ prompt g, signSession Env.reference 0x03 (cutPackets 15 deposit.encode) = some (prompt, g) ∧
      (∀ p ∈ cutPackets 15 deposit.encode, p.nd.contractDataType = .disallow) ∧
      ∀ v (t : Transcript Env.reference (fun nd => nd.contractDataType = .disallow) v),
        Accepted Env.reference (fun nd => nd.contractDataType = .disallow) 0x03
          (cutPackets 15 deposit.encode) prompt g v t → Balanced v ∧ ¬ StrictCells v := by
  have hsome : (signSession Env.reference 0x03 (cutPackets 15 deposit.encode)).isSome = true := by
    decide +kernel
  obtain ⟨⟨prompt, g⟩, h⟩ := Option.isSome_iff_exists.1 hsome
  have hstrict : ∀ p ∈ cutPackets 15 deposit.encode, p.nd.contractDataType = .disallow := by
    decide +kernel
  refine ⟨prompt, g, h, hstrict, fun v t haccepted => ?_⟩
  obtain rfl := haccepted.value_eq_cut (by decide +kernel) (by decide) (by decide) (by decide)
  refine ⟨⟨by decide, by decide⟩, fun hcells => ?_⟩
  obtain ⟨d, hd, hcell⟩ := hcells.output 32 _ rfl
  obtain rfl := Option.some.inj hd
  exact absurd (hcell.untyped rfl) (by decide)

end LedgerNervos
