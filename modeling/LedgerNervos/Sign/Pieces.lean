import LedgerNervos.Sign.Transcript

/-!
# The pieces of a canonical encoding

When the packets hold the canonical encoding of a transaction, the pieces in which a part of it
arrives make up the encoding of this part, however the packets are cut.
-/

namespace LedgerNervos

variable {ε : Type} {env : Env} {P : NvramData → Prop} {g : SignState}

open Callback (annotatedRawTransactionCallbacks annotatedTransactionCallbacks)

/-! ### The lengths of the fields -/

theorem AnnotatedRawTransaction.lens_value (cb : AnnotatedTransactionCb ε) (hcb : cb.Accepts)
    (t : AnnotatedRawTransaction) (hlen : t.encode.length < 2 ^ 32) :
    cb.raw.lens t.value = t.parts.map List.length := by
  have hpart : ∀ p ∈ t.parts, p.length < 2 ^ 32 := fun p hp => length_lt_of_mem hp hlen
  simp only [AnnotatedRawTransaction.parts, List.mem_cons, List.not_mem_nil, or_false,
    forall_eq_or_imp, forall_eq] at hpart
  obtain ⟨-, hcell, hheader, hin, hout, hdata⟩ := hpart
  have hcell := (reads_cellDepVec cb.raw.cellDeps _ hcell).len (MolReader.cellDepVec_lawful _)
  have hheader := (reads_byte32Vec cb.raw.headerDeps _ hheader).len (MolReader.byte32Vec_lawful _)
  have hin := (reads_annotatedCellInputVec _ hcb.source _ hin).len
    (MolReader.annotatedCellInputVec_lawful cb.raw.inputs)
  have hout := (reads_cellOutputVec _ hcb.outputs _ hout).len (MolReader.cellOutputVec_lawful _)
  have hdata := (reads_bytesVec _ hcb.outputsData _ hdata).len (MolReader.bytesVec_lawful _)
  simp only [AnnotatedRawTransactionCb.lens, value, parts, List.map_cons, List.map_nil, hcell,
    hheader, hin, hout, hdata, t.version.2]

theorem AnnotatedTransaction.lens_value (cb : AnnotatedTransactionCb ε) (hcb : cb.Accepts)
    (t : AnnotatedTransaction) (hlen : t.encode.length < 2 ^ 32)
    (hsign : (cb.signPath.size (UInt32.ofNat t.signPath.length * 4 + 4)).2 = true)
    (hchange : (cb.changePath.size (UInt32.ofNat t.changePath.length * 4 + 4)).2 = true) :
    cb.lens t.value = t.parts.map List.length := by
  have hpart : ∀ p ∈ t.parts, p.length < 2 ^ 32 := fun p hp => length_lt_of_mem hp hlen
  simp only [AnnotatedTransaction.parts, List.mem_cons, List.not_mem_nil, or_false,
    forall_eq_or_imp, forall_eq] at hpart
  obtain ⟨hpath, hpath', -, hraw, hwit⟩ := hpart
  have hpath := (reads_bip32 cb.signPath _ hpath hsign).len (MolReader.bip32_lawful _)
  have hpath' := (reads_bip32 cb.changePath _ hpath' hchange).len (MolReader.bip32_lawful _)
  have hraw := (reads_annotatedRawTransaction cb hcb _ hraw).len
    (MolReader.annotatedRawTransaction_lawful _)
  have hwit := (reads_bytesVec _ hcb.witnesses _ hwit).len (MolReader.bytesVec_lawful _)
  simp only [AnnotatedTransactionCb.lens, value, parts, List.map_cons, List.map_nil, hpath, hpath',
    hraw, hwit, length_num]

/-! ### Paths -/

/-- A path that has been read has been accepted by the callback for its size. -/
theorem sem_bip32_accepted {cb : Bip32Cb ε} {size : UInt32} {path : List UInt32}
    {rest rest' : List UInt8} {as : List (List UInt8)}
    (h : (MolSpec.bip32 cb).sem size (encodeBip32 path ++ rest) = .done as rest') :
    (cb.size (UInt32.ofNat path.length * 4 + 4)).2 = true := by
  simp only [MolSpec.bip32, Spec.closePlain, Spec.fixVec, encodeBip32, encodeFixVec,
    List.append_assoc, List.length_map] at h
  rw [readNum_append, Res.bind_done] at h
  split_ifs at h with h₁ h₂ h₃ h₄
  simpa using h₄

/-- Paths that are accepted have at most five components. -/
theorem Callback.le_of_initBip32Ok {n : ℕ} (hn : 4 * n + 4 < 2 ^ 32)
    (h : initBip32Ok (UInt32.ofNat n * 4 + 4) = true) : n ≤ maxBip32Path := by
  have hsub : (UInt32.ofNat n * 4 + 4 - 4).toNat = n * 4 := by
    have hfour : (4 : UInt32).toNat = 4 := rfl
    rw [UInt32.add_sub_cancel, UInt32.toNat_mul, UInt32.toNat_ofNat', hfour]
    omega
  rw [initBip32Ok, Bool.and_eq_true, decide_eq_true_eq, decide_eq_true_eq,
    UInt32.le_iff_toNat_le, UInt32.le_iff_toNat_le, hsub] at h
  have hle : n * 4 ≤ 20 := h.2
  rw [maxBip32Path]
  omega

/-- The paths of a transaction that has been read are short. -/
theorem path_le_of_sem {a : AnnotatedTransaction} {v : AnnotatedTransactionVal}
    {rest rest' : List UInt8} (hlen : a.encode.length < 2 ^ 32)
    (h : (MolSpec.annotatedTransaction annotatedTransactionCallbacks).sem molNumMax
      (a.encode ++ rest) = .done v rest') :
    a.signPath.length ≤ maxBip32Path ∧ a.changePath.length ≤ maxBip32Path := by
  have hbip (path : List UInt32) (hpath : encodeBip32 path ∈ a.parts) :
      (encodeBip32 path).length < 2 ^ 32 ∧ 4 * path.length + 4 < 2 ^ 32 := by
    have hlt := length_lt_of_mem hpath hlen
    refine ⟨hlt, ?_⟩
    rw [encodeBip32, length_encodeFixVec, length_flatten_map fun _ => length_num _] at hlt
    omega
  obtain ⟨hsign, hsign'⟩ := hbip a.signPath (by simp [AnnotatedTransaction.parts])
  obtain ⟨-, hchange'⟩ := hbip a.changePath (by simp [AnnotatedTransaction.parts])
  have hbytes : a.parts.flatten ++ rest = encodeBip32 a.signPath ++ (encodeBip32 a.changePath ++
      (num a.inputCount.toNat ++ (a.raw.encode ++ (encodeData a.witnesses ++ rest)))) := by
    simp [AnnotatedTransaction.parts]
  have hn : a.parts.length = 5 := rfl
  rw [MolSpec.annotatedTransaction, AnnotatedTransaction.encode, Spec.sem_table hn (.max _), hbytes,
    Res.map_eq_done_iff] at h
  obtain ⟨_, hfields, -⟩ := h
  obtain ⟨r₁, hpath, hfields⟩ := FieldsSpec.sem_cons_done hfields
  have haccept := sem_bip32_accepted hpath
  have hle := Callback.le_of_initBip32Ok hsign' haccept
  have hread := reads_bip32 annotatedTransactionCallbacks.signPath a.signPath hsign
    (Callback.initBip32Ok_of_le hle)
  obtain ⟨-, rfl⟩ := Res.done.inj ((hread _).symm.trans hpath)
  obtain ⟨r₂, hpath', -⟩ := FieldsSpec.sem_cons_done hfields
  have haccept' := sem_bip32_accepted hpath'
  exact ⟨hle, Callback.le_of_initBip32Ok hchange' haccept'⟩

/-! ### Canonical sessions -/

/-- What a session has read from the canonical encoding of a transaction, and the pieces in which
this has arrived. -/
structure Canonical (a : AnnotatedTransaction) {v : AnnotatedTransactionVal}
    (t : Transcript env P v) (cs : List Chunk) : Prop where
  value : v = a.value
  lens : annotatedTransactionCallbacks.lens v = a.parts.map List.length
  cut : t.Cut cs
  raw : ∀ i, joined (v.rawFieldPieces i cs) = a.raw.parts.getD i []
  witnesses : joined (v.witnessPieces cs) = encodeData a.witnesses

/-- **Canonical sessions.**  What a session has read that leads to a prompt from the encoding of a
transaction, however it is cut into packets. -/
theorem Accepted.canonical {instruction : UInt8} {ps : List Packet} {prompt : Prompt}
    {v : AnnotatedTransactionVal} {t : Transcript env P v} {a : AnnotatedTransaction}
    (haccepted : Accepted env P instruction ps prompt g v t)
    (hcut : t.Cut (takeC v.len (ps.map Packet.chunk))) (hlen : a.encode.length < 2 ^ 32)
    (hcs : joined (ps.map Packet.chunk) = a.encode) :
    Canonical a t (takeC a.encode.length (ps.map Packet.chunk)) := by
  obtain ⟨rest, hsem⟩ := haccepted.reads
  obtain ⟨hsign, hchange⟩ : a.signPath.length ≤ maxBip32Path ∧
      a.changePath.length ≤ maxBip32Path := by
    rw [hcs, ← List.append_nil a.encode] at hsem
    exact path_le_of_sem hlen hsem
  have hv := haccepted.value_eq hcs hlen hsign hchange
  have hsign := Callback.initBip32Ok_of_le hsign
  have hchange := Callback.initBip32Ok_of_le hchange
  have hlens : annotatedTransactionCallbacks.lens v = a.parts.map List.length := by
    rw [hv]
    exact a.lens_value _ Callback.accepts hlen hsign hchange
  have hrawLens : annotatedRawTransactionCallbacks.lens v.raw = a.raw.parts.map List.length := by
    rw [hv]
    exact a.raw.lens_value annotatedTransactionCallbacks Callback.accepts
      (length_lt_of_mem (by simp [AnnotatedTransaction.parts]) hlen)
  have hv' : v.len = a.encode.length := by
    rw [hv]
    exact (reads_annotatedTransaction _ Callback.accepts a hlen hsign hchange).len
      (MolReader.annotatedTransaction_lawful _)
  rw [hv'] at hcut
  generalize hds : takeC a.encode.length (ps.map Packet.chunk) = ds at hcut
  have hjoin : joined ds = encodeParts a.parts := by
    rw [← hds, joined_takeC, hcs, List.take_length, AnnotatedTransaction.encode]
  have hfield (i : ℕ) : joined (fieldPieces 24 (annotatedTransactionCallbacks.lens v) i ds) =
      a.parts.getD i [] := by
    rw [hlens]
    exact joined_fieldPieces_encode hjoin i
  refine ⟨hv, hlens, hcut, fun i => ?_, hfield 4⟩
  have hraw : joined (v.rawPieces ds) = encodeParts a.raw.parts := hfield 3
  rw [AnnotatedTransactionVal.rawFieldPieces, hrawLens]
  exact joined_fieldPieces_encode hraw i

theorem signSession_canonical {instruction : UInt8} {ps : List Packet} {prompt : Prompt}
    (hP : ∀ p ∈ ps, P p.nd) {a : AnnotatedTransaction} (hlen : a.encode.length < 2 ^ 32)
    (hcs : joined (ps.map Packet.chunk) = a.encode)
    (h : signSession env instruction ps = some (prompt, g)) :
    ∃ v t, Accepted env P instruction ps prompt g v t ∧
      Canonical a t (takeC a.encode.length (ps.map Packet.chunk)) := by
  obtain ⟨v, t, haccepted, hcut⟩ := signSession_cut hP h
  exact ⟨v, t, haccepted, haccepted.canonical hcut hlen hcs⟩

end LedgerNervos
