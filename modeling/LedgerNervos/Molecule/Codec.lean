import LedgerNervos.Molecule.Tap
import Mathlib.Algebra.BigOperators.Group.List.Basic

/-!
# Molecule encodings

The canonical encodings of the Molecule format, and the fact that the readers read them back:
`Reads sp size bs a` says that the reader with specification `sp`, told to expect `size` bytes,
finds the value `a` in front of any input that starts with `bs`.

A table and a vector of items of any size are encoded alike (`encodeParts`): the total size, the
offset of each part, the parts.
-/

namespace LedgerNervos

variable {ε α β : Type}

/-! ### Numbers -/

theorem leNat_leBytes (n x : ℕ) : leNat (leBytes n x) = x % 256 ^ n := by
  induction n generalizing x with
  | zero => simp [leBytes, leNat, Nat.mod_one]
  | succ n ih =>
    simp only [leBytes, leNat, ih, UInt8.toNat_ofNat', Nat.reducePow]
    rw [Nat.pow_succ', Nat.mod_mul]

theorem molUnpackNumber_leBytes (x : ℕ) : molUnpackNumber (leBytes 4 x) = UInt32.ofNat x := by
  rw [molUnpackNumber, leNat_leBytes]
  apply UInt32.toNat_inj.1
  simp

/-- The four bytes of a number. -/
def num (x : ℕ) : List UInt8 := leBytes 4 x

@[simp] theorem length_num (x : ℕ) : (num x).length = 4 := length_leBytes 4 x

theorem readN_append {n : ℕ} {bs : List UInt8} (h : bs.length = n) (rest : List UInt8) :
    readN n (bs ++ rest) = .done bs rest := by
  rw [readN, if_neg (by simp; omega), List.take_left' h, List.drop_left' h]

theorem readNum_append (x : ℕ) (rest : List UInt8) :
    readNum (num x ++ rest) = .done (UInt32.ofNat x) rest := by
  rw [readNum, readN_append (length_num x)]
  simp [Res.map, num, molUnpackNumber_leBytes]

/-! ### Encodings -/

/-- The offsets of parts that follow each other from `off` on. -/
def offsetsFrom : ℕ → List (List UInt8) → List ℕ
  | _, [] => []
  | off, p :: ps => off :: offsetsFrom (off + p.length) ps

/-- Encoding of a table with these fields, or of a vector with these items. -/
def encodeParts (ps : List (List UInt8)) : List UInt8 :=
  num (4 + 4 * ps.length + ps.flatten.length) ++
    ((offsetsFrom (4 + 4 * ps.length) ps).flatMap num ++ ps.flatten)

/-- Encoding of a vector of items of fixed size. -/
def encodeFixVec (ps : List (List UInt8)) : List UInt8 := num ps.length ++ ps.flatten

/-- Encoding of a vector of bytes. -/
def encodeBytes (bs : List UInt8) : List UInt8 := num bs.length ++ bs

@[simp] theorem length_offsetsFrom (off : ℕ) (ps : List (List UInt8)) :
    (offsetsFrom off ps).length = ps.length := by
  induction ps generalizing off with
  | nil => rfl
  | cons p ps ih => simp [offsetsFrom, ih]

theorem length_flatMap_num (xs : List ℕ) : (xs.flatMap num).length = 4 * xs.length := by
  induction xs with
  | nil => rfl
  | cons x xs ih => simp only [List.flatMap_cons, List.length_append, length_num, ih,
      List.length_cons]; omega

theorem length_encodeParts (ps : List (List UInt8)) :
    (encodeParts ps).length = 4 + 4 * ps.length + ps.flatten.length := by
  simp only [encodeParts, List.length_append, length_num, length_flatMap_num, length_offsetsFrom]
  omega

/-- What a part of an encoding takes is less than the whole. -/
theorem length_lt_of_mem {p : List UInt8} {ps : List (List UInt8)} {n : ℕ} (hp : p ∈ ps)
    (h : (encodeParts ps).length < n) : p.length < n := by
  have hle : p.length ≤ ps.flatten.length := (List.sublist_flatten_of_mem hp).length_le
  rw [length_encodeParts] at h
  omega

@[simp] theorem length_encodeFixVec (ps : List (List UInt8)) :
    (encodeFixVec ps).length = 4 + ps.flatten.length := by simp [encodeFixVec]

@[simp] theorem length_encodeBytes (bs : List UInt8) :
    (encodeBytes bs).length = 4 + bs.length := by simp [encodeBytes]

/-! ### Reading encodings -/

/-- Told to expect `size` bytes, the reader finds `a` in `bs`, whatever follows. -/
def Reads (sp : Spec ε α) (size : UInt32) (bs : List UInt8) (a : α) : Prop :=
  ∀ rest, sp.sem size (bs ++ rest) = .done a rest

/-- The fields are read from their encodings, each being told its own size. -/
def ReadsFields (sps : FieldsSpec ε α) (ps : List (List UInt8)) (a : α) : Prop :=
  ∀ rest, sps.sem (ps.map fun p => UInt32.ofNat p.length) (ps.flatten ++ rest) = .done a rest

/-- A size that a value of `n` bytes is accepted with. -/
def SizeFor (size : UInt32) (n : ℕ) : Prop := size = molNumMax ∨ size = UInt32.ofNat n

theorem SizeFor.ok {size : UInt32} {n : ℕ} (h : SizeFor size n) :
    sizeOk size (UInt32.ofNat n) = true := by
  rcases h with h | h
  · simp [sizeOk, h]
  · simp [sizeOk, h]

theorem SizeFor.max (n : ℕ) : SizeFor molNumMax n := .inl rfl

theorem SizeFor.exact (n : ℕ) : SizeFor (UInt32.ofNat n) n := .inr rfl

theorem Reads.array {n : ℕ} {finish : List UInt8 → List ε} {bs : List UInt8} {size : UInt32}
    (h : bs.length = n) : Reads (Spec.array n finish) size bs bs :=
  fun rest => readN_append h rest

theorem Reads.byte {finish : UInt8 → List ε} (b : UInt8) : Reads (Spec.byte finish) 1 [b] b := by
  intro rest
  simp [Spec.byte]

theorem ReadsFields.nil : ReadsFields (FieldsSpec.nil : FieldsSpec ε Unit) [] () := fun _ => rfl

theorem ReadsFields.cons {sp : Spec ε α} {start : List ε} {sps : FieldsSpec ε β}
    {p : List UInt8} {ps : List (List UInt8)} {a : α} {b : β}
    (h : Reads sp (UInt32.ofNat p.length) p a) (hs : ReadsFields sps ps b) :
    ReadsFields (FieldsSpec.cons sp start sps) (p :: ps) (a, b) := by
  intro rest
  simp only [FieldsSpec.cons, List.map_cons, List.headD_cons, List.tail_cons,
    List.flatten_cons, List.append_assoc]
  rw [h, Res.bind_done, hs]
  rfl

theorem Reads.struct {sps : FieldsSpec ε α} {size size' : UInt32} {sizes : List UInt32}
    {ps : List (List UInt8)} {a : α} (hsizes : ps.map (fun p => UInt32.ofNat p.length) = sizes)
    (hsize : sizeOk size' size = true) (hs : ReadsFields sps ps a) :
    Reads (Spec.struct size sizes sps) size' ps.flatten a := by
  intro rest
  subst hsizes
  simp only [Spec.struct, hsize, Bool.not_true, Bool.false_eq_true, if_false]
  exact hs rest

/-- Once the total size has been accepted, the rest of the header is read as it is. -/
theorem readHeader_nums (size : UInt32) (words : List UInt32) (hw : words ≠ []) (xs : List ℕ)
    (rest : List UInt8) :
    Spec.readHeader size xs.length words (xs.flatMap num ++ rest) =
      .done (words ++ xs.map UInt32.ofNat) rest := by
  induction xs generalizing words with
  | nil => simp [Spec.readHeader]
  | cons x xs ih =>
    simp only [List.length_cons, Spec.readHeader, List.flatMap_cons, List.append_assoc]
    rw [readNum_append, Res.bind_done, if_neg (by simp [hw]), ih _ (by simp)]
    simp

theorem tableSizes_offsets (off : ℕ) (ps : List (List UInt8)) :
    Reader.tableSizes (UInt32.ofNat (off + ps.flatten.length) ::
      (offsetsFrom off ps).map UInt32.ofNat) = ps.map fun p => UInt32.ofNat p.length := by
  simp only [Reader.tableSizes]
  induction ps generalizing off with
  | nil => rfl
  | cons p ps ih =>
    have hsub (x y : ℕ) : UInt32.ofNat (x + y) - UInt32.ofNat x = UInt32.ofNat y := by
      rw [UInt32.ofNat_add, UInt32.add_comm, UInt32.add_sub_cancel]
    cases ps with
    | nil =>
      simp only [offsetsFrom, List.map_cons, List.map_nil, List.tail_cons, List.nil_append,
        List.flatten_cons, List.flatten_nil, List.append_nil, List.zipWith_cons_cons,
        List.zipWith_nil_left, hsub]
    | cons q ps =>
      have hih := ih (off + p.length)
      simp only [offsetsFrom, List.map_cons, List.tail_cons, List.cons_append,
        List.zipWith_cons_cons, List.flatten_cons, List.length_append, List.cons.injEq] at hih ⊢
      refine ⟨hsub _ _, ?_⟩
      rw [← hih]
      simp only [Nat.add_assoc]

/-- The words of the header of an encoding. -/
def headerWords (ps : List (List UInt8)) : List UInt32 :=
  UInt32.ofNat (4 + 4 * ps.length + ps.flatten.length) ::
    (offsetsFrom (4 + 4 * ps.length) ps).map UInt32.ofNat

/-- The header of an encoding tells every field its size. -/
theorem Spec.sem_table {sps : FieldsSpec ε α} {n : ℕ} {start : List ε}
    {offsets : List UInt32 → List ε} {size : UInt32} {ps : List (List UInt8)}
    (hn : ps.length = n) (hsize : SizeFor size (encodeParts ps).length) (rest : List UInt8) :
    (Spec.table n start offsets sps).sem size (encodeParts ps ++ rest) =
      (sps.sem (ps.map fun p => UInt32.ofNat p.length) (ps.flatten ++ rest)).map
        fun a => (headerWords ps, a) := by
  subst hn
  rw [length_encodeParts] at hsize
  simp only [Spec.table, encodeParts, List.append_assoc, Spec.readHeader]
  have hok := hsize.ok
  have hheader := readHeader_nums size
    [UInt32.ofNat (4 + 4 * ps.length + ps.flatten.length)] (by simp)
    (offsetsFrom (4 + 4 * ps.length) ps) (ps.flatten ++ rest)
  rw [length_offsetsFrom] at hheader
  rw [readNum_append, Res.bind_done, hok, if_neg (by simp), List.nil_append, hheader,
    Res.bind_done]
  rw [List.singleton_append, tableSizes_offsets]
  rfl

theorem Reads.table {sps : FieldsSpec ε α} {n : ℕ} {start : List ε}
    {offsets : List UInt32 → List ε} {size : UInt32} {ps : List (List UInt8)} {a : α}
    (hn : ps.length = n) (hsize : SizeFor size (encodeParts ps).length)
    (hs : ReadsFields sps ps a) :
    Reads (Spec.table n start offsets sps) size (encodeParts ps) (headerWords ps, a) := by
  intro rest
  rw [Spec.sem_table hn hsize, hs]
  rfl

theorem Reads.bytes {accept : UInt32 → List ε × Bool} {bodyChunk : Chunk → List ε}
    {size : UInt32} {bs : List UInt8} (hlen : bs.length + 4 < 2 ^ 32)
    (hsize : SizeFor size (encodeBytes bs).length)
    (haccept : (accept (UInt32.ofNat bs.length + 4)).2 = true) :
    Reads (Spec.bytes accept bodyChunk) size (encodeBytes bs) bs := by
  intro rest
  have hnat : (UInt32.ofNat bs.length).toNat = bs.length := by
    rw [UInt32.toNat_ofNat']; omega
  have hok : sizeOk size (UInt32.ofNat bs.length + 4) = true := by
    have := hsize.ok
    rwa [length_encodeBytes, Nat.add_comm, UInt32.ofNat_add] at this
  simp only [Spec.bytes, encodeBytes, List.append_assoc]
  rw [readNum_append, Res.bind_done, if_neg (by omega), if_neg (by simp [hok]),
    if_neg (by simp [haccept]), hnat, readN_append rfl]

theorem Reads.close {h : Hooks ε} {sp : Spec ε α} {size : UInt32} {bs : List UInt8} {a : α}
    (hr : Reads sp size bs a) : Reads (Spec.close h sp) size bs a := hr

theorem Reads.closePlain {finish : List ε} {sp : Spec ε α} {size : UInt32} {bs : List UInt8}
    {a : α} (hr : Reads sp size bs a) : Reads (Spec.closePlain finish sp) size bs a := hr

theorem Reads.option_none {sp : Spec ε α} : Reads (Spec.option sp) 0 [] none := by
  intro rest
  simp [Spec.option]

theorem Reads.option_some {sp : Spec ε α} {size : UInt32} {bs : List UInt8} {a : α}
    (hsize : size ≠ 0) (h : Reads sp size bs a) : Reads (Spec.option sp) size bs (some a) := by
  intro rest
  simp only [Spec.option, if_neg hsize]
  rw [h]
  rfl

theorem readItems_append {sp : Spec ε α} {size : UInt32} {ps : List (List UInt8)} {as : List α}
    (h : List.Forall₂ (Reads sp size) ps as) (rest : List UInt8) :
    Spec.readItems sp size ps.length (ps.flatten ++ rest) = .done as rest := by
  induction h with
  | nil => rfl
  | cons hp _ ih =>
    simp only [List.length_cons, Spec.readItems, List.flatten_cons, List.append_assoc]
    rw [hp, Res.bind_done, ih]
    rfl

theorem Reads.fixVec {itemSize : UInt32} {accept : UInt32 → List ε × Bool} {start : List ε}
    {index : UInt32 → List ε} {sp : Spec ε α} {size : UInt32} {ps : List (List UInt8)}
    {as : List α} (hlen : ps.length * itemSize.toNat + 4 < 2 ^ 32) (hpos : 0 < itemSize.toNat)
    (hsize : SizeFor size (4 + ps.length * itemSize.toNat))
    (haccept : (accept (UInt32.ofNat ps.length * itemSize + 4)).2 = true)
    (h : List.Forall₂ (Reads sp itemSize) ps as) :
    Reads (Spec.fixVec itemSize accept start index sp) size (encodeFixVec ps) as := by
  intro rest
  have hle : ps.length ≤ ps.length * itemSize.toNat := Nat.le_mul_of_pos_right _ hpos
  have hnat : (UInt32.ofNat ps.length).toNat = ps.length := by
    rw [UInt32.toNat_ofNat']; omega
  have hok : sizeOk size (UInt32.ofNat ps.length * itemSize + 4) = true := by
    have := hsize.ok
    rwa [Nat.add_comm, UInt32.ofNat_add, UInt32.ofNat_mul, UInt32.ofNat_toNat] at this
  simp only [Spec.fixVec, encodeFixVec, List.append_assoc]
  rw [readNum_append, Res.bind_done, hnat, if_neg (by omega), if_neg (by omega),
    if_neg (by simp [hok]), if_neg (by simp [haccept]), readItems_append h]

theorem skipNums_append (xs : List ℕ) (rest : List UInt8) :
    Spec.skipNums xs.length (xs.flatMap num ++ rest) = .done () rest := by
  induction xs with
  | nil => rfl
  | cons x xs ih =>
    simp only [List.length_cons, Spec.skipNums, List.flatMap_cons, List.append_assoc]
    rw [readNum_append, Res.bind_done, ih]

/-- The number of items is a quarter of the offset of the first one, less one. -/
theorem itemCount_first (n : ℕ) (h : 4 + 4 * n < 2 ^ 32) :
    (Reader.itemCount (UInt32.ofNat (4 + 4 * n))).toNat = n := by
  have hshift : (UInt32.ofNat (4 + 4 * n) >>> 2).toNat = n + 1 := by
    rw [UInt32.toNat_shiftRight, UInt32.toNat_ofNat', Nat.mod_eq_of_lt h, Nat.shiftRight_eq_div_pow]
    simp only [UInt32.reduceToNat, Nat.reduceMod, Nat.reducePow]
    omega
  have hpos : (1 : UInt32) ≤ UInt32.ofNat (4 + 4 * n) >>> 2 := by
    rw [UInt32.le_iff_toNat_le, hshift]; simp
  rw [Reader.itemCount, UInt32.toNat_sub_of_le _ _ hpos, hshift]
  rfl

/-- What a vector of these items is read as. -/
def vecValue (as : List α) : Option (List α) := if as = [] then none else some as

theorem Reads.dynVec {start : List ε} {length index : UInt32 → List ε} {sp : Spec ε α}
    {size : UInt32} {ps : List (List UInt8)} {as : List α}
    (hlen : (encodeParts ps).length < 2 ^ 32) (hsize : SizeFor size (encodeParts ps).length)
    (h : List.Forall₂ (Reads sp molNumMax) ps as) :
    Reads (Spec.dynVec start length index sp) size (encodeParts ps) (vecValue as) := by
  intro rest
  rw [length_encodeParts] at hlen hsize
  simp only [Spec.dynVec, encodeParts, List.append_assoc]
  rw [readNum_append, Res.bind_done]
  cases h with
  | nil => rfl
  | cons hp hps =>
    rename_i p a ps as
    have hitems := readItems_append (List.Forall₂.cons hp hps) rest
    have hne : UInt32.ofNat (4 + 4 * (p :: ps).length + (p :: ps).flatten.length) ≠ 4 := by
      intro h4
      have h4' := congrArg UInt32.toNat h4
      rw [UInt32.toNat_ofNat', Nat.mod_eq_of_lt hlen] at h4'
      simp at h4'
      omega
    rw [if_neg hne, hsize.ok, if_neg (by simp)]
    simp only [offsetsFrom, List.flatMap_cons, List.append_assoc]
    rw [readNum_append, Res.bind_done, itemCount_first _ (by omega)]
    have hskip := skipNums_append (offsetsFrom (4 + 4 * (p :: ps).length + p.length) ps)
      ((p :: ps).flatten ++ rest)
    rw [length_offsetsFrom] at hskip
    rw [List.length_cons, Nat.add_sub_cancel]
    rw [List.length_cons] at hskip
    rw [hskip, Res.bind_done]
    rw [List.length_cons] at hitems
    rw [hitems]
    simp [Res.map, vecValue]

/-- A reader takes as many bytes for a value as its encoding has. -/
theorem Reads.len {r : Reader ε} {sp : Spec ε α} (hr : Lawful r sp) {size : UInt32}
    {bs : List UInt8} {a : α} (h : Reads sp size bs a) : sp.len a = bs.length := by
  have hread := h []
  rw [List.append_nil] at hread
  obtain ⟨hle, hrest⟩ := hr.rest hread
  have hlen := congrArg List.length hrest
  rw [List.length_nil, List.length_drop] at hlen
  omega

/-- Fields that have been read, taken apart. -/
theorem FieldsSpec.sem_cons_done {sp : Spec ε α} {start : List ε} {sps : FieldsSpec ε β}
    {sizes : List UInt32} {bs rest : List UInt8} {v : α × β}
    (h : (FieldsSpec.cons sp start sps).sem sizes bs = .done v rest) :
    ∃ r, sp.sem (sizes.headD 0) bs = .done v.1 r ∧ sps.sem sizes.tail r = .done v.2 rest := by
  obtain ⟨a, r, ha, hr⟩ := Res.bind_eq_done_iff.1 h
  obtain ⟨b, hb, rfl⟩ := Res.map_eq_done_iff.1 hr
  exact ⟨r, ha, hb⟩

/-! ### The pieces of a field -/

/-- The pieces of the field number `i`, of fields with these lengths that follow each other from
byte `start` on. -/
def fieldPieces (start : ℕ) (lens : List ℕ) (i : ℕ) (cs : List Chunk) : List Chunk :=
  takeC (lens.getD i 0) (dropC (start + (lens.take i).sum) cs)

/-- The pieces of a field make up its encoding. -/
theorem joined_fieldPieces {start : ℕ} {header : List UInt8} {ps : List (List UInt8)}
    {cs : List Chunk} (hheader : header.length = start) (hcs : joined cs = header ++ ps.flatten)
    (i : ℕ) : joined (fieldPieces start (ps.map List.length) i cs) = ps.getD i [] := by
  rw [fieldPieces, joined_takeC, joined_dropC, hcs, ← hheader, ← List.drop_drop, List.drop_left,
    List.drop_sum_flatten, List.getD_eq_getElem?_getD, List.getD_eq_getElem?_getD,
    List.getElem?_map]
  by_cases hi : i < ps.length
  · rw [List.drop_eq_getElem_cons hi, List.getElem?_eq_getElem hi]
    exact List.take_left
  · rw [List.getElem?_eq_none (Nat.le_of_not_lt hi)]
    rfl

/-- The pieces of a part of an encoding. -/
theorem joined_fieldPieces_encode {ps : List (List UInt8)} {cs : List Chunk}
    (hcs : joined cs = encodeParts ps) (i : ℕ) :
    joined (fieldPieces (4 + 4 * ps.length) (ps.map List.length) i cs) = ps.getD i [] := by
  rw [encodeParts, ← List.append_assoc] at hcs
  refine joined_fieldPieces ?_ hcs i
  rw [List.length_append, length_num, length_flatMap_num, length_offsetsFrom]

end LedgerNervos
