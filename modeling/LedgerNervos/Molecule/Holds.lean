import LedgerNervos.Molecule.Offsets

/-!
# The pieces that hold a value

`Spec.Holds sp size a cs rest` says that the pieces `cs` hold the value `a`, that is, `a` is read
from them when `rest` follows.  The pieces of a composite value hold its parts, in the way in which
`Spec.Tr` goes through them.

* `Holds.table`, `Holds.cons`, `Holds.dynVec`, `HoldsItems.cons` : the pieces of fields and items.
* `Holds.fixVec` : a vector of items of fixed size begins with its number of items, so its end can
  be told from its start (`Counted.append_inj`).
* `Spec.AnySize.eq_of_reads` : what is read from an encoding is what has been encoded, whatever
  size the reader has been told to expect.
-/

namespace LedgerNervos

variable {ε α β : Type}

/-! ### Numbers and items that have been read -/

theorem readN_done {n : ℕ} {bs a rest : List UInt8} (h : readN n bs = .done a rest) :
    n ≤ bs.length ∧ a = bs.take n ∧ rest = bs.drop n := by
  rw [readN] at h
  split_ifs at h with hlen
  obtain ⟨rfl, rfl⟩ := Res.done.inj h
  exact ⟨Nat.not_lt.1 hlen, rfl, rfl⟩

theorem readNum_done {bs rest : List UInt8} {w : UInt32} (h : readNum bs = .done w rest) :
    4 ≤ bs.length ∧ bs.take 4 = num w.toNat ∧ rest = bs.drop 4 := by
  obtain ⟨a, ha, rfl⟩ := Res.map_eq_done_iff.1 h
  obtain ⟨hle, rfl, rfl⟩ := readN_done ha
  have hfour : (bs.take 4).length = 4 := List.length_take_of_le hle
  have hlt : leNat (bs.take 4) < 2 ^ 32 := (leNat_lt _).trans_eq (by rw [hfour]; rfl)
  refine ⟨hle, ?_, rfl⟩
  rw [molUnpackNumber, UInt32.toNat_ofNat', Nat.mod_eq_of_lt hlt, num_leNat hfour]

theorem readHeader_done {size : UInt32} {k : ℕ} {ws words : List UInt32} {bs rest : List UInt8}
    (h : Spec.readHeader size k ws bs = .done words rest) :
    4 * k ≤ bs.length ∧ rest = bs.drop (4 * k) := by
  induction k generalizing ws bs with
  | zero => exact ⟨Nat.zero_le _, (Res.done.inj h).2.symm⟩
  | succ k ih =>
    obtain ⟨w, r, hw, hr⟩ := Res.bind_eq_done_iff.1 h
    split_ifs at hr
    obtain ⟨hle, -, rfl⟩ := readNum_done hw
    obtain ⟨hle', hrest⟩ := ih hr
    rw [List.length_drop] at hle'
    exact ⟨by omega, by rw [hrest, List.drop_drop, Nat.mul_succ, Nat.add_comm]⟩

theorem skipNums_done {n : ℕ} {bs rest : List UInt8} (h : Spec.skipNums n bs = .done () rest) :
    4 * n ≤ bs.length ∧ rest = bs.drop (4 * n) := by
  induction n generalizing bs with
  | zero => exact ⟨Nat.zero_le _, (Res.done.inj h).2.symm⟩
  | succ n ih =>
    obtain ⟨w, r, hw, hr⟩ := Res.bind_eq_done_iff.1 h
    obtain ⟨hle, -, rfl⟩ := readNum_done hw
    obtain ⟨hle', hrest⟩ := ih hr
    rw [List.length_drop] at hle'
    exact ⟨by omega, by rw [hrest, List.drop_drop, Nat.mul_succ, Nat.add_comm]⟩

theorem readItems_done {r : Reader ε} {sp : Spec ε α} (hr : Lawful r sp) {size : UInt32} {n : ℕ}
    {as : List α} {bs rest : List UInt8} (h : Spec.readItems sp size n bs = .done as rest) :
    Spec.itemsLen sp as ≤ bs.length ∧ rest = bs.drop (Spec.itemsLen sp as) := by
  induction n generalizing bs as with
  | zero =>
    obtain ⟨rfl, rfl⟩ := Res.done.inj h
    exact ⟨Nat.zero_le _, rfl⟩
  | succ n ih =>
    obtain ⟨a, bs', ha, h⟩ := Res.bind_eq_done_iff.1 h
    obtain ⟨as, has, rfl⟩ := Res.map_eq_done_iff.1 h
    obtain ⟨hle, rfl⟩ := hr.rest ha
    obtain ⟨hle', hrest⟩ := ih has
    rw [List.length_drop] at hle'
    rw [Spec.itemsLen, List.map_cons, List.sum_cons, ← Spec.itemsLen]
    exact ⟨by omega, by rw [hrest, List.drop_drop]⟩

/-! ### The pieces of a value -/

/-- The pieces hold the value. -/
def Spec.Holds (sp : Spec ε α) (size : UInt32) (a : α) (cs : List Chunk) (rest : List UInt8) :
    Prop :=
  sp.sem size (joined cs ++ rest) = .done a rest

/-- The pieces hold the values of the fields. -/
def FieldsSpec.Holds (sps : FieldsSpec ε α) (sizes : List UInt32) (a : α) (cs : List Chunk)
    (rest : List UInt8) : Prop :=
  sps.sem sizes (joined cs ++ rest) = .done a rest

/-- The pieces hold items, one after the other. -/
def Spec.HoldsItems (sp : Spec ε α) (size : UInt32) (as : List α) (cs : List Chunk)
    (rest : List UInt8) : Prop :=
  readItems sp size as.length (joined cs ++ rest) = .done as rest

/-- The bytes begin with the number of items, of `n` bytes each, that make up the rest. -/
def Counted (n : ℕ) (bs : List UInt8) : Prop :=
  ∃ k, k < 2 ^ 32 ∧ bs.take 4 = num k ∧ bs.length = 4 + n * k

/-- Where counted items end can be told from what they begin with. -/
theorem Counted.append_inj {n : ℕ} {bs bs' x y : List UInt8} (h : Counted n bs)
    (h' : Counted n bs') (heq : bs ++ x = bs' ++ y) : bs = bs' ∧ x = y := by
  obtain ⟨k, hk, hnum, hlen⟩ := h
  obtain ⟨k', hk', hnum', hlen'⟩ := h'
  have htake : bs.take 4 = bs'.take 4 := by
    have hleft : (bs ++ x).take 4 = bs.take 4 := List.take_append_of_le_length (by omega)
    rw [← hleft, heq, List.take_append_of_le_length (by omega)]
  rw [hnum, hnum'] at htake
  have hsame := congrArg leNat htake
  rw [leNat_num hk, leNat_num hk'] at hsame
  subst hsame
  exact List.append_inj heq (hlen.trans hlen'.symm)

theorem counted_encodeFixVec {n : ℕ} {ps : List (List UInt8)} (h : ∀ p ∈ ps, p.length = n)
    (hlen : ps.length < 2 ^ 32) : Counted n (encodeFixVec ps) := by
  refine ⟨ps.length, hlen, ?_, ?_⟩
  · rw [encodeFixVec, List.take_left' (length_num _)]
  · rw [length_encodeFixVec, List.length_flatten, List.map_congr_left h, List.map_const',
      List.sum_replicate_nat, Nat.mul_comm]

theorem counted_encode {n : ℕ} {encode : α → List UInt8} (hn : 0 < n)
    (hencode : ∀ a, (encode a).length = n) {as : List α}
    (hlen : (encodeFixVec (as.map encode)).length < 2 ^ 32) :
    Counted n (encodeFixVec (as.map encode)) := by
  have hitem : ∀ p ∈ as.map encode, p.length = n := by
    intro p hp
    obtain ⟨a, -, rfl⟩ := List.mem_map.1 hp
    exact hencode a
  refine counted_encodeFixVec hitem ?_
  have hle := Nat.le_mul_of_pos_left as.length hn
  rw [length_encodeFixVec, List.length_flatten, List.map_congr_left hitem, List.map_const',
    List.sum_replicate_nat, List.length_map, Nat.mul_comm] at hlen
  rw [List.length_map]
  omega

section Holds

variable {r : Reader ε} {rs : List (Reader ε)} {sp : Spec ε α} {sps : FieldsSpec ε β}
  {cs : List Chunk} {rest : List UInt8}

theorem Spec.Holds.of_close {hooks : Hooks ε} {size : UInt32} {a : α}
    (h : (Spec.close hooks sp).Holds size a cs rest) : sp.Holds size a cs rest := h

theorem Spec.Holds.of_closePlain {finish : List ε} {size : UInt32} {a : α}
    (h : (Spec.closePlain finish sp).Holds size a cs rest) : sp.Holds size a cs rest := h

theorem Spec.Holds.len (hr : Lawful r sp) {size : UInt32} {a : α} (h : sp.Holds size a cs rest) :
    (joined cs).length = sp.len a := by
  obtain ⟨hle, hrest⟩ := hr.rest h
  have hlength := congrArg List.length hrest
  rw [List.length_drop, List.length_append] at hlength
  rw [List.length_append] at hle
  omega

/-- What is read behind `n` bytes is read from the rest of the pieces, if it leaves `rest` over. -/
theorem drop_joined {n k : ℕ} (hn : n ≤ (joined cs ++ rest).length)
    (hrest : rest = ((joined cs ++ rest).drop n).drop k) :
    (joined cs ++ rest).drop n = joined (dropC n cs) ++ rest := by
  have hlength := congrArg List.length hrest
  simp only [List.length_drop, List.length_append] at hn hlength
  rw [List.drop_append_of_le_length (by omega), joined_dropC]

theorem FieldsSpec.Holds.cons (hr : Lawful r sp) (hrs : LawfulFields rs sps) {start : List ε}
    {sizes : List UInt32} {v : α × β} (h : (FieldsSpec.cons sp start sps).Holds sizes v cs rest) :
    sp.Holds (sizes.headD 0) v.1 (takeC (sp.len v.1) cs)
        (joined (dropC (sp.len v.1) cs) ++ rest) ∧
      sps.Holds sizes.tail v.2 (dropC (sp.len v.1) cs) rest := by
  obtain ⟨bs, hfirst, hrest⟩ := FieldsSpec.sem_cons_done h
  obtain ⟨hle, rfl⟩ := hr.rest hfirst
  obtain ⟨-, hlast⟩ := hrs.rest hrest
  rw [drop_joined hle hlast] at hfirst hrest
  refine ⟨?_, hrest⟩
  unfold Spec.Holds
  rw [← List.append_assoc, joined_takeC, joined_dropC, List.take_append_drop, ← joined_dropC]
  exact hfirst

theorem Spec.Holds.table (hrs : LawfulFields rs sps) {n : ℕ} {start : List ε}
    {offsets : List UInt32 → List ε} {size : UInt32} {v : List UInt32 × β}
    (h : (Spec.table n start offsets sps).Holds size v cs rest) :
    sps.Holds (Reader.tableSizes v.1) v.2 (dropC (4 * (n + 1)) cs) rest := by
  obtain ⟨words, bs, hwords, hfields⟩ := Res.bind_eq_done_iff.1 h
  obtain ⟨a, ha, rfl⟩ := Res.map_eq_done_iff.1 hfields
  obtain ⟨hle, rfl⟩ := readHeader_done hwords
  obtain ⟨-, hlast⟩ := hrs.rest ha
  rwa [drop_joined hle hlast] at ha

/-- The items of a vector of items of any size. -/
theorem Spec.Holds.dynVec (hr : Lawful r sp) {start : List ε} {length index : UInt32 → List ε}
    {size : UInt32} {as : List α}
    (h : (Spec.dynVec start length index sp).Holds size (some as) cs rest) :
    sp.HoldsItems molNumMax as (dropC (8 + 4 * (as.length - 1)) cs) rest := by
  obtain ⟨total, bs, htotal, h⟩ := Res.bind_eq_done_iff.1 h
  split_ifs at h
  · cases h
  obtain ⟨first, bs', hfirst, h⟩ := Res.bind_eq_done_iff.1 h
  obtain ⟨⟨⟩, bs'', hskip, h⟩ := Res.bind_eq_done_iff.1 h
  obtain ⟨as', has, hsome⟩ := Res.map_eq_done_iff.1 h
  obtain rfl : as = as' := (Option.some.inj hsome).symm
  have hcount := Spec.length_readItems has
  rw [← hcount] at has hskip
  obtain ⟨hle, -, rfl⟩ := readNum_done htotal
  obtain ⟨hle', -, rfl⟩ := readNum_done hfirst
  obtain ⟨hle'', rfl⟩ := skipNums_done hskip
  have hsum : 4 + (4 + 4 * (as.length - 1)) = 8 + 4 * (as.length - 1) := by omega
  rw [List.drop_drop, List.drop_drop, hsum] at has
  obtain ⟨-, hlast⟩ := readItems_done hr has
  simp only [List.length_drop] at hle' hle''
  rwa [drop_joined (by omega) hlast] at has

/-- The first of several items. -/
theorem Spec.HoldsItems.cons (hr : Lawful r sp) {size : UInt32} {a : α} {as : List α}
    (h : sp.HoldsItems size (a :: as) cs rest) :
    sp.Holds size a (takeC (sp.len a) cs) (joined (dropC (sp.len a) cs) ++ rest) ∧
      sp.HoldsItems size as (dropC (sp.len a) cs) rest := by
  obtain ⟨a', bs, ha, h⟩ := Res.bind_eq_done_iff.1 h
  obtain ⟨as', has, heq⟩ := Res.map_eq_done_iff.1 h
  obtain ⟨rfl, rfl⟩ := List.cons.inj heq
  obtain ⟨hle, rfl⟩ := hr.rest ha
  obtain ⟨-, hlast⟩ := readItems_done hr has
  rw [drop_joined hle hlast] at ha has
  refine ⟨?_, has⟩
  unfold Spec.Holds
  rw [← List.append_assoc, joined_takeC, joined_dropC, List.take_append_drop, ← joined_dropC]
  exact ha

/-- A vector of items of fixed size takes what the number at its start says. -/
theorem Spec.Holds.fixVec (hr : Lawful r sp) {n : ℕ} (hn : ∀ a, sp.len a = n) {itemSize : UInt32}
    {accept : UInt32 → List ε × Bool} {start : List ε} {index : UInt32 → List ε} {size : UInt32}
    {as : List α} (h : (Spec.fixVec itemSize accept start index sp).Holds size as cs rest) :
    Counted n (joined cs) := by
  obtain ⟨w, bs, hw, h⟩ := Res.bind_eq_done_iff.1 h
  split_ifs at h
  obtain ⟨hle, hnum, rfl⟩ := readNum_done hw
  obtain ⟨hitems, hrest⟩ := readItems_done hr h
  have hcount := Spec.length_readItems h
  have hlens : Spec.itemsLen sp as = n * as.length := by
    rw [Spec.itemsLen, List.map_congr_left fun a _ => hn a, List.map_const', List.sum_replicate_nat,
      Nat.mul_comm]
  have hlength := congrArg List.length hrest
  rw [hlens] at hitems hlength
  simp only [List.length_drop, List.length_append] at hle hitems hlength
  refine ⟨as.length, ?_, ?_, by omega⟩
  · rw [hcount]
    exact w.toNat_lt
  · rw [hcount, ← hnum, List.take_append_of_le_length (by omega)]

end Holds

/-! ### Without an expected size -/

/-- What is read when a size is expected is also read when none is. -/
def Spec.AnySize (sp : Spec ε α) : Prop :=
  ∀ size bs a rest, sp.sem size bs = .done a rest → sp.sem molNumMax bs = .done a rest

theorem sizeOk_molNumMax (n : UInt32) : sizeOk molNumMax n = true := by simp [sizeOk]

theorem Spec.AnySize.table {n : ℕ} {start : List ε} {offsets : List UInt32 → List ε}
    {sps : FieldsSpec ε α} : (Spec.table n start offsets sps).AnySize := by
  intro size bs v rest h
  obtain ⟨words, bs', hwords, hfields⟩ := Res.bind_eq_done_iff.1 h
  refine Res.bind_eq_done_iff.2 ⟨words, bs', ?_, hfields⟩
  have hheader : ∀ (k : ℕ) (ws : List UInt32) (bs : List UInt8),
      Spec.readHeader size k ws bs = .done words bs' →
        Spec.readHeader molNumMax k ws bs = .done words bs' := by
    intro k
    induction k with
    | zero => exact fun _ _ => id
    | succ k ih =>
      intro ws bs h
      obtain ⟨w, r, hw, hr⟩ := Res.bind_eq_done_iff.1 h
      refine Res.bind_eq_done_iff.2 ⟨w, r, hw, ?_⟩
      split_ifs at hr
      rw [sizeOk_molNumMax, if_neg (by simp)]
      exact ih _ _ hr
  exact hheader _ _ _ hwords

theorem Spec.AnySize.dynVec {start : List ε} {length index : UInt32 → List ε} {sp : Spec ε α} :
    (Spec.dynVec start length index sp).AnySize := by
  intro size bs v rest h
  obtain ⟨total, bs', htotal, h⟩ := Res.bind_eq_done_iff.1 h
  refine Res.bind_eq_done_iff.2 ⟨total, bs', htotal, ?_⟩
  rw [sizeOk_molNumMax]
  split_ifs at h with hnone hok
  · rwa [if_pos hnone]
  · rwa [if_neg hnone, if_neg (by simp)]

theorem Spec.AnySize.close {hooks : Hooks ε} {sp : Spec ε α} (h : sp.AnySize) :
    (Spec.close hooks sp).AnySize := h

/-- **Reading an encoding.**  What is read from an encoding is what has been encoded. -/
theorem Spec.AnySize.eq_of_reads {sp : Spec ε α} (h : sp.AnySize) {size size' : UInt32} {a a' : α}
    {bs rest rest' : List UInt8} (hreads : Reads sp size' bs a')
    (hsem : sp.sem size (bs ++ rest) = .done a rest') : a = a' ∧ rest' = rest := by
  have hmax := h _ _ _ _ (hreads rest)
  rw [h _ _ _ _ hsem] at hmax
  exact Res.done.inj hmax

end LedgerNervos
