import LedgerNervos.Molecule.Codec

/-!
# Decoding by offsets

The readers of this development take the parts of a table or of a vector one after the other, and
skip the offsets in its header.  Here an encoding is decoded the other way, from the offsets, and
strictly: the total size, the number of parts and the order of the offsets have to be right.

* `decodeParts`, `decodeBytes`, `decodeFixVec` : the parts of a table or of a vector.
* `Decodes dec encode` : `dec` accepts the encodings of less than `2 ^ 32` bytes, and nothing else.
-/

namespace LedgerNervos

variable {α β : Type} {bs : List UInt8} {ps : List (List UInt8)}

/-! ### Numbers -/

theorem leNat_lt (bs : List UInt8) : leNat bs < 256 ^ bs.length := by
  induction bs with
  | nil => simp [leNat]
  | cons b bs ih =>
    have hb : b.toNat < 256 := b.toNat_lt
    rw [leNat, List.length_cons, Nat.pow_succ]
    omega

theorem leBytes_leNat (bs : List UInt8) : leBytes bs.length (leNat bs) = bs := by
  induction bs with
  | nil => rfl
  | cons b bs ih =>
    have hb : b.toNat < 256 := b.toNat_lt
    have hdiv : (b.toNat + 256 * leNat bs) / 256 = leNat bs := by omega
    rw [leNat, List.length_cons, leBytes, hdiv, ih]
    congr 1
    apply UInt8.toNat_inj.1
    rw [UInt8.toNat_ofNat']
    omega

theorem num_leNat (h : bs.length = 4) : num (leNat bs) = bs := by
  rw [num, ← h, leBytes_leNat]

theorem leNat_num {x : ℕ} (h : x < 2 ^ 32) : leNat (num x) = x := by
  rw [num, leNat_leBytes]
  exact Nat.mod_eq_of_lt h

/-- The first `n` numbers of a byte string. -/
def numsOf : ℕ → List UInt8 → List ℕ
  | 0, _ => []
  | n + 1, bs => leNat (bs.take 4) :: numsOf n (bs.drop 4)

@[simp] theorem length_numsOf (n : ℕ) (bs : List UInt8) : (numsOf n bs).length = n := by
  induction n generalizing bs with
  | zero => rfl
  | succ n ih => rw [numsOf, List.length_cons, ih]

theorem flatMap_numsOf {n : ℕ} (h : 4 * n ≤ bs.length) :
    (numsOf n bs).flatMap num = bs.take (4 * n) := by
  induction n generalizing bs with
  | zero => rfl
  | succ n ih =>
    rw [numsOf, List.flatMap_cons, num_leNat (by rw [List.length_take]; omega),
      ih (by rw [List.length_drop]; omega), Nat.mul_succ, Nat.add_comm (4 * n), List.take_add]

theorem numsOf_flatMap {xs : List ℕ} (h : ∀ x ∈ xs, x < 2 ^ 32) (rest : List UInt8) :
    numsOf xs.length (xs.flatMap num ++ rest) = xs := by
  induction xs with
  | nil => rfl
  | cons x xs ih =>
    obtain ⟨hx, hxs⟩ := List.forall_mem_cons.1 h
    rw [List.length_cons, numsOf, List.flatMap_cons, List.append_assoc,
      List.take_left' (length_num x), List.drop_left' (length_num x), leNat_num hx, ih hxs]

/-! ### Parts -/

/-- The parts that start at these offsets, the last one of which goes up to the end. -/
def partsAt (bs : List UInt8) : List ℕ → Option (List (List UInt8))
  | [] => some []
  | [off] => if off ≤ bs.length then some [bs.drop off] else none
  | off :: off' :: offs =>
    if off ≤ off' then
      (partsAt bs (off' :: offs)).map fun ps => (bs.drop off).take (off' - off) :: ps
    else none

/-- The fields of a table, or the items of a vector of items of any size. -/
def decodeParts (bs : List UInt8) : Option (List (List UInt8)) :=
  if bs.length < 4 ∨ leNat (bs.take 4) ≠ bs.length then none
  else if bs.length = 4 then some []
  else
    -- the first part follows the offsets
    let first := leNat ((bs.drop 4).take 4)
    if first < 8 ∨ first % 4 ≠ 0 ∨ bs.length < first then none
    else partsAt bs (numsOf (first / 4 - 1) (bs.drop 4))

theorem partsAt_eq_some {off : ℕ} {offs : List ℕ} (h : partsAt bs (off :: offs) = some ps) :
    off ≤ bs.length ∧ ps.flatten = bs.drop off ∧ offsetsFrom off ps = off :: offs := by
  induction offs generalizing off ps with
  | nil =>
    rw [partsAt] at h
    split_ifs at h with hle
    obtain rfl := Option.some.inj h
    exact ⟨hle, by simp, rfl⟩
  | cons off' offs ih =>
    rw [partsAt] at h
    split_ifs at h with hle
    obtain ⟨ps, hps, rfl⟩ := Option.map_eq_some_iff.1 h
    obtain ⟨hle', hflatten, hoffs⟩ := ih hps
    have hlen : ((bs.drop off).take (off' - off)).length = off' - off := by
      rw [List.length_take, List.length_drop]
      omega
    refine ⟨by omega, ?_, ?_⟩
    · rw [List.flatten_cons, hflatten, show bs.drop off' = (bs.drop off).drop (off' - off) by
        rw [List.drop_drop]; congr 1; omega, List.take_append_drop]
    · rw [offsetsFrom, hlen, show off + (off' - off) = off' by omega, hoffs]

theorem partsAt_offsetsFrom {off : ℕ} (hle : off ≤ bs.length) (hbs : ps.flatten = bs.drop off) :
    partsAt bs (offsetsFrom off ps) = some ps := by
  induction ps generalizing off with
  | nil => rfl
  | cons p ps ih =>
    rw [List.flatten_cons] at hbs
    have hlen := congrArg List.length hbs
    rw [List.length_append, List.length_drop] at hlen
    cases ps with
    | nil =>
      rw [List.flatten_nil, List.append_nil] at hbs
      rw [offsetsFrom, offsetsFrom, partsAt, if_pos hle, hbs]
    | cons q ps =>
      have hrest : (q :: ps).flatten = bs.drop (off + p.length) := by
        rw [← List.drop_drop, ← hbs, List.drop_left]
      have hnext := ih (by omega) hrest
      rw [offsetsFrom] at hnext
      rw [offsetsFrom, offsetsFrom, partsAt, if_pos (Nat.le_add_right ..), hnext, ← hbs,
        Nat.add_sub_cancel_left, List.take_left]
      rfl

theorem le_of_mem_offsetsFrom {off x : ℕ} (h : x ∈ offsetsFrom off ps) :
    x ≤ off + ps.flatten.length := by
  induction ps generalizing off with
  | nil => cases h
  | cons p ps ih =>
    rw [List.flatten_cons, List.length_append]
    rcases List.mem_cons.1 h with rfl | h
    · omega
    · have hle := ih h
      omega

theorem encodeParts_of_decodeParts (h : decodeParts bs = some ps) :
    bs = encodeParts ps ∧ bs.length < 2 ^ 32 := by
  rw [decodeParts] at h
  split_ifs at h with hshort hempty
  · -- no parts
    obtain rfl := Option.some.inj h
    have hword := (not_or.1 hshort).2
    rw [not_not, List.take_of_length_le (Nat.le_of_eq hempty)] at hword
    refine ⟨?_, by omega⟩
    rw [encodeParts, ← num_leNat hempty, hword, hempty]
    rfl
  · dsimp only at h
    split_ifs at h with hbad
    simp only [not_or, not_not, Nat.not_lt] at hshort hbad
    obtain ⟨hlen, hword⟩ := hshort
    obtain ⟨hfirst, hmod, hle⟩ := hbad
    have hlt := leNat_lt (bs.take 4)
    rw [hword, List.length_take_of_le hlen] at hlt
    refine ⟨?_, hlt⟩
    -- the offset of the first part says how many there are
    obtain ⟨n, hn⟩ : ∃ n, leNat ((bs.drop 4).take 4) = 4 + 4 * (n + 1) :=
      ⟨leNat ((bs.drop 4).take 4) / 4 - 2, by omega⟩
    rw [hn] at h hle
    have hoffs : numsOf ((4 + 4 * (n + 1)) / 4 - 1) (bs.drop 4) =
        (4 + 4 * (n + 1)) :: numsOf n ((bs.drop 4).drop 4) := by
      rw [show (4 + 4 * (n + 1)) / 4 - 1 = n + 1 by omega, numsOf, hn]
    rw [hoffs] at h
    obtain ⟨-, hflatten, hparts⟩ := partsAt_eq_some h
    have hcount := congrArg List.length hparts
    rw [length_offsetsFrom, List.length_cons, length_numsOf] at hcount
    have hnums : offsetsFrom (4 + 4 * (n + 1)) ps = numsOf (n + 1) (bs.drop 4) := by
      rw [hparts, numsOf, hn]
    have htotal : 4 + 4 * (n + 1) + (bs.drop (4 + 4 * (n + 1))).length = bs.length := by
      rw [List.length_drop]
      omega
    rw [encodeParts, hcount, hnums, flatMap_numsOf (by rw [List.length_drop]; omega), hflatten,
      htotal, ← hword, num_leNat (List.length_take_of_le hlen), ← List.drop_drop,
      List.take_append_drop, List.take_append_drop]

theorem decodeParts_encodeParts (hlen : (encodeParts ps).length < 2 ^ 32) :
    decodeParts (encodeParts ps) = some ps := by
  have hsize := length_encodeParts ps
  have hword : leNat ((encodeParts ps).take 4) = (encodeParts ps).length := by
    rw [hsize, encodeParts, List.take_left' (length_num _), leNat_num (by omega)]
  rw [decodeParts, if_neg (by rw [hword, hsize]; omega)]
  cases ps with
  | nil => rfl
  | cons p ps =>
    have hdrop : (encodeParts (p :: ps)).drop 4 =
        (offsetsFrom (4 + 4 * (ps.length + 1)) (p :: ps)).flatMap num ++ (p :: ps).flatten := by
      rw [encodeParts, List.drop_left' (length_num _)]
      rfl
    rw [List.length_cons] at hsize
    have hfirst : leNat (((encodeParts (p :: ps)).drop 4).take 4) = 4 + 4 * (ps.length + 1) := by
      rw [hdrop, offsetsFrom, List.flatMap_cons, List.append_assoc,
        List.take_left' (length_num _), leNat_num (by omega)]
    have hcount : (4 + 4 * (ps.length + 1)) / 4 - 1 =
        (offsetsFrom (4 + 4 * (ps.length + 1)) (p :: ps)).length := by
      rw [length_offsetsFrom, List.length_cons]
      omega
    have hoffs : ∀ x ∈ offsetsFrom (4 + 4 * (ps.length + 1)) (p :: ps), x < 2 ^ 32 := by
      intro x hx
      have hle := le_of_mem_offsetsFrom hx
      omega
    rw [if_neg (by omega)]
    dsimp only
    rw [hfirst, if_neg (by omega), hcount, hdrop, numsOf_flatMap hoffs]
    refine partsAt_offsetsFrom (by omega) ?_
    rw [encodeParts, ← List.append_assoc, List.drop_left']
    rw [List.length_append, length_num, length_flatMap_num, length_offsetsFrom, List.length_cons]

/-- Among the byte strings of less than `2 ^ 32` bytes, `dec` accepts the encodings and nothing
else. -/
def Decodes (dec : List UInt8 → Option α) (encode : α → List UInt8) : Prop :=
  ∀ bs a, bs.length < 2 ^ 32 → (dec bs = some a ↔ bs = encode a)

theorem Decodes.parts : Decodes decodeParts encodeParts := by
  intro bs ps hlen
  constructor
  · intro h
    exact (encodeParts_of_decodeParts h).1
  · rintro rfl
    exact decodeParts_encodeParts hlen

/-! ### Vectors -/

/-- A vector of bytes. -/
def decodeBytes (bs : List UInt8) : Option (List UInt8) :=
  if 4 + leNat (bs.take 4) = bs.length then some (bs.drop 4) else none

theorem Decodes.bytes : Decodes decodeBytes encodeBytes := by
  intro bs a hlen
  rw [decodeBytes]
  constructor
  · intro h
    split_ifs at h with hword
    obtain rfl := Option.some.inj h
    have hlength : (bs.drop 4).length = leNat (bs.take 4) := by
      rw [List.length_drop]
      omega
    rw [encodeBytes, hlength, num_leNat (List.length_take_of_le (by omega)),
      List.take_append_drop]
  · rintro rfl
    rw [length_encodeBytes] at hlen ⊢
    have hword : leNat ((encodeBytes a).take 4) = a.length := by
      rw [encodeBytes, List.take_left' (length_num _), leNat_num (by omega)]
    rw [hword, if_pos rfl, encodeBytes, List.drop_left' (length_num _)]

/-- Decode one after the other. -/
def decodeAll (dec : List UInt8 → Option α) : List (List UInt8) → Option (List α)
  | [] => some []
  | p :: ps => (dec p).bind fun a => (decodeAll dec ps).map fun as => a :: as

theorem decodeAll_eq_some {dec : List UInt8 → Option α} {encode : α → List UInt8}
    (h : Decodes dec encode) (hlen : ∀ p ∈ ps, p.length < 2 ^ 32) {as : List α} :
    decodeAll dec ps = some as ↔ ps = as.map encode := by
  induction ps generalizing as with
  | nil => cases as <;> simp [decodeAll]
  | cons p ps ih =>
    obtain ⟨hp, hps⟩ := List.forall_mem_cons.1 hlen
    rw [decodeAll, Option.bind_eq_some_iff]
    constructor
    · rintro ⟨a, ha, has⟩
      obtain ⟨as', has', rfl⟩ := Option.map_eq_some_iff.1 has
      rw [(h p a hp).1 ha, (ih hps).1 has', List.map_cons]
    · intro hmap
      obtain ⟨a, as, rfl, rfl, rfl⟩ := List.map_eq_cons_iff.1 hmap.symm
      exact ⟨a, (h _ a hp).2 rfl, Option.map_eq_some_iff.2 ⟨as, (ih hps).2 rfl, rfl⟩⟩

/-- The pieces of these lengths that follow each other. -/
def piecesOf : List ℕ → List UInt8 → List (List UInt8)
  | [], _ => []
  | n :: ns, bs => bs.take n :: piecesOf ns (bs.drop n)

theorem piecesOf_eq_iff {ns : List ℕ} (h : bs.length = ns.sum) :
    piecesOf ns bs = ps ↔ bs = ps.flatten ∧ ps.map List.length = ns := by
  induction ns generalizing bs ps with
  | nil =>
    obtain rfl := List.length_eq_zero_iff.1 h
    rw [piecesOf, List.map_eq_nil_iff]
    constructor
    · rintro rfl
      exact ⟨rfl, rfl⟩
    · exact fun hps => hps.2.symm
  | cons n ns ih =>
    rw [List.sum_cons] at h
    have hrest : (bs.drop n).length = ns.sum := by
      rw [List.length_drop]
      omega
    rw [piecesOf]
    constructor
    · rintro rfl
      obtain ⟨hflatten, hlengths⟩ := (ih hrest).1 rfl
      rw [List.flatten_cons, List.map_cons, ← hflatten, hlengths, List.take_append_drop,
        List.length_take_of_le (by omega)]
      exact ⟨rfl, rfl⟩
    · rintro ⟨rfl, hlengths⟩
      obtain ⟨p, ps, rfl, rfl, rfl⟩ := List.map_eq_cons_iff.1 hlengths
      rw [List.flatten_cons, List.drop_left] at hrest
      rw [List.flatten_cons, List.take_left, List.drop_left, (ih hrest).2 ⟨rfl, rfl⟩]

/-- A vector of items of `n` bytes. -/
def decodeFixVec (n : ℕ) (dec : List UInt8 → Option α) (bs : List UInt8) : Option (List α) :=
  if bs.length = 4 + n * leNat (bs.take 4) then
    decodeAll dec (piecesOf (List.replicate (leNat (bs.take 4)) n) (bs.drop 4))
  else none

theorem Decodes.fixVec {dec : List UInt8 → Option α} {encode : α → List UInt8} {n : ℕ}
    (h : Decodes dec encode) (hn : 0 < n) (hencode : ∀ a, (encode a).length = n) :
    Decodes (decodeFixVec n dec) fun as => encodeFixVec (as.map encode) := by
  intro bs as hlen
  change decodeFixVec n dec bs = some as ↔ bs = encodeFixVec (as.map encode)
  rw [decodeFixVec]
  constructor
  · intro hdec
    split_ifs at hdec with hword
    have hbody : (bs.drop 4).length = (List.replicate (leNat (bs.take 4)) n).sum := by
      rw [List.length_drop, List.sum_replicate_nat, Nat.mul_comm]
      omega
    obtain ⟨hflatten, hlengths⟩ := (piecesOf_eq_iff hbody).1 rfl
    have hpiece : ∀ p ∈ piecesOf (List.replicate (leNat (bs.take 4)) n) (bs.drop 4),
        p.length < 2 ^ 32 := by
      intro p hp
      have hle := (List.sublist_flatten_of_mem hp).length_le
      rw [← hflatten, List.length_drop] at hle
      omega
    have hmap := (decodeAll_eq_some h hpiece).1 hdec
    have hcount := congrArg List.length hlengths
    rw [List.length_map, List.length_replicate] at hcount
    rw [← hmap, encodeFixVec, hcount, ← hflatten, num_leNat (List.length_take_of_le (by omega)),
      List.take_append_drop]
  · rintro rfl
    have hlengths : (as.map encode).map List.length = List.replicate as.length n := by
      rw [List.map_map, ← List.map_const']
      exact List.map_congr_left fun a _ => hencode a
    have hflatten : (as.map encode).flatten.length = (List.replicate as.length n).sum := by
      rw [List.length_flatten, hlengths]
    have hsum : (List.replicate as.length n).sum = n * as.length := by
      rw [List.sum_replicate_nat, Nat.mul_comm]
    have hlen' : 4 + n * as.length < 2 ^ 32 := by
      rwa [length_encodeFixVec, hflatten, hsum] at hlen
    have hle := Nat.le_mul_of_pos_left as.length hn
    have hword : leNat ((encodeFixVec (as.map encode)).take 4) = as.length := by
      rw [encodeFixVec, List.take_left' (length_num _), List.length_map, leNat_num (by omega)]
    have hbody : (encodeFixVec (as.map encode)).drop 4 = (as.map encode).flatten := by
      rw [encodeFixVec, List.drop_left' (length_num _)]
    rw [hword, length_encodeFixVec, hflatten, hsum, if_pos rfl, hbody,
      (piecesOf_eq_iff hflatten).2 ⟨rfl, hlengths⟩]
    refine (decodeAll_eq_some h fun p hp => ?_).2 rfl
    have hle := (List.sublist_flatten_of_mem hp).length_le
    omega

/-! ### Fields -/

/-- The fields of a table or of a struct, each decoded by itself. -/
def DecodesFields (dec : List (List UInt8) → Option α) (parts : α → List (List UInt8)) : Prop :=
  ∀ ps a, (∀ p ∈ ps, p.length < 2 ^ 32) → (dec ps = some a ↔ ps = parts a)

/-- No more fields. -/
def decodeNil : List (List UInt8) → Option Unit
  | [] => some ()
  | _ :: _ => none

/-- A field, and those behind it. -/
def decodeCons (dec : List UInt8 → Option α) (decs : List (List UInt8) → Option β) :
    List (List UInt8) → Option (α × β)
  | [] => none
  | p :: ps => (dec p).bind fun a => (decs ps).map fun b => (a, b)

theorem DecodesFields.nil : DecodesFields decodeNil fun _ => [] := by
  intro ps a _
  cases ps <;> simp [decodeNil]

theorem DecodesFields.cons {dec : List UInt8 → Option α} {encode : α → List UInt8}
    {decs : List (List UInt8) → Option β} {parts : β → List (List UInt8)} (h : Decodes dec encode)
    (hs : DecodesFields decs parts) :
    DecodesFields (decodeCons dec decs) fun x => encode x.1 :: parts x.2 := by
  intro ps x hlen
  obtain ⟨a, b⟩ := x
  cases ps with
  | nil => simp [decodeCons]
  | cons p ps =>
    obtain ⟨hp, hps⟩ := List.forall_mem_cons.1 hlen
    rw [decodeCons, Option.bind_eq_some_iff, List.cons.injEq]
    constructor
    · rintro ⟨a', ha, hb⟩
      obtain ⟨b', hb', hpair⟩ := Option.map_eq_some_iff.1 hb
      obtain ⟨rfl, rfl⟩ := Prod.mk.inj hpair
      exact ⟨(h p _ hp).1 ha, (hs ps _ hps).1 hb'⟩
    · rintro ⟨ha, hb⟩
      exact ⟨a, (h p a hp).2 ha, Option.map_eq_some_iff.2 ⟨b, (hs ps b hps).2 hb, rfl⟩⟩

/-- A table with these fields. -/
def decodeTable (decs : List (List UInt8) → Option α) (bs : List UInt8) : Option α :=
  (decodeParts bs).bind decs

theorem Decodes.table {decs : List (List UInt8) → Option α} {parts : α → List (List UInt8)}
    (h : DecodesFields decs parts) : Decodes (decodeTable decs) fun a => encodeParts (parts a) := by
  intro bs a hlen
  rw [decodeTable, Option.bind_eq_some_iff]
  constructor
  · rintro ⟨ps, hps, ha⟩
    obtain ⟨rfl, -⟩ := encodeParts_of_decodeParts hps
    rw [(h ps a fun p hp => length_lt_of_mem hp hlen).1 ha]
  · rintro rfl
    refine ⟨_, decodeParts_encodeParts hlen, ?_⟩
    exact (h _ a fun p hp => length_lt_of_mem hp hlen).2 rfl

/-- A vector of items of any size. -/
def decodeDynVec (dec : List UInt8 → Option α) : List UInt8 → Option (List α) :=
  decodeTable (decodeAll dec)

theorem Decodes.dynVec {dec : List UInt8 → Option α} {encode : α → List UInt8}
    (h : Decodes dec encode) : Decodes (decodeDynVec dec) fun as => encodeParts (as.map encode) :=
  .table fun _ _ hlen => decodeAll_eq_some h hlen

/-- A struct with fields of these lengths. -/
def decodeStruct (ns : List ℕ) (decs : List (List UInt8) → Option α) (bs : List UInt8) :
    Option α :=
  if bs.length = ns.sum then decs (piecesOf ns bs) else none

theorem Decodes.struct {ns : List ℕ} {decs : List (List UInt8) → Option α}
    {parts : α → List (List UInt8)} (h : DecodesFields decs parts)
    (hns : ∀ a, (parts a).map List.length = ns) :
    Decodes (decodeStruct ns decs) fun a => (parts a).flatten := by
  intro bs a hlen
  rw [decodeStruct]
  by_cases hsum : bs.length = ns.sum
  · have hpiece : ∀ p ∈ piecesOf ns bs, p.length < 2 ^ 32 := by
      intro p hp
      have hle := (List.sublist_flatten_of_mem hp).length_le
      rw [← ((piecesOf_eq_iff hsum).1 rfl).1] at hle
      omega
    rw [if_pos hsum, h _ a hpiece, piecesOf_eq_iff hsum, and_iff_left (hns a)]
  · rw [if_neg hsum]
    refine iff_of_false (by simp) fun hbs => hsum ?_
    rw [hbs, List.length_flatten, hns]

/-- A value that is put together from what has been decoded. -/
theorem Decodes.map {dec : List UInt8 → Option α} {encode : α → List UInt8} (h : Decodes dec encode)
    {f : α → β} {g : β → α} (hfg : ∀ a, g (f a) = a) (hgf : ∀ b, f (g b) = b) :
    Decodes (fun bs => (dec bs).map f) fun b => encode (g b) := by
  intro bs b hlen
  rw [Option.map_eq_some_iff]
  constructor
  · rintro ⟨a, ha, rfl⟩
    exact ((h bs a hlen).1 ha).trans (congrArg encode (hfg a).symm)
  · intro hbs
    exact ⟨g b, (h bs _ hlen).2 hbs, hgf b⟩

end LedgerNervos
