import LedgerNervos.Molecule.Offsets
import LedgerNervos.Sign.Encoding

/-!
# Decoding a raw transaction by its offsets

The strict decoder of a raw transaction: what a node makes of the bytes that are hashed.  It goes by
the offsets in the headers and accepts nothing but encodings (`RawTransaction.decodes`).
-/

namespace LedgerNervos

/-! ### Fields of fixed size -/

/-- An array of `n` bytes. -/
def decodeArray (n : ℕ) (bs : List UInt8) : Option (Bytes n) :=
  if h : bs.length = n then some ⟨bs, h⟩ else none

theorem Decodes.array (n : ℕ) : Decodes (decodeArray n) fun a => a.1 := by
  intro bs a _
  rw [decodeArray]
  constructor
  · intro h
    split_ifs at h
    obtain rfl := Option.some.inj h
    rfl
  · rintro rfl
    exact dif_pos a.2

def decodeByte : List UInt8 → Option UInt8
  | [b] => some b
  | _ => none

theorem Decodes.byte : Decodes decodeByte fun b => [b] := by
  intro bs b _
  unfold decodeByte
  split
  · simp
  · rename_i hne
    exact iff_of_false (by simp) (hne b)

/-- An index. -/
def decodeUInt32 (bs : List UInt8) : Option UInt32 :=
  (decodeArray 4 bs).map fun a => UInt32.ofNat (leNat a.1)

theorem Decodes.uint32 : Decodes decodeUInt32 fun x => num x.toNat := by
  refine (Decodes.array 4).map (g := fun x : UInt32 => ⟨num x.toNat, length_num _⟩)
    (fun a => ?_) fun x => ?_
  · have hlt : leNat a.1 < 2 ^ 32 := (leNat_lt a.1).trans_eq (by rw [a.2]; rfl)
    apply Subtype.ext
    change num (UInt32.ofNat (leNat a.1)).toNat = a.1
    rw [UInt32.toNat_ofNat', Nat.mod_eq_of_lt hlt, num_leNat a.2]
  · rw [leNat_num x.toNat_lt, UInt32.ofNat_toNat]

/-- A capacity. -/
def decodeUInt64 (bs : List UInt8) : Option UInt64 :=
  (decodeArray 8 bs).map fun a => UInt64.ofNat (leNat a.1)

theorem Decodes.uint64 : Decodes decodeUInt64 fun x => leBytes 8 x.toNat := by
  refine (Decodes.array 8).map (g := fun x : UInt64 => ⟨leBytes 8 x.toNat, length_leBytes _ _⟩)
    (fun a => ?_) fun x => ?_
  · have hlt : leNat a.1 < 2 ^ 64 := (leNat_lt a.1).trans_eq (by rw [a.2]; rfl)
    have hbytes := leBytes_leNat a.1
    rw [a.2] at hbytes
    apply Subtype.ext
    change leBytes 8 (UInt64.ofNat (leNat a.1)).toNat = a.1
    rw [UInt64.toNat_ofNat', Nat.mod_eq_of_lt hlt, hbytes]
  · have hlt : x.toNat < 256 ^ 8 := x.toNat_lt
    rw [leNat_leBytes, Nat.mod_eq_of_lt hlt, UInt64.ofNat_toNat]

/-- An option: nothing, or a value. -/
def decodeOption {α : Type} (dec : List UInt8 → Option α) (bs : List UInt8) : Option (Option α) :=
  if bs = [] then some none else (dec bs).map some

theorem Decodes.option {α : Type} {dec : List UInt8 → Option α} {encode : α → List UInt8}
    (h : Decodes dec encode) (hne : ∀ a, encode a ≠ []) :
    Decodes (decodeOption dec) (encodeOption encode) := by
  intro bs a hlen
  rw [decodeOption]
  cases a with
  | none =>
    change _ ↔ bs = []
    split_ifs with hnil
    · exact iff_of_true rfl hnil
    · exact iff_of_false (by simp) hnil
  | some a =>
    change _ ↔ bs = encode a
    split_ifs with hnil
    · refine iff_of_false (by simp) fun hbs => hne a ?_
      rw [← hbs, hnil]
    · rw [← h bs a hlen, Option.map_eq_some_iff]
      simp

/-! ### The types of the schema -/

def Script.decode (bs : List UInt8) : Option Script :=
  (decodeTable (decodeCons (decodeArray 32) (decodeCons decodeByte
    (decodeCons decodeBytes decodeNil))) bs).map fun (codeHash, hashType, args, _) =>
      { codeHash, hashType, args }

theorem Script.decodes : Decodes Script.decode Script.encode :=
  (Decodes.table (.cons (.array 32) (.cons .byte (.cons .bytes .nil)))).map
    (g := fun s : Script => (s.codeHash, s.hashType, s.args, ())) (fun _ => rfl) fun _ => rfl

def OutPoint.decode (bs : List UInt8) : Option OutPoint :=
  (decodeStruct [32, 4] (decodeCons (decodeArray 32) (decodeCons decodeUInt32 decodeNil)) bs).map
    fun (txHash, index, _) => { txHash, index }

theorem OutPoint.decodes : Decodes OutPoint.decode OutPoint.encode :=
  (Decodes.struct (.cons (.array 32) (.cons .uint32 .nil)) fun a => by simp [a.1.2]).map
    (g := fun p : OutPoint => (p.txHash, p.index, ())) (fun _ => rfl) fun _ => rfl

def CellInput.decode (bs : List UInt8) : Option CellInput :=
  (decodeStruct [8, 36] (decodeCons (decodeArray 8) (decodeCons OutPoint.decode decodeNil)) bs).map
    fun (since, previousOutput, _) => { since, previousOutput }

theorem CellInput.decodes : Decodes CellInput.decode CellInput.encode :=
  (Decodes.struct (.cons (.array 8) (.cons OutPoint.decodes .nil)) fun a => by simp [a.1.2]).map
    (g := fun i : CellInput => (i.since, i.previousOutput, ())) (fun _ => rfl) fun _ => rfl

def CellDep.decode (bs : List UInt8) : Option CellDep :=
  (decodeStruct [36, 1] (decodeCons OutPoint.decode (decodeCons decodeByte decodeNil)) bs).map
    fun (outPoint, depType, _) => { outPoint, depType }

theorem CellDep.decodes : Decodes CellDep.decode CellDep.encode :=
  (Decodes.struct (.cons OutPoint.decodes (.cons .byte .nil)) fun a => by simp).map
    (g := fun d : CellDep => (d.outPoint, d.depType, ())) (fun _ => rfl) fun _ => rfl

def CellOutput.decode (bs : List UInt8) : Option CellOutput :=
  (decodeTable (decodeCons decodeUInt64 (decodeCons Script.decode
    (decodeCons (decodeOption Script.decode) decodeNil))) bs).map fun (capacity, lock, type_, _) =>
      { capacity, lock, type_ }

theorem CellOutput.decodes : Decodes CellOutput.decode CellOutput.encode := by
  have hscript : ∀ s : Script, s.encode ≠ [] := fun s =>
    List.ne_nil_of_length_pos (encodeParts_pos _)
  exact (Decodes.table (.cons .uint64 (.cons Script.decodes
    (.cons (.option Script.decodes hscript) .nil)))).map
      (g := fun o : CellOutput => (o.capacity, o.lock, o.type_, ())) (fun _ => rfl) fun _ => rfl

/-- **The strict decoder** of a raw transaction. -/
def RawTransaction.decode (bs : List UInt8) : Option RawTransaction :=
  (decodeTable (decodeCons (decodeArray 4) (decodeCons (decodeFixVec 37 CellDep.decode)
    (decodeCons (decodeFixVec 32 (decodeArray 32)) (decodeCons (decodeFixVec 44 CellInput.decode)
      (decodeCons (decodeDynVec CellOutput.decode) (decodeCons (decodeDynVec decodeBytes)
        decodeNil)))))) bs).map
    fun (version, cellDeps, headerDeps, inputs, outputs, outputsData, _) =>
      { version, cellDeps, headerDeps, inputs, outputs, outputsData }

/-- What decodes is the encoding of what it is decoded to, and every encoding decodes. -/
theorem RawTransaction.decodes : Decodes RawTransaction.decode RawTransaction.encode :=
  (Decodes.table (.cons (.array 4)
    (.cons (.fixVec CellDep.decodes (by decide) CellDep.length_encode)
    (.cons (.fixVec (.array 32) (by decide) fun a => a.2)
      (.cons (.fixVec CellInput.decodes (by decide) CellInput.length_encode)
        (.cons (.dynVec CellOutput.decodes) (.cons (.dynVec .bytes) .nil))))))).map
    (g := fun t : RawTransaction => (t.version, t.cellDeps, t.headerDeps, t.inputs, t.outputs,
      t.outputsData, ())) (fun _ => rfl) fun _ => rfl

/-- A byte string that decodes is an encoding, and is not too long. -/
theorem RawTransaction.eq_encode {bs : List UInt8} {t : RawTransaction}
    (h : RawTransaction.decode bs = some t) : bs = t.encode ∧ bs.length < 2 ^ 32 := by
  obtain ⟨x, hx, -⟩ := Option.map_eq_some_iff.1 h
  obtain ⟨ps, hps, -⟩ := Option.bind_eq_some_iff.1 hx
  obtain ⟨-, hlen⟩ := encodeParts_of_decodeParts hps
  exact ⟨(RawTransaction.decodes bs t hlen).1 h, hlen⟩

end LedgerNervos
