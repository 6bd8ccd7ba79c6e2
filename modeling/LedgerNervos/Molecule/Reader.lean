import LedgerNervos.Molecule.Chunk

/-!
# Resumable readers of the Molecule format

A streaming Molecule reader keeps a parser state between calls.  Each call gets the next chunk,
continues where the last one stopped, and reports whether it needs more bytes
(`Rv.incomplete`), has read its whole value (`Rv.complete`) or refuses the input (`Rv.reject`).
What it finds on the way it announces by calling the callbacks it was given; here a callback that
is called is an *event*, and a call returns the list of events in the order of the calls.

The readers are built from combinators, one for each kind of Molecule type: `Reader.array`,
`Reader.byte`, `Reader.struct`, `Reader.bytes`, `Reader.fixVec`, `Reader.option`, `Reader.table`
and `Reader.dynVec`.  `Reader.close` adds the callbacks that every type has: `start`, `chunk`
(every piece of the value, as it is consumed) and `finish`.
-/

namespace LedgerNervos

/-- Outcome of a call of a parse function. -/
inductive Rv where
  | incomplete
  | complete
  | reject
deriving DecidableEq, Repr

/-- What a call of a parse function leaves behind. -/
structure Out (σ ε : Type) where
  rv : Rv
  /-- The parser state for the next call. -/
  st : σ
  /-- The part of the chunk that has not been consumed. -/
  rest : Chunk
  /-- The callbacks that were called. -/
  evs : List ε
  /-- The function left by a plain `return`, without calling its own `chunk` callback. -/
  bare : Bool

/-- Put events before those of a call. -/
def Out.after {σ ε : Type} (es : List ε) (o : Out σ ε) : Out σ ε := { o with evs := es ++ o.evs }

/-- Change the type of the state that a call leaves behind. -/
def Out.mapState {σ τ ε : Type} (f : σ → τ) (o : Out σ ε) : Out τ ε :=
  ⟨o.rv, f o.st, o.rest, o.evs, o.bare⟩

/-- A resumable reader: the parser state, the events of its initialisation, and its parse
function, which is told the size its parent expects. -/
structure Reader (ε : Type) where
  State : Type
  init : State
  start : List ε
  parse : UInt32 → State → Chunk → Out State ε

/-- The size that stands for "not known": no size check is made. -/
def molNumMax : UInt32 := 0xFFFFFFFF

/-- A declared size is accepted when it is the expected one, or when none is expected. -/
def sizeOk (expected declared : UInt32) : Bool := expected == molNumMax || declared == expected

/-- A little-endian number. -/
def leNat : List UInt8 → ℕ
  | [] => 0
  | b :: bs => b.toNat + 256 * leNat bs

/-- A 32-bit number from its little-endian bytes. -/
def molUnpackNumber (bs : List UInt8) : UInt32 := UInt32.ofNat (leNat bs)

/-- Little-endian bytes of a number. -/
def leBytes : ℕ → ℕ → List UInt8
  | 0, _ => []
  | n + 1, x => UInt8.ofNat x :: leBytes n (x / 256)

@[simp] theorem length_leBytes (n x : ℕ) : (leBytes n x).length = n := by
  induction n generalizing x with
  | zero => rfl
  | succ n ih => simp [leBytes, ih]

/-- Result of collecting a fixed number of bytes. -/
inductive Fill where
  | more (buf : List UInt8)
  | full (bytes : List UInt8) (rest : Chunk)

/-- Collect `n` bytes, of which `buf` are there already. -/
def fill (n : ℕ) (buf : List UInt8) (c : Chunk) : Fill :=
  if c.length < n - buf.length then .more (buf ++ c.bytes)
  else .full (buf ++ c.bytes.take (n - buf.length)) (c.drop (n - buf.length))

/-- All of the chunk consumed. -/
def Chunk.spent (c : Chunk) : Chunk := c.drop c.length

/-- The callbacks that every composite type has. -/
structure Hooks (ε : Type) where
  start : List ε := []
  chunk : Chunk → List ε := fun _ => []
  finish : List ε := []

namespace Reader

variable {ε : Type}

/-- Call `chunk` on what a call consumed, and `finish` when the value is complete. -/
def parseClose (h : Hooks ε) (r : Reader ε) (size : UInt32) (s : r.State) (c : Chunk) :
    Out r.State ε :=
  let o := r.parse size s c
  { o with
    evs := o.evs ++ (if o.bare then [] else h.chunk (c.take (c.length - o.rest.length))) ++
      (if o.rv = .complete then h.finish else [])
    bare := false }

/-- Add the callbacks that every composite type has. -/
def close (h : Hooks ε) (r : Reader ε) : Reader ε where
  State := r.State
  init := r.init
  start := h.start ++ r.start
  parse := parseClose h r

/-! ### Arrays and single bytes -/

/-- Collect the `n` bytes of an array. -/
def parseArray (n : ℕ) (finish : List UInt8 → List ε) (buf : List UInt8) (c : Chunk) :
    Out (List UInt8) ε :=
  match fill n buf c with
  | .more buf => ⟨.incomplete, buf, c.spent, [], false⟩
  | .full bs rest => ⟨.complete, bs, rest, finish bs, false⟩

/-- A byte array of fixed length, handed over when it is complete. -/
def array (n : ℕ) (finish : List UInt8 → List ε) : Reader ε where
  State := List UInt8
  init := []
  start := []
  parse _ := parseArray n finish

/-- Read one byte, whose expected size has to be one. -/
def parseByte (finish : UInt8 → List ε) (size : UInt32) (_ : Unit) (c : Chunk) : Out Unit ε :=
  if size ≠ 1 then ⟨.reject, (), c, [], true⟩
  else match c.bytes with
    | [] => ⟨.incomplete, (), c, [], false⟩
    | b :: _ => ⟨.complete, (), c.drop 1, finish b, false⟩

/-- One byte. -/
def byte (finish : UInt8 → List ε) : Reader ε where
  State := Unit
  init := ()
  start := []
  parse := parseByte finish

/-! ### Fields, one after the other -/

/-- State of the fields of a struct or a table: the state of the field being read. -/
def FieldsState : List (Reader ε) → Type
  | [] => Unit
  | r :: rs => r.State ⊕ FieldsState rs

/-- Reading the first field. -/
def FieldsState.here {r : Reader ε} {rs : List (Reader ε)} (s : r.State) :
    FieldsState (r :: rs) := .inl s

/-- Reading one of the fields after the first. -/
def FieldsState.there {r : Reader ε} {rs : List (Reader ε)} (s : FieldsState rs) :
    FieldsState (r :: rs) := .inr s

/-- The first field, initialised. -/
def initFields : (rs : List (Reader ε)) → FieldsState rs
  | [] => ()
  | r :: _ => .here r.init

/-- Events of initialising the first field. -/
def startFields : List (Reader ε) → List ε
  | [] => []
  | r :: _ => r.start

/-- Continue with the field being read, then with the fields after it. -/
def parseFields : (rs : List (Reader ε)) → List UInt32 → FieldsState rs → Chunk →
    Out (FieldsState rs) ε
  | [], _, _, c => ⟨.complete, (), c, [], false⟩
  | _ :: rs, sizes, .inr s, c => (parseFields rs sizes.tail s c).mapState .there
  | r :: rs, sizes, .inl s, c =>
    let o := r.parse (sizes.headD 0) s c
    if o.rv = .complete then
      ((parseFields rs sizes.tail (initFields rs) o.rest).mapState .there).after
        (o.evs ++ startFields rs)
    else ⟨o.rv, .here o.st, o.rest, o.evs, false⟩

theorem parseFields_there (r : Reader ε) (rs : List (Reader ε)) (sizes : List UInt32)
    (s : FieldsState rs) (c : Chunk) :
    parseFields (r :: rs) sizes (.there s) c =
      (parseFields rs sizes.tail s c).mapState .there := rfl

theorem parseFields_here (r : Reader ε) (rs : List (Reader ε)) (sizes : List UInt32)
    (s : r.State) (c : Chunk) :
    parseFields (r :: rs) sizes (.here s) c =
      if (r.parse (sizes.headD 0) s c).rv = .complete then
        ((parseFields rs sizes.tail (initFields rs) (r.parse (sizes.headD 0) s c).rest).mapState
          .there).after ((r.parse (sizes.headD 0) s c).evs ++ startFields rs)
      else ⟨(r.parse (sizes.headD 0) s c).rv, .here (r.parse (sizes.headD 0) s c).st,
        (r.parse (sizes.headD 0) s c).rest, (r.parse (sizes.headD 0) s c).evs, false⟩ := rfl

/-- Check the size of a struct, and go on with its fields. -/
def parseStruct (size : UInt32) (sizes : List UInt32) (rs : List (Reader ε)) (size' : UInt32)
    (s : FieldsState rs) (c : Chunk) : Out (FieldsState rs) ε :=
  if !sizeOk size' size then ⟨.reject, s, c, [], true⟩ else parseFields rs sizes s c

/-- A struct: fields of known sizes, without a header. -/
def struct (size : UInt32) (sizes : List UInt32) (rs : List (Reader ε)) : Reader ε where
  State := FieldsState rs
  init := initFields rs
  start := startFields rs
  parse := parseStruct size sizes rs

/-! ### Tables -/

/-- Sizes of the fields of a table, from the numbers of its header: the total size and the
offsets.  The differences are taken modulo `2 ^ 32`. -/
def tableSizes : List UInt32 → List UInt32
  | [] => []
  | total :: offs => List.zipWith (· - ·) (offs.tail ++ [total]) offs

/-- State of a table: reading the numbers of the header, or the fields. -/
inductive TableState (φ : Type) where
  | header (words : List UInt32) (num : List UInt8)
  | body (words : List UInt32) (fields : φ)

/-- Read the remaining `k` numbers of a table's header, then the fields. -/
def parseHeader (rs : List (Reader ε)) (offsets : List UInt32 → List ε) (size : UInt32) :
    ℕ → List UInt32 → List UInt8 → Chunk → Out (TableState (FieldsState rs)) ε
  | 0, words, _, c =>
    ((parseFields rs (tableSizes words) (initFields rs) c).mapState (.body words)).after
      (startFields rs ++ offsets words)
  | k + 1, words, num, c =>
    match fill 4 num c with
    | .more num => ⟨.incomplete, .header words num, c.spent, [], false⟩
    | .full bs rest =>
      if words = [] ∧ !sizeOk size (molUnpackNumber bs) then
        ⟨.reject, .header [] [], rest, [], true⟩
      else parseHeader rs offsets size k (words ++ [molUnpackNumber bs]) [] rest

/-- Continue with the header or with the fields of a table. -/
def parseTable (offsets : List UInt32 → List ε) (rs : List (Reader ε)) (size : UInt32)
    (s : TableState (FieldsState rs)) (c : Chunk) : Out (TableState (FieldsState rs)) ε :=
  match s with
  | .header words num => parseHeader rs offsets size (rs.length + 1 - words.length) words num c
  | .body words fields => (parseFields rs (tableSizes words) fields c).mapState (.body words)

/-- A table: the total size, an offset for each field, the fields.  The offsets are only used
for the sizes of the fields, which are read one after the other. -/
def table (offsets : List UInt32 → List ε) (rs : List (Reader ε)) : Reader ε where
  State := TableState (FieldsState rs)
  init := .header [] []
  start := []
  parse := parseTable offsets rs

/-! ### Vectors of bytes -/

/-- State of a byte vector: reading the length, or the bytes, of which `left` are missing. -/
inductive BytesState where
  | header (num : List UInt8)
  | body (left : ℕ)
deriving DecidableEq

/-- Hand over what the chunk holds of the missing bytes. -/
def parseBody (bodyChunk : Chunk → List ε) (left : ℕ) (c : Chunk) : Out BytesState ε :=
  let copy := min left c.length
  let evs := if left = 0 then [] else bodyChunk (c.take copy)
  if 0 < left - copy then ⟨.incomplete, .body (left - copy), c.drop copy, evs, true⟩
  else ⟨.complete, .body 0, c.drop copy, evs, false⟩

/-- Continue with the length or with the body of a byte vector. -/
def parseBytes (size : UInt32 → List ε × Bool) (bodyChunk : Chunk → List ε) (size' : UInt32)
    (s : BytesState) (c : Chunk) : Out BytesState ε :=
  match s with
  | .body left => parseBody bodyChunk left c
  | .header num =>
    match fill 4 num c with
    | .more num => ⟨.incomplete, .header num, c.spent, [], false⟩
    | .full bs rest =>
      let length := molUnpackNumber bs
      if 2 ^ 32 ≤ length.toNat + 4 then ⟨.reject, .body length.toNat, rest, [], true⟩
      else if !sizeOk size' (length + 4) then ⟨.reject, .body length.toNat, rest, [], true⟩
      else if !(size (length + 4)).2 then
        ⟨.reject, .body length.toNat, rest, (size (length + 4)).1, true⟩
      else (parseBody bodyChunk length.toNat rest).after (size (length + 4)).1

/-- A vector of bytes.  `size` is asked about the size with the length prefix; the body is
handed over in the pieces in which it arrives. -/
def bytes (size : UInt32 → List ε × Bool) (bodyChunk : Chunk → List ε) : Reader ε where
  State := BytesState
  init := .header []
  start := []
  parse := parseBytes size bodyChunk

/-! ### Options -/

/-- Nothing to read when the expected size is zero, and the item otherwise. -/
def parseOption (r : Reader ε) (size : UInt32) (s : r.State) (c : Chunk) : Out r.State ε :=
  if size = 0 then ⟨.complete, s, c, [], false⟩
  else { r.parse size s c with bare := false }

/-- An option: absent when the expected size is zero. -/
def option (r : Reader ε) : Reader ε where
  State := r.State
  init := r.init
  start := r.start
  parse := parseOption r

/-! ### Vectors of items -/

/-- Read `left` items, the next one having number `idx`. -/
def parseItems {σ : Type} (r : Reader ε) (index : UInt32 → List ε) (size : UInt32)
    (wrap : UInt32 → ℕ → r.State → σ) : ℕ → UInt32 → r.State → Chunk → Out σ ε
  | 0, idx, s, c => ⟨.complete, wrap idx 0 s, c, [], false⟩
  | left + 1, idx, s, c =>
    let o := r.parse size s c
    if o.rv = .complete then
      (parseItems r index size wrap left (idx + 1) r.init o.rest).after
        (o.evs ++ r.start ++ index (idx + 1))
    else ⟨o.rv, wrap idx (left + 1) o.st, o.rest, o.evs, false⟩

/-- State of a vector of items of fixed size. -/
inductive FixVecState (σ : Type) where
  | header (num : List UInt8)
  | items (idx : UInt32) (left : ℕ) (s : σ)

/-- Continue with the length or with the items of a vector. -/
def parseFixVec (itemSize : UInt32) (size : UInt32 → List ε × Bool) (index : UInt32 → List ε)
    (r : Reader ε) (size' : UInt32) (s : FixVecState r.State) (c : Chunk) :
    Out (FixVecState r.State) ε :=
  match s with
  | .items idx left s => parseItems r index itemSize .items left idx s c
  | .header num =>
    match fill 4 num c with
    | .more num => ⟨.incomplete, .header num, c.spent, [], false⟩
    | .full bs rest =>
      let length := molUnpackNumber bs
      if 2 ^ 32 ≤ length.toNat * itemSize.toNat then
        ⟨.reject, .items 0 length.toNat r.init, rest, [], true⟩
      else if 2 ^ 32 ≤ length.toNat * itemSize.toNat + 4 then
        ⟨.reject, .items 0 length.toNat r.init, rest, [], true⟩
      else if !sizeOk size' (length * itemSize + 4) then
        ⟨.reject, .items 0 length.toNat r.init, rest, [], true⟩
      else if !(size (length * itemSize + 4)).2 then
        ⟨.reject, .items 0 length.toNat r.init, rest, (size (length * itemSize + 4)).1, true⟩
      else
        (parseItems r index itemSize .items length.toNat 0 r.init rest).after
          ((size (length * itemSize + 4)).1 ++ r.start ++ index 0)

/-- A vector of items of `itemSize` bytes each. -/
def fixVec (itemSize : UInt32) (size : UInt32 → List ε × Bool) (index : UInt32 → List ε)
    (r : Reader ε) : Reader ε where
  State := FixVecState r.State
  init := .header []
  start := []
  parse := parseFixVec itemSize size index r

/-- State of a vector with offsets. -/
inductive DynVecState (σ : Type) where
  | total (num : List UInt8)
  | first (num : List UInt8)
  | offsets (count : UInt32) (left : ℕ) (num : List UInt8)
  | items (idx : UInt32) (left : ℕ) (s : σ)

/-- Number of items of a vector, from the offset of the first one. -/
def itemCount (firstOffset : UInt32) : UInt32 := (firstOffset >>> 2) - 1

/-- Skip the `left` remaining offsets, then read the items. -/
def parseOffsets (r : Reader ε) (length index : UInt32 → List ε) (count : UInt32) :
    ℕ → List UInt8 → Chunk → Out (DynVecState r.State) ε
  | 0, _, c =>
    (parseItems r index molNumMax .items count.toNat 0 r.init c).after
      (r.start ++ length count ++ index 0)
  | left + 1, num, c =>
    match fill 4 num c with
    | .more num => ⟨.incomplete, .offsets count (left + 1) num, c.spent, [], false⟩
    | .full _ rest => parseOffsets r length index count left [] rest

/-- Read the offset of the first item, and go on. -/
def parseFirst (r : Reader ε) (length index : UInt32 → List ε) (num : List UInt8) (c : Chunk) :
    Out (DynVecState r.State) ε :=
  match fill 4 num c with
  | .more num => ⟨.incomplete, .first num, c.spent, [], false⟩
  | .full bs rest =>
    let count := itemCount (molUnpackNumber bs)
    parseOffsets r length index count (count.toNat - 1) [] rest

/-- Continue with the total size, the offsets or the items of a vector. -/
def parseDynVec (length index : UInt32 → List ε) (r : Reader ε) (size : UInt32)
    (s : DynVecState r.State) (c : Chunk) : Out (DynVecState r.State) ε :=
  match s with
  | .total num =>
    match fill 4 num c with
    | .more num => ⟨.incomplete, .total num, c.spent, [], false⟩
    | .full bs rest =>
      if molUnpackNumber bs = 4 then ⟨.complete, .total [], rest, [], false⟩
      else if !sizeOk size (molUnpackNumber bs) then ⟨.reject, .total [], rest, [], true⟩
      else parseFirst r length index [] rest
  | .first num => parseFirst r length index num c
  | .offsets count left num => parseOffsets r length index count left num c
  | .items idx left s => parseItems r index molNumMax .items left idx s c

/-- A vector of items of any size: the total size, the offsets, the items.  Of the offsets only
the first one is used, for the number of items; the items are read one after the other. -/
def dynVec (length index : UInt32 → List ε) (r : Reader ε) : Reader ε where
  State := DynVecState r.State
  init := .total []
  start := []
  parse := parseDynVec length index r

/-! ### Values that are complete -/

/-- When the fields have been read, another call reads nothing. -/
theorem parseFields_complete {rs : List (Reader ε)} {sizes : List UInt32} {s : FieldsState rs}
    {c : Chunk} (h : (parseFields rs sizes s c).rv = .complete) (sizes' : List UInt32)
    (c' : Chunk) :
    parseFields rs sizes' (parseFields rs sizes s c).st c' =
      ⟨.complete, (parseFields rs sizes s c).st, c', [], false⟩ := by
  induction rs generalizing sizes sizes' c with
  | nil => rfl
  | cons r rs ih =>
    cases s with
    | inr s =>
      rw [show Sum.inr s = FieldsState.there (r := r) s from rfl, parseFields_there] at h ⊢
      change parseFields (r :: rs) sizes' (.there (parseFields rs sizes.tail s c).st) c' = _
      rw [parseFields_there, ih h sizes'.tail]
      rfl
    | inl s =>
      rw [show Sum.inl s = @FieldsState.here _ r rs s from rfl, parseFields_here] at h ⊢
      by_cases hfirst : (r.parse (sizes.headD 0) s c).rv = .complete
      · rw [if_pos hfirst] at h ⊢
        change parseFields (r :: rs) sizes' (.there (parseFields rs sizes.tail (initFields rs)
          (r.parse (sizes.headD 0) s c).rest).st) c' = _
        rw [parseFields_there, ih h sizes'.tail]
        rfl
      · rw [if_neg hfirst] at h
        exact absurd h hfirst

theorem parseHeader_complete {rs : List (Reader ε)} {offsets : List UInt32 → List ε}
    {size : UInt32} {k : ℕ} {words : List UInt32} {num : List UInt8} {c : Chunk}
    (h : (parseHeader rs offsets size k words num c).rv = .complete) (size' : UInt32)
    (c' : Chunk) :
    parseTable offsets rs size' (parseHeader rs offsets size k words num c).st c' =
      ⟨.complete, (parseHeader rs offsets size k words num c).st, c', [], false⟩ := by
  induction k generalizing words num c with
  | zero =>
    rw [parseHeader] at h ⊢
    change ((parseFields rs (tableSizes words)
      (parseFields rs (tableSizes words) (initFields rs) c).st c').mapState _) = _
    rw [parseFields_complete h]
    rfl
  | succ k ih =>
    rw [parseHeader] at h ⊢
    cases hfill : fill 4 num c with
    | more num => simp only [hfill] at h; cases h
    | full bs rest =>
      simp only [hfill] at h ⊢
      split_ifs at h ⊢ with hsize
      exact ih h

/-- When a table has been read, another call reads nothing. -/
theorem parseTable_complete {rs : List (Reader ε)} {offsets : List UInt32 → List ε}
    {size : UInt32} {s : TableState (FieldsState rs)} {c : Chunk}
    (h : (parseTable offsets rs size s c).rv = .complete) (size' : UInt32) (c' : Chunk) :
    parseTable offsets rs size' (parseTable offsets rs size s c).st c' =
      ⟨.complete, (parseTable offsets rs size s c).st, c', [], false⟩ := by
  cases s with
  | header words num => exact parseHeader_complete h size' c'
  | body words fields =>
    change ((parseFields rs (tableSizes words) (parseFields rs (tableSizes words) fields c).st
      c').mapState _) = _
    rw [parseFields_complete h]
    rfl

end Reader

end LedgerNervos
