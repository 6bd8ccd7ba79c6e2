import LedgerNervos.Display.Strings

/-!
# Amounts in a buffer

What the functions for numbers and amounts leave in a buffer.  An amount is rendered exactly
(`fracCkbToString_exact`).  The functions that are given the size of the buffer compare it with a
bound in terms of `MAX_INT_DIGITS`; `amountCall_guarded_iff` says for which sizes and values this
keeps them within the buffer.
-/

namespace LedgerNervos

/-- A string stands in the memory, with a zero behind it. -/
structure Store.HoldsString (s : Store Char) (pos : ℕ) (text : List Char) : Prop where
  read : s.read pos (text.length + 1) = text ++ [nul]
  nul : nul ∉ text

theorem Store.holdsString_write (s : Store Char) (pos : ℕ) {text : List Char} (h : nul ∉ text) :
    (s.write pos (text ++ [LedgerNervos.nul])).HoldsString pos text where
  read := by
    rw [Store.read_write _ _ _ (by simp)]
    exact List.take_of_length_le (by simp)
  nul := h

/-- What can be read back one by one is read back as a list. -/
theorem mapM_map_of_read_back {α β : Type} {write : α → β} {read : β → Option α} {as : List α}
    (h : ∀ a ∈ as, read (write a) = some a) : (as.map write).mapM read = some as := by
  induction as with
  | nil => rfl
  | cons a as ih =>
    obtain ⟨ha, has⟩ := List.forall_mem_cons.1 h
    rw [List.map_cons, List.mapM_cons, ha, ih has]
    rfl

/-! ### The characters of numbers and amounts -/

theorem isDigit_nul : nul.isDigit = false := by decide

theorem nul_notMem_numberToString (number : UInt64) : nul ∉ numberToString number := by
  rw [numberToString_eq]
  intro hmem
  have hdigit := Nat.isDigit_of_mem_toDigits (by decide) (by decide) hmem
  rw [isDigit_nul] at hdigit
  cases hdigit

theorem Decimal.Canonical.nul_notMem {d : Decimal} (h : d.Canonical) : nul ∉ d.text := by
  intro hmem
  rcases List.mem_append.1 hmem with hmem | hmem
  · have hdigit := h.whole _ hmem
    rw [isDigit_nul] at hdigit
    cases hdigit
  · split_ifs at hmem with hnil
    · cases hmem
    · rcases List.mem_cons.1 hmem with hpoint | hmem
      · exact absurd hpoint (by decide)
      · have hdigit := h.fraction _ hmem
        rw [isDigit_nul] at hdigit
        cases hdigit

theorem nul_notMem_fracCkbToString (number : UInt64) : nul ∉ fracCkbToString number := by
  rw [fracCkbToString_eq]
  exact (canonical_decimal ..).nul_notMem

/-! ### Amounts are rendered exactly -/

/-- A text is the numeral of an amount, without superfluous characters. -/
structure AmountText (number : UInt64) (text : List Char) (d : Decimal) : Prop where
  parse : parseDecimal text = some d
  written : d.text = text
  value : d.value = number.toNat / 10 ^ ckbPlaces
  /-- There are only digits, and no superfluous zeros among them. -/
  canonical : d.Canonical
  point : '.' ∈ text ↔ number.toNat % 10 ^ ckbPlaces ≠ 0
  places : '.' ∈ text → 1 ≤ d.fraction.length ∧ d.fraction.length ≤ ckbPlaces

theorem Decimal.Canonical.point_mem_text_iff {d : Decimal} (h : d.Canonical) :
    '.' ∈ d.text ↔ d.fraction ≠ [] := by
  rw [Decimal.text, List.mem_append]
  have hwhole : '.' ∉ d.whole := fun hmem => absurd (h.whole _ hmem) (by decide)
  split_ifs with hnil
  · simp [hwhole, hnil]
  · simp [hnil]

theorem amountText_fracCkbToString (number : UInt64) :
    AmountText number (fracCkbToString number) (decimal ckbPlaces number.toNat) := by
  have hcanonical := canonical_decimal ckbPlaces number.toNat
  rw [fracCkbToString_eq]
  refine ⟨hcanonical.parse, rfl, value_decimal .., hcanonical, ?_, fun hpoint => ?_⟩
  · rw [hcanonical.point_mem_text_iff, Ne, fraction_eq_nil_iff]
  · exact ⟨List.length_pos_iff.2 (hcanonical.point_mem_text_iff.1 hpoint), length_fraction_le ..⟩

/-- The amount is found again in its text. -/
theorem units_parse_fracCkbToString (number : UInt64) :
    (parseDecimal (fracCkbToString number)).bind (Decimal.units ckbPlaces) =
      some number.toNat := by
  rw [(amountText_fracCkbToString number).parse]
  exact units_decimal ..

/-- **Amounts** are rendered exactly: the text in memory is a numeral of the amount without
superfluous characters, its length is returned, and the amount can be read from it. -/
theorem fracCkbToString_exact :
    (∀ (number : UInt64) (dest : ℕ) (s : Store Char), ∃ s',
      (Print.fracCkbToString dest number).exec s = (.ok (fracCkbToString number).length, s') ∧
        s'.HoldsString dest (fracCkbToString number)) ∧
      (∀ number, ∃ d, AmountText number (fracCkbToString number) d) ∧
      Function.Injective fracCkbToString ∧
      ∀ number, (parseDecimal (fracCkbToString number)).bind (Decimal.units ckbPlaces) =
        some number.toNat := by
  refine ⟨fun number dest s => ⟨_, Print.fracCkbToString_writes dest number s,
      s.holdsString_write dest (nul_notMem_fracCkbToString number)⟩,
    fun number => ⟨_, amountText_fracCkbToString number⟩, fun m n h => ?_,
    units_parse_fracCkbToString⟩
  have hunits := units_parse_fracCkbToString m
  rw [h, units_parse_fracCkbToString n] at hunits
  exact UInt64.toNat_inj.1 (Option.some.inj hunits).symm

example : fracCkbToString 1844674407370955161 = "18446744073.70955161".toList := by decide +kernel

/-! ### The guards -/

/-- A call of one of the functions that are given the size of the buffer. -/
inductive AmountCall where
  | number64 (number : UInt64)
  | number32 (number : UInt32)
  | fracCkb (number : UInt64)
  | fracCkbTuple (tuple : UInt64 × UInt64)
  | uint64Tuple (tuple : UInt64 × UInt64)

namespace AmountCall

/-- The function that is called. -/
def run (dest buffSize : ℕ) : AmountCall → Print Unit
  | number64 number => Print.numberToStringIndirect64 dest buffSize number
  | number32 number => Print.numberToStringIndirect32 dest buffSize number
  | fracCkb number => Print.fracCkbToStringIndirect dest buffSize number
  | fracCkbTuple tuple => Print.fracCkbTupleToStringIndirect dest buffSize tuple
  | uint64Tuple tuple => Print.uint64TupleToString dest buffSize tuple

/-- The call throws without writing, or writes a string that lies within the buffer. -/
def Guarded (c : AmountCall) (buffSize : ℕ) : Prop :=
  ∀ (dest : ℕ) (s : Store Char), (∃ e, (c.run dest buffSize).exec s = (.error e, s)) ∨
    ∃ text, nul ∉ text ∧ (c.run dest buffSize).exec s = (.ok (), s.write dest (text ++ [nul])) ∧
      text.length + 1 ≤ buffSize

end AmountCall

/-- An amount of 21 characters. -/
def LongAmount (number : UInt64) : Prop := 10 ^ 19 ≤ number.toNat ∧ number.toNat % 10 ≠ 0

/-- An amount of 20 characters. -/
def LongishAmount (number : UInt64) : Prop :=
  10 ^ 19 ≤ number.toNat ∧ number.toNat % 10 = 0 ∧ number.toNat % 100 ≠ 0 ∨
    10 ^ 18 ≤ number.toNat ∧ number.toNat < 10 ^ 19 ∧ number.toNat % 10 ≠ 0

/-- The size of the buffer is refused, or the value fits. -/
def AmountCall.Fits (buffSize : ℕ) : AmountCall → Prop
  | number64 _ => True
  | number32 _ => True
  | fracCkb number => ¬ (buffSize = 21 ∧ LongAmount number)
  | fracCkbTuple (fst, snd) =>
    ¬ (buffSize = 45 ∧ (LongAmount fst ∧ (LongAmount snd ∨ LongishAmount snd) ∨
        LongishAmount fst ∧ LongAmount snd)) ∧
      ¬ (buffSize = 46 ∧ LongAmount fst ∧ LongAmount snd)
  | uint64Tuple (fst, snd) => Nat.log 10 fst.toNat + Nat.log 10 snd.toNat + 7 ≤ buffSize

/-! ### The lengths of amounts -/

/-- The places that are needed, by the zeros at the end. -/
theorem places_eq (k n : ℕ) : places (k + 2) n = k + 2 ∧ n % 10 ≠ 0 ∨
    places (k + 2) n = k + 1 ∧ n % 10 = 0 ∧ n % 100 ≠ 0 ∨
      places (k + 2) n ≤ k ∧ n % 10 = 0 ∧ n % 100 = 0 := by
  rw [places, places]
  split_ifs with htens hhundreds
  · refine .inr (.inr ⟨?_, htens, by omega⟩)
    rw [← length_fraction]
    exact length_fraction_le ..
  · exact .inr (.inl ⟨rfl, htens, by omega⟩)
  · exact .inl ⟨rfl, htens⟩

/-- The digits of the whole part of an amount. -/
theorem log_whole (number : UInt64) :
    Nat.log 10 (number.toNat / 10 ^ ckbPlaces) = 11 ∧ 10 ^ 19 ≤ number.toNat ∨
      Nat.log 10 (number.toNat / 10 ^ ckbPlaces) = 10 ∧ 10 ^ 18 ≤ number.toNat ∧
          number.toNat < 10 ^ 19 ∨
        Nat.log 10 (number.toNat / 10 ^ ckbPlaces) ≤ 9 ∧ number.toNat < 10 ^ 18 := by
  have hlt : number.toNat < 2 ^ 64 := number.toNat_lt
  have hplaces : 10 ^ ckbPlaces = 100000000 := rfl
  rw [hplaces]
  by_cases hlong : 10 ^ 19 ≤ number.toNat
  · refine .inl ⟨(Nat.log_eq_iff (.inl (by decide))).2 ?_, hlong⟩
    omega
  · by_cases hlongish : 10 ^ 18 ≤ number.toNat
    · refine .inr (.inl ⟨(Nat.log_eq_iff (.inl (by decide))).2 ?_, hlongish, by omega⟩)
      omega
    · refine .inr (.inr ⟨Nat.lt_succ_iff.1 (Nat.log_lt_of_lt_pow' (by decide) ?_), by omega⟩)
      omega

/-- The characters of an amount, by its whole part and the zeros at its end. -/
theorem amountWidth_cases (number : UInt64) : amountWidth number ≤ 21 ∧
    (amountWidth number = 21 ↔ LongAmount number) ∧
      (amountWidth number = 20 ↔ LongishAmount number) := by
  have hplaces := places_eq 6 number.toNat
  have hlog := log_whole number
  have hwidth : amountWidth number = Nat.log 10 (number.toNat / 10 ^ ckbPlaces) + 1 +
    if places (6 + 2) number.toNat = 0 then 0 else places (6 + 2) number.toNat + 1 := rfl
  simp only [LongAmount, LongishAmount]
  generalize Nat.log 10 (number.toNat / 10 ^ ckbPlaces) = whole at hlog hwidth
  generalize places (6 + 2) number.toNat = fraction at hplaces hwidth
  rw [hwidth]
  split_ifs <;> omega

/-- A number has at most 20 digits. -/
theorem length_numberToString_le (number : UInt64) : (numberToString number).length ≤ 20 := by
  rw [numberToString_eq, Nat.length_toDigits_le_iff (by decide) (by decide)]
  exact number.toNat_lt.trans (by decide)

/-! ### The sizes that are let pass -/

/-- When a call writes a text for the sizes from a bound on, and throws for smaller ones, it stays
within the buffer if and only if the text does. -/
theorem AmountCall.guarded_iff_of_exec (c : AmountCall) {buffSize : ℕ} (bound : ℕ)
    {text : List Char} (hnul : nul ∉ text) (h : ∀ dest s, (c.run dest buffSize).exec s =
      if buffSize < bound then (.error .wrongLength, s)
      else (.ok (), s.write dest (text ++ [nul]))) :
    c.Guarded buffSize ↔ (bound ≤ buffSize → text.length + 1 ≤ buffSize) := by
  constructor
  · intro hguarded hbound
    have hexec := h 0 ⟨fun _ => nul, 0⟩
    rw [if_neg (Nat.not_lt.2 hbound)] at hexec
    rcases hguarded 0 ⟨fun _ => nul, 0⟩ with ⟨e, herror⟩ | ⟨text', -, hok, hfits⟩
    · rw [hexec] at herror
      cases herror
    · rw [hexec] at hok
      have hreach := congrArg (fun x => x.2.reach) hok
      simp only [Store.write] at hreach
      simp only [List.isEmpty_iff, List.append_eq_nil_iff, List.cons_ne_self, and_false, if_false,
        List.length_append, List.length_singleton, Nat.zero_add, Nat.zero_max] at hreach
      omega
  · intro hfits dest s
    rw [h dest s]
    split_ifs with hbound
    · exact .inl ⟨_, rfl⟩
    · exact .inr ⟨text, hnul, rfl, hfits (Nat.not_lt.1 hbound)⟩

theorem nul_notMem_of {fst snd : List Char} (hfst : nul ∉ fst) (hsnd : nul ∉ snd) :
    nul ∉ fst ++ Print.ofStr ++ snd := by
  have hof : nul ∉ Print.ofStr := by decide
  simp [hfst, hof, hsnd]

/-- **Size guards.**  A call throws without writing, or writes a string within the buffer, if and
only if the value fits, or the size is refused. -/
theorem amountCall_guarded_iff (c : AmountCall) (buffSize : ℕ) :
    c.Guarded buffSize ↔ c.Fits buffSize := by
  have hof : Print.ofStr.length = 4 := rfl
  cases c with
  | number64 number =>
    rw [AmountCall.guarded_iff_of_exec (.number64 number) (maxIntDigits + 1)
      (nul_notMem_numberToString number) fun dest s =>
        Print.exec_numberToStringIndirect64 dest buffSize number s]
    have hlength := length_numberToString_le number
    exact iff_of_true (fun hbound => by simp only [maxIntDigits] at hbound; omega) trivial
  | number32 number =>
    rw [AmountCall.guarded_iff_of_exec (.number32 number) (maxIntDigits + 1)
      (nul_notMem_numberToString number.toUInt64) fun dest s =>
        Print.exec_numberToStringIndirect32 dest buffSize number s]
    have hlength := length_numberToString_le number.toUInt64
    exact iff_of_true (fun hbound => by simp only [maxIntDigits] at hbound; omega) trivial
  | fracCkb number =>
    rw [AmountCall.guarded_iff_of_exec (.fracCkb number) (maxIntDigits + 1)
      (nul_notMem_fracCkbToString number) fun dest s =>
        Print.exec_fracCkbToStringIndirect dest buffSize number s]
    obtain ⟨hle, hlong, -⟩ := amountWidth_cases number
    rw [length_fracCkbToString, AmountCall.Fits, ← hlong, maxIntDigits]
    omega
  | fracCkbTuple tuple =>
    obtain ⟨fst, snd⟩ := tuple
    rw [AmountCall.guarded_iff_of_exec (.fracCkbTuple (fst, snd))
      (2 * maxIntDigits + Print.ofStr.length + 1)
      (nul_notMem_of (nul_notMem_fracCkbToString fst) (nul_notMem_fracCkbToString snd))
      fun dest s =>
        Print.exec_fracCkbTupleToStringIndirect dest buffSize (fst, snd) s]
    obtain ⟨hfst, hlong₁, hlongish₁⟩ := amountWidth_cases fst
    obtain ⟨hsnd, hlong₂, hlongish₂⟩ := amountWidth_cases snd
    simp only [List.length_append, length_fracCkbToString, AmountCall.Fits, ← hlong₁, ← hlong₂,
      ← hlongish₁, ← hlongish₂, maxIntDigits, hof]
    omega
  | uint64Tuple tuple =>
    obtain ⟨fst, snd⟩ := tuple
    rw [AmountCall.guarded_iff_of_exec (.uint64Tuple (fst, snd)) 0
      (nul_notMem_of (nul_notMem_numberToString fst) (nul_notMem_numberToString snd))
      fun dest s => by
        rw [if_neg (Nat.not_lt_zero _)]
        exact Print.exec_uint64TupleToString dest buffSize (fst, snd) s]
    simp only [List.length_append, length_numberToString, AmountCall.Fits, hof]
    omega

/-- An amount of 21 characters does not fit into a buffer of 21 bytes, which is let pass. -/
theorem fracCkb_unguarded :
    ¬ ∀ (c : AmountCall) (buffSize : ℕ), c.Guarded buffSize := by
  intro hall
  have hexec (dest : ℕ) (s : Store Char) := Print.exec_fracCkbToStringIndirect dest 21
    18446744073709551615 s
  have hfits := (AmountCall.guarded_iff_of_exec (.fracCkb 18446744073709551615) _
    (nul_notMem_fracCkbToString _) hexec).1 (hall _ 21) (Nat.le_refl _)
  have hlength : (fracCkbToString 18446744073709551615).length = 21 := by decide +kernel
  rw [hlength] at hfits
  omega

end LedgerNervos
