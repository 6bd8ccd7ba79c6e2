import LedgerNervos.Sign.OutputPrompt
import Mathlib.Data.Nat.Bitwise

/-!
# Derivation paths can be read back

A derivation path is shown with its components joined by `/`.  The text grows in the buffer: each
component takes the place of the zero behind the last one.  `parseBip32Path` reads the components
back (`bip32Path_lossless`).

## Main results

* `bip32PathToString_eq` : the text of a path.
* `Print.exec_bip32PathToString` : it is written into the buffer, with a zero behind it.
* `parseBip32Path_bip32PathText` : the path is got back from it.
-/

namespace LedgerNervos

/-! ### Writing -/

namespace Print

open Writer (write)

/-- `strlen`.  Without a zero among what has been written, it runs out of the memory. -/
def strlen (pos : ℕ) : Print ℕ := do
  let s ← get
  let written := s.reach - pos
  if strnlen s pos written < written then return strnlen s pos written
  else throw .fault

/-- `bound_check_buffer` -/
def boundCheckBuffer (counter size : ℕ) : Print Unit :=
  if size ≤ counter then throw .memoryError else return ()

/-- Append a character under a condition, and give the offset behind it. -/
def appendWhen (p : Prop) [Decidable p] (out outSize off : ℕ) (c : Char) : Print ℕ :=
  if p then do
    boundCheckBuffer off outSize
    write (out + off) [c]
    return off + 1
  else return off

/-- Append a component, and give the offset behind it. -/
def appendComponent (out outSize off : ℕ) (c : UInt32) : Print ℕ := do
  numberToStringIndirect32 (out + off) (outSize - off) (c &&& 0x7FFFFFFF)
  let off ← strlen out
  appendWhen (c &&& 0x80000000 ≠ 0) out outSize off '\''

/-- The loop of `bip32_path_to_string`, for the components from `i` on. -/
def pathComponents (out outSize : ℕ) (key : Bip32Path) : ℕ → ℕ → ℕ → Print Unit
  | 0, _, _ => return ()
  | n + 1, i, off =>
    if i < key.length.toNat then do
      let off ← appendComponent out outSize off (key.components.getD i 0)
      let off ← appendWhen (i + 1 < key.length.toNat) out outSize off '/'
      boundCheckBuffer off outSize
      write (out + off) [nul]
      pathComponents out outSize key n (i + 1) off
    else return ()

/-- `bip32_path_to_string` -/
def bip32PathToString (out outSize : ℕ) (key : Bip32Path) : Print Unit :=
  pathComponents out outSize key maxBip32Path 0 0

end Print

/-! ### The text -/

/-- The text of a component: its low 31 bits, and an apostrophe where it is hardened. -/
def componentText (c : UInt32) : List Char :=
  Nat.toDigits 10 (c.toNat % 2 ^ 31) ++ if 2 ^ 31 ≤ c.toNat then ['\''] else []

/-- The text of components. -/
def bip32PathText (cs : List UInt32) : List Char := ['/'].intercalate (cs.map componentText)

example : bip32PathText [0x8000002C, 0x80000135, 0] = "44'/309'/0".toList := by decide

/-- The component that a text stands for. -/
def parseComponent (text : List Char) : Option UInt32 :=
  let digits := text.takeWhile Char.isDigit
  let mark := text.dropWhile Char.isDigit
  let value := Nat.ofDigitChars 10 digits 0
  if digits = [] ∨ 2 ^ 31 ≤ value then none
  else if mark = [] then some (UInt32.ofNat value)
  else if mark = ['\''] then some (UInt32.ofNat (2 ^ 31 + value))
  else none

/-- The components that a text stands for. -/
def parseBip32Path (text : List Char) : Option (List UInt32) :=
  (text.splitOn '/').mapM parseComponent

/-! ### What the text is -/

theorem hardened_iff (c : UInt32) : c &&& 0x80000000 ≠ 0 ↔ 2 ^ 31 ≤ c.toNat := by
  have hlt := c.toNat_lt
  have hand : (c &&& 0x80000000).toNat = (c.toNat.testBit 31).toNat * 2 ^ 31 := by
    rw [UInt32.toNat_and]
    exact Nat.and_two_pow _ 31
  have hbit : c.toNat.testBit 31 = decide (2 ^ 31 ≤ c.toNat) := by
    rw [Nat.testBit_eq_decide_div_mod_eq, decide_eq_decide]
    omega
  rw [Ne, ← UInt32.toNat_inj, hand, hbit]
  by_cases hhigh : 2 ^ 31 ≤ c.toNat
  · exact iff_of_true (by rw [decide_eq_true hhigh]; decide) hhigh
  · exact iff_of_false (by rw [decide_eq_false hhigh]; decide) hhigh

theorem toNat_component (c : UInt32) : (c &&& 0x7FFFFFFF).toUInt64.toNat = c.toNat % 2 ^ 31 := by
  rw [UInt32.toNat_toUInt64, UInt32.toNat_and]
  exact Nat.and_two_pow_sub_one_eq_mod _ 31

/-- The text of a path. -/
theorem bip32PathToString_eq (path : Bip32Path) :
    bip32PathToString path = bip32PathText path.used := by
  have hcomponent (c : UInt32) : numberToString (c &&& 0x7FFFFFFF).toUInt64 ++
      (if c &&& 0x80000000 ≠ 0 then ['\''] else []) = componentText c := by
    rw [numberToString_eq, toNat_component, componentText]
    simp only [hardened_iff]
  rw [bip32PathToString, bip32PathText, List.intercalate]
  simp only [hcomponent]

theorem bip32PathText_cons (c : UInt32) (cs : List UInt32) :
    bip32PathText (c :: cs) =
      componentText c ++ if cs = [] then [] else '/' :: bip32PathText cs := by
  cases cs with
  | nil => simp [bip32PathText]
  | cons d cs => simp [bip32PathText]

theorem isDigit_toDigits {n : ℕ} {ch : Char} (h : ch ∈ Nat.toDigits 10 n) : ch.isDigit = true :=
  Nat.isDigit_of_mem_toDigits (by decide) (by decide) h

theorem mem_componentText {c : UInt32} {ch : Char} (h : ch ∈ componentText c) :
    ch.isDigit = true ∨ ch = '\'' := by
  obtain hdigit | hmark := List.mem_append.1 h
  · exact .inl (isDigit_toDigits hdigit)
  · split_ifs at hmark
    · exact .inr (List.mem_singleton.1 hmark)
    · cases hmark

theorem nul_notMem_componentText (c : UInt32) : nul ∉ componentText c := by
  intro hmem
  obtain hdigit | hmark := mem_componentText hmem
  · rw [isDigit_nul] at hdigit
    cases hdigit
  · exact absurd hmark (by decide)

theorem length_componentText (c : UInt32) : (componentText c).length ≤ 11 := by
  have hdigits : (Nat.toDigits 10 (c.toNat % 2 ^ 31)).length ≤ 10 :=
    (Nat.length_toDigits_le_iff (by decide) (by decide)).2 (by omega)
  rw [componentText, List.length_append]
  split_ifs
  · exact Nat.add_le_add hdigits (Nat.le_refl 1)
  · exact hdigits.trans (by decide)

theorem nul_notMem_bip32PathText (cs : List UInt32) : nul ∉ bip32PathText cs := by
  induction cs with
  | nil => exact List.not_mem_nil
  | cons c cs ih =>
    rw [bip32PathText_cons, List.mem_append, not_or]
    refine ⟨nul_notMem_componentText c, ?_⟩
    split_ifs
    · exact List.not_mem_nil
    · rw [List.mem_cons, not_or]
      exact ⟨by decide, ih⟩

theorem length_bip32PathText (cs : List UInt32) : (bip32PathText cs).length ≤ 12 * cs.length := by
  induction cs with
  | nil => exact Nat.le_refl 0
  | cons c cs ih =>
    have hcomponent := length_componentText c
    rw [bip32PathText_cons, List.length_append, List.length_cons]
    split_ifs
    · rw [List.length_nil]
      omega
    · rw [List.length_cons]
      omega

/-! ### Reading -/

theorem parseComponent_componentText (c : UInt32) : parseComponent (componentText c) = some c := by
  have hvalue : Nat.ofDigitChars 10 (Nat.toDigits 10 (c.toNat % 2 ^ 31)) 0 = c.toNat % 2 ^ 31 :=
    Nat.ofDigitChars_ten_toDigits
  have hlow : ¬ (Nat.toDigits 10 (c.toNat % 2 ^ 31) = [] ∨ 2 ^ 31 ≤ c.toNat % 2 ^ 31) := by
    rintro (hnil | hhigh)
    · exact Nat.toDigits_ne_nil hnil
    · omega
  have hdigits : ∀ ch ∈ Nat.toDigits 10 (c.toNat % 2 ^ 31), ch.isDigit = true :=
    fun _ => isDigit_toDigits
  obtain ⟨htake, hdrop⟩ :=
    takeWhile_digits hdigits (if 2 ^ 31 ≤ c.toNat then ['\''] else [])
  have hlt := c.toNat_lt
  rw [parseComponent, componentText, htake, hdrop]
  by_cases hhigh : 2 ^ 31 ≤ c.toNat
  · have hmark : ['\''].takeWhile Char.isDigit = [] ∧ ['\''].dropWhile Char.isDigit = ['\''] := by
      decide
    have hback : UInt32.ofNat (2 ^ 31 + c.toNat % 2 ^ 31) = c := by
      rw [← UInt32.toNat_inj, UInt32.toNat_ofNat_of_lt' (by simp only [UInt32.size]; omega)]
      omega
    simp only [if_pos hhigh, hmark, List.append_nil, hvalue]
    rw [if_neg hlow, if_neg (List.cons_ne_nil _ _), if_pos trivial, hback]
  · have hback : UInt32.ofNat (c.toNat % 2 ^ 31) = c := by
      rw [Nat.mod_eq_of_lt (Nat.lt_of_not_le hhigh), UInt32.ofNat_toNat]
    simp only [if_neg hhigh, List.takeWhile_nil, List.dropWhile_nil, List.append_nil, hvalue]
    rw [if_neg hlow, if_pos trivial, hback]

theorem parseBip32Path_bip32PathText {cs : List UInt32} (h : cs ≠ []) :
    parseBip32Path (bip32PathText cs) = some cs := by
  have hslash : ∀ text ∈ cs.map componentText, '/' ∉ text := by
    intro text htext hmem
    obtain ⟨c, -, rfl⟩ := List.mem_map.1 htext
    obtain hdigit | hmark := mem_componentText hmem
    · exact absurd hdigit (by decide)
    · exact absurd hmark (by decide)
  rw [parseBip32Path, bip32PathText, List.splitOn_intercalate _ hslash (by simpa using h)]
  exact mapM_map_of_read_back fun c _ => parseComponent_componentText c

/-! ### What is in the buffer -/

namespace Print

theorem exec_strlen (s : Store Char) (pos : ℕ) {text : List Char} (h : nul ∉ text) :
    (strlen pos).exec (s.write pos (text ++ [nul])) =
      (.ok text.length, s.write pos (text ++ [nul])) := by
  have hreach := ((s.reach_write_le pos (text ++ [nul]) (by simp)).1 (Nat.le_refl _)).2
  rw [List.length_append, List.length_singleton] at hreach
  have hroom : text.length < (s.write pos (text ++ [nul])).reach - pos := by omega
  rw [strlen, Writer.exec_bind_ok _ (Writer.exec_get _)]
  dsimp only
  rw [strnlen_write s pos h hroom, if_pos hroom]
  rfl

/-- The character takes the place of what is behind the text, which is a zero or nothing. -/
theorem exec_appendWhen (p : Prop) [Decidable p] (s : Store Char) (out : ℕ) {outSize : ℕ}
    {done rest : List Char} (hrest : rest.length ≤ 1) (hfits : done.length < outSize) (c : Char) :
    ∃ rest', rest'.length ≤ 1 ∧
      (appendWhen p out outSize done.length c).exec (s.write out (done ++ rest)) =
        (.ok (done ++ if p then [c] else []).length,
          s.write out ((done ++ if p then [c] else []) ++ rest')) := by
  have hcheck : boundCheckBuffer done.length outSize = pure () := if_neg (Nat.not_le.2 hfits)
  rw [appendWhen, Writer.exec_ite]
  split_ifs with hp
  · refine ⟨[], Nat.zero_le 1, ?_⟩
    rw [hcheck, Writer.exec_bind_ok _ (Writer.exec_pure _ _),
      Writer.exec_bind_ok _ (Writer.exec_write _ _ _), Store.write_overlay _ _ _ rest [c] hrest,
      Writer.exec_pure, List.length_append, List.length_singleton, List.append_nil]
  · refine ⟨rest, hrest, ?_⟩
    rw [List.append_nil]
    rfl

/-- A component is appended to the text. -/
theorem exec_appendComponent (s : Store Char) (out : ℕ) {outSize : ℕ} {done rest : List Char}
    (hdone : nul ∉ done) (hrest : rest.length ≤ 1)
    (hroom : done.length + maxIntDigits < outSize) (c : UInt32) :
    ∃ rest', rest'.length ≤ 1 ∧
      (appendComponent out outSize done.length c).exec (s.write out (done ++ rest)) =
        (.ok (done ++ componentText c).length, s.write out (done ++ componentText c ++ rest')) := by
  have hten : (Nat.toDigits 10 (c.toNat % 2 ^ 31)).length ≤ 10 :=
    (Nat.length_toDigits_le_iff (by decide) (by decide)).2 (by omega)
  have hdigits : nul ∉ Nat.toDigits 10 (c.toNat % 2 ^ 31) := fun hmem =>
    absurd (isDigit_toDigits hmem) (by decide)
  have hnumber := exec_numberToStringIndirect32 (out + done.length) (outSize - done.length)
    (c &&& 0x7FFFFFFF) (s.write out (done ++ rest))
  rw [if_neg (by omega), Store.write_overlay _ _ _ _ _ (by simp; omega), numberToString_eq,
    toNat_component, ← List.append_assoc] at hnumber
  rw [appendComponent, componentText]
  simp only [← hardened_iff]
  generalize Nat.toDigits 10 (c.toNat % 2 ^ 31) = digits at *
  have htext : nul ∉ done ++ digits := by
    rw [List.mem_append, not_or]
    exact ⟨hdone, hdigits⟩
  have hstrlen := exec_strlen s out htext
  rw [Writer.exec_bind_ok _ hnumber, Writer.exec_bind_ok _ hstrlen, ← List.append_assoc]
  refine exec_appendWhen _ s out (Nat.le_refl [nul].length) ?_ '\''
  have hmax : maxIntDigits = 20 := rfl
  rw [List.length_append]
  omega

theorem used_drop {key : Bip32Path} (hused : key.used.length = key.length.toNat) {i : ℕ}
    (hi : i < key.length.toNat) :
    key.used.drop i = key.components.getD i 0 :: key.used.drop (i + 1) := by
  have hlt : i < key.used.length := hused ▸ hi
  have hget : key.used[i] = key.components.getD i 0 := by
    simp only [Bip32Path.used, List.getElem_take]
    rw [List.getD_eq_getElem?_getD, List.getElem?_eq_getElem]
    rfl
  rw [List.drop_eq_getElem_cons hlt, hget]

/-- Behind the last component, the loop stops. -/
theorem pathComponents_of_le (out outSize : ℕ) {key : Bip32Path} (n : ℕ) {i : ℕ}
    (hi : key.length.toNat ≤ i) (off : ℕ) : pathComponents out outSize key n i off = pure () := by
  cases n with
  | zero => rfl
  | succ n => exact if_neg (Nat.not_lt.2 hi)

/-- The components from `i` on are appended to the text. -/
theorem exec_pathComponents (s : Store Char) (out : ℕ) {outSize : ℕ} {key : Bip32Path} {n i : ℕ}
    (hused : key.used.length = key.length.toNat) (hend : key.length.toNat ≤ i + n)
    {done rest : List Char} (hdone : nul ∉ done) (hrest : rest.length ≤ 1)
    (hroom : done.length + 12 * n + maxIntDigits < outSize) (hi : i < key.length.toNat) :
    (pathComponents out outSize key n i done.length).exec (s.write out (done ++ rest)) =
      (.ok (), s.write out (done ++ bip32PathText (key.used.drop i) ++ [nul])) := by
  induction n generalizing i done rest with
  | zero => omega
  | succ n ih =>
    rw [used_drop hused hi, bip32PathText_cons, pathComponents, Writer.exec_ite, if_pos hi]
    generalize key.components.getD i 0 = c
    have hlength : (componentText c).length ≤ 11 := length_componentText c
    obtain ⟨rest₁, hrest₁, hcomponent⟩ :=
      exec_appendComponent s out hdone hrest (by omega : done.length + maxIntDigits < outSize) c
    have hdone₁ : nul ∉ done ++ componentText c := by
      rw [List.mem_append, not_or]
      exact ⟨hdone, nul_notMem_componentText c⟩
    rw [Writer.exec_bind_ok _ hcomponent, ← List.append_assoc]
    have hlength₁ : (done ++ componentText c).length ≤ done.length + 11 := by
      rw [List.length_append]
      omega
    generalize done ++ componentText c = done₁ at *
    obtain ⟨rest₂, hrest₂, hslash⟩ := exec_appendWhen (i + 1 < key.length.toNat) s out hrest₁
      (by omega : done₁.length < outSize) '/'
    have hcheck {off : ℕ} (hoff : off < outSize) : boundCheckBuffer off outSize = pure () :=
      if_neg (Nat.not_le.2 hoff)
    rw [Writer.exec_bind_ok _ hslash]
    by_cases hlast : i + 1 < key.length.toNat
    · have hne : key.used.drop (i + 1) ≠ [] :=
        List.ne_nil_of_length_pos (by rw [List.length_drop, hused]; omega)
      have hlength₂ : (done₁ ++ ['/']).length = done₁.length + 1 := List.length_append
      have hdone₂ : nul ∉ done₁ ++ ['/'] := by
        rw [List.mem_append, not_or]
        exact ⟨hdone₁, by decide⟩
      rw [if_pos hlast, if_neg hne, hcheck (by omega),
        Writer.exec_bind_ok _ (Writer.exec_pure _ _),
        Writer.exec_bind_ok _ (Writer.exec_write _ _ _),
        Store.write_overlay _ _ _ _ _ hrest₂,
        ih (by omega) hdone₂ (Nat.le_refl [nul].length) (by omega) hlast]
      simp
    · have hnil : key.used.drop (i + 1) = [] :=
        List.drop_eq_nil_of_le (by omega)
      rw [if_neg hlast, if_pos hnil, List.append_nil, hcheck (by omega),
        Writer.exec_bind_ok _ (Writer.exec_pure _ _),
        Writer.exec_bind_ok _ (Writer.exec_write _ _ _),
        Store.write_overlay _ _ _ _ _ hrest₂, pathComponents_of_le _ _ _ (Nat.not_lt.1 hlast)]
      rfl

/-- The text of a path is written, with a zero behind it. -/
theorem exec_bip32PathToString {key : Bip32Path} (hused : key.used.length = key.length.toNat)
    (hpos : 1 ≤ key.length.toNat) (hle : key.length.toNat ≤ maxBip32Path) {outSize : ℕ}
    (hroom : 12 * maxBip32Path + maxIntDigits < outSize) (out : ℕ) (s : Store Char) :
    (bip32PathToString out outSize key).exec s =
      (.ok (), s.write out (bip32PathText key.used ++ [nul])) := by
  have hrest : ([] : List Char).length ≤ 1 := Nat.zero_le 1
  have hrun := exec_pathComponents s out (n := maxBip32Path) (i := 0) hused
    (by rwa [Nat.zero_add]) (List.not_mem_nil : nul ∉ []) hrest
    (by rwa [List.length_nil, Nat.zero_add]) hpos
  rwa [List.append_nil, Store.write_nil] at hrun

end Print

/-- **Derivation paths can be read back.**  The text of a path with 1 to 5 components is written
into the buffer without an exception, and fits with the zero at its end.  The components are got
back from it, so different paths have different texts. -/
theorem bip32Path_lossless (path : Bip32Path) (hcomponents : path.components.length = maxBip32Path)
    (hpos : 1 ≤ path.length.toNat) (hle : path.length.toNat ≤ maxBip32Path) :
    bip32PathToString path = bip32PathText path.used ∧
    (∀ out s, (Print.bip32PathToString out activeValueSize path).exec s =
        (.ok (), s.write out (bip32PathText path.used ++ [nul])) ∧
      (s.write out (bip32PathText path.used ++ [nul])).HoldsString out (bip32PathText path.used)) ∧
    (bip32PathText path.used).length + 1 ≤ activeValueSize ∧
    parseBip32Path (bip32PathText path.used) = some path.used ∧
    ∀ path' : Bip32Path, path'.used ≠ path.used →
      bip32PathText path'.used ≠ bip32PathText path.used := by
  have hused : path.used.length = path.length.toNat := by
    rw [Bip32Path.used, List.length_take, hcomponents]
    exact Nat.min_eq_left hle
  have hne : path.used ≠ [] := List.ne_nil_of_length_pos (hused ▸ hpos)
  have hlength := length_bip32PathText path.used
  rw [hused] at hlength
  have hparse := parseBip32Path_bip32PathText hne
  refine ⟨bip32PathToString_eq path,
    fun out s => ⟨Print.exec_bip32PathToString hused hpos hle (by decide) out s,
      s.holdsString_write out (nul_notMem_bip32PathText _)⟩,
    ?_, hparse, fun path' hother htext => ?_⟩
  · have hmax : maxBip32Path = 5 := rfl
    rw [activeValueSize]
    omega
  · by_cases hne' : path'.used = []
    · rw [hne'] at htext
      rw [← htext] at hparse
      cases hparse
    · have hparse' := parseBip32Path_bip32PathText hne'
      rw [htext, hparse] at hparse'
      exact hother (Option.some.inj hparse').symm

/-- The path of the first account. -/
def accountPath : Bip32Path := ⟨3, [0x8000002C, 0x80000135, 0x80000000, 0, 0]⟩

theorem bip32Path_lossless_accountPath :
    accountPath.components.length = maxBip32Path ∧ 1 ≤ accountPath.length.toNat ∧
      accountPath.length.toNat ≤ maxBip32Path ∧
      parseBip32Path (bip32PathText accountPath.used) = some accountPath.used :=
  ⟨by decide, by decide, by decide,
    (bip32Path_lossless accountPath (by decide) (by decide) (by decide)).2.2.2.1⟩

end LedgerNervos
