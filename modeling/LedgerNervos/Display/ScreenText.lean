import LedgerNervos.Display.AddressReader
import LedgerNervos.Display.HexText
import LedgerNervos.Display.PathText

/-!
# Screens in memory

A screen is shown from two buffers, with a title and a value of limited size.  `switchScreen` fills
them for a screen of a table, `multiOutputPromptsCb` for a screen of a transfer to several
destinations.  Either way a screen is presented (`Presents`): the buffers hold its texts then,
and are written past just when its value is too long (`Presents.withinBuffers_iff`).
-/

namespace LedgerNervos

namespace Print

open Writer (write)

/-- `copy_string` -/
def copyString (dest buffSize : ℕ) (src : List Char) : Print Unit :=
  if buffSize ≤ src.length then throw .wrongLength else write dest (src ++ [nul])

/-- `copy_buffer` -/
def copyBuffer (out outSize : ℕ) (bs : List UInt8) : Print Unit :=
  if outSize < bs.length then throw .memoryError
  else do
    write out (List.replicate outSize nul)
    write out (bs.map fun b => Char.ofNat b.toNat)

/-- `contract_type_present` and `contract_type_not_present` -/
def contractTypeText : ContractType → List Char
  | .notPresent => "Not Present".toList
  | .unknown => "Present".toList

/-- `contract_type_to_string_indirect` -/
def contractTypeToStringIndirect (dest buffSize : ℕ) (contractType : ContractType) : Print Unit :=
  if buffSize ≤ (contractTypeText contractType).length + 1 then throw .wrongLength
  else write dest (contractTypeText contractType ++ [nul])

/-- `strncpy`: what is left of the size is filled with zeros. -/
def strncpy (dest n : ℕ) (src : List Char) : Print Unit :=
  write dest (src.take n ++ List.replicate (n - src.length) nul)

end Print

/-- The callback that is registered for a value, on `active_value`. -/
def ScreenValue.print (nd : NvramData) : ScreenValue → Print Unit
  | text s => Print.copyString 0 activeValueSize s.toList
  | amount n => Print.fracCkbToStringIndirect 0 activeValueSize n
  | amountOf n => Print.fracCkbTupleToStringIndirect 0 activeValueSize n
  | countOf n => Print.uint64TupleToString 0 activeValueSize n
  | contractType c => Print.contractTypeToStringIndirect 0 activeValueSize c
  | sighashAddress hash => Print.lockArgToSighashAddress 0 activeValueSize nd hash
  | multisigAddress lockArg => Print.lockArgToMultisigAddress 0 activeValueSize nd lockArg
  | output o => Print.outputValue nd o
  | path p => Print.bip32PathToString 0 activeValueSize p
  | hex bs => Print.bufferToHex 0 activeValueSize bs
  | buffer bs => Print.copyBuffer 0 activeValueSize bs

/-- `switch_screen`: the label, and the value from its callback.  Behind the last label there is
none. -/
def switchScreen (nd : NvramData) (screens : List Screen) (which : ℕ) (b : ScreenBuffers) :
    Except Exn Unit × ScreenBuffers :=
  if maxScreenCount ≤ which then (.error .memoryError, b)
  else match screens[which]? with
    | none => (.error .fault, b)
    | some screen =>
      let (_, prompt) :=
        (Print.strncpy 0 activePromptSize screen.title.render).exec b.activePrompt
      let (r, value) := (screen.value.print nd).exec b.activeValue
      (r, ⟨prompt, value⟩)

/-! ### Strings in a buffer -/

/-- The string at the beginning of a buffer of `n` characters. -/
def Store.cstring (s : Store Char) (n : ℕ) : List Char := (s.read 0 n).takeWhile (· ≠ nul)

theorem takeWhile_append_nul (text tail : List Char) :
    (text ++ nul :: tail).takeWhile (· ≠ nul) = text.takeWhile (· ≠ nul) := by
  induction text with
  | nil => rfl
  | cons c text ih =>
    by_cases hc : c = nul
    · simp [hc]
    · simp only [List.cons_append, ne_eq, hc, not_false_eq_true, decide_true,
        List.takeWhile_cons_of_pos, List.cons.injEq, true_and]
      exact ih

/-- A text with a zero behind it is a string, up to the first zero in it. -/
theorem cstring_write (s : Store Char) {text : List Char} (tail : List Char) {n : ℕ}
    (h : text.length < n) :
    (s.write 0 (text ++ nul :: tail)).cstring n = text.takeWhile (· ≠ nul) := by
  obtain ⟨m, rfl⟩ := Nat.exists_eq_add_of_le (Nat.succ_le_of_lt h)
  have hfront : (text ++ nul :: tail).take (text.length + 1) = text ++ [nul] := by
    rw [List.append_cons]
    exact List.take_left' (by simp)
  rw [Store.cstring, Store.read_add, Store.read_write _ _ _ (by simp), hfront, List.append_assoc,
    List.singleton_append, takeWhile_append_nul]

theorem takeWhile_of_nul_notMem {text : List Char} (h : nul ∉ text) :
    text.takeWhile (· ≠ nul) = text :=
  List.takeWhile_eq_self_iff.2 fun _ hc => decide_eq_true fun hnul => h (hnul ▸ hc)

/-- A text and a zero are left at the beginning of a buffer, and within the buffer if there is
room for them. -/
structure Print.Leaves (m : Print Unit) (text : List Char) (size : ℕ) : Prop where
  exec : ∃ tail, (text.length < size → text.length + 1 + tail.length ≤ size) ∧
    ∀ s, m.exec s = (.ok (), s.write 0 (text ++ nul :: tail))

namespace Print

theorem leaves_of_exec {m : Print Unit} {text : List Char} {size : ℕ}
    (h : ∀ s, m.exec s = (.ok (), s.write 0 (text ++ [nul]))) : m.Leaves text size :=
  ⟨[], Nat.succ_le_of_lt, h⟩

/-- With zeros up to the end of the buffer. -/
theorem leaves_of_fill {m : Print Unit} {text : List Char} {size : ℕ} (hlt : text.length < size)
    (h : ∀ s, m.exec s = (.ok (), s.write 0 (text ++ List.replicate (size - text.length) nul))) :
    m.Leaves text size := by
  obtain ⟨k, rfl⟩ := Nat.exists_eq_add_of_le (Nat.succ_le_of_lt hlt)
  have hk : text.length.succ + k - text.length = k + 1 := by omega
  rw [hk, List.replicate_succ] at h
  exact ⟨List.replicate k nul, fun _ => by rw [List.length_replicate], h⟩

theorem leaves_copyString {src : List Char} {size : ℕ} (h : src.length < size) :
    (copyString 0 size src).Leaves src size :=
  leaves_of_exec fun s => by
    rw [copyString, if_neg (Nat.not_le.2 h)]
    rfl

theorem leaves_copyBuffer {bs : List UInt8} {size : ℕ} (h : bs.length < size) :
    (copyBuffer 0 size bs).Leaves (bs.map fun b => Char.ofNat b.toNat) size := by
  refine leaves_of_fill (by rwa [List.length_map]) fun s => ?_
  have hsplit : List.replicate size nul = List.replicate bs.length nul ++
      List.replicate (size - bs.length) nul := by
    rw [List.replicate_append_replicate, Nat.add_sub_cancel' h.le]
  have hwithin := s.write_within 0 [] (List.replicate bs.length nul)
    (bs.map fun b => Char.ofNat b.toNat) (List.replicate (size - bs.length) nul) (by simp)
  rw [copyBuffer, if_neg (Nat.not_lt.2 h.le), Writer.exec_bind_ok _ (Writer.exec_write _ _ _),
    Writer.exec_write, hsplit, List.length_map]
  exact congrArg (Except.ok (), ·) hwithin

theorem leaves_strncpy {src : List Char} {size : ℕ} (h : src.length < size) :
    (strncpy 0 size src).Leaves src size := by
  refine leaves_of_fill h fun s => ?_
  rw [strncpy, List.take_of_length_le h.le]
  rfl

theorem leaves_contractType {size : ℕ} (h : 12 < size) (c : ContractType) :
    (contractTypeToStringIndirect 0 size c).Leaves (contractTypeText c) size := by
  have hlength : (contractTypeText c).length ≤ 11 := by cases c <;> decide
  refine leaves_of_exec fun s => ?_
  rw [contractTypeToStringIndirect, if_neg (by omega)]
  rfl

end Print

/-! ### The values of screens -/

namespace ScreenValue

/-- What is true of all values that are shown. -/
def Bounded : ScreenValue → Prop
  | text s => s.toList.length < activeValueSize
  | path p => p.used.length = p.length.toNat ∧ 1 ≤ p.length.toNat ∧ p.length.toNat ≤ maxBip32Path
  | hex bs | buffer bs => bs.length ≤ 64
  | _ => True

/-- The value is too long: it has both an address with a lock period and an amount of more than 12
characters. -/
def Long : ScreenValue → Prop
  | output o => o.isMultisig = true ∧ (LockArg.lockPeriod o.destination).1.any (· ≠ 0) = true ∧
      12 < amountWidth o.capacity
  | _ => False

/-- The text of a value is left in the buffer, and fits into it just when it is not too long. -/
structure Printed (nd : NvramData) (value : ScreenValue) (text : List Char) : Prop where
  render : value.render nd = .ok text
  leaves : (value.print nd).Leaves text activeValueSize
  short_iff : text.length < activeValueSize ↔ ¬ value.Long

theorem printed_of_short {nd : NvramData} {value : ScreenValue} {text : List Char}
    (hrender : value.render nd = .ok text) (hlong : ¬ value.Long)
    (hshort : text.length < activeValueSize)
    (hexec : ∀ s, (value.print nd).exec s = (.ok (), s.write 0 (text ++ [nul]))) :
    value.Printed nd text :=
  ⟨hrender, Print.leaves_of_exec hexec, iff_of_true hshort hlong⟩

/-- An address by itself is short. -/
theorem printed_address {nd : NvramData} {value : ScreenValue} (kind : AddressKind) (a : LockArg)
    (hrender : value.render nd = kind.render nd a)
    (hprint : value.print nd = kind.print 0 activeValueSize nd a) (hlong : ¬ value.Long) :
    ∃ text, value.Printed nd text := by
  obtain ⟨text, htext, hlength, -⟩ := renderPkh_isAddress nd (kind.length_payload_le a)
  rw [← kind.render_eq] at htext
  have hshort : text.length < activeValueSize := by
    rw [activeValueSize]
    omega
  refine ⟨text, printed_of_short (hrender.trans htext) hlong hshort fun s => ?_⟩
  rw [hprint]
  exact AddressKind.exec_print htext hshort.le s

/-- An amount and an address. -/
theorem printed_output (nd : NvramData) (o : Output) :
    ∃ text, (ScreenValue.output o).Printed nd text := by
  obtain ⟨address, haddress, hlength⟩ := o.renderAddress_spec nd
  have hfits : address.length ≤ activeValueSize := by
    rw [hlength, Output.addressWidth]
    split_ifs <;> decide
  have htext : (fracCkbToString o.capacity ++ Print.separator ++ address).length =
      amountWidth o.capacity + 8 + o.addressWidth := by
    have hseparator : Print.separator.length = 8 := rfl
    rw [List.length_append, List.length_append, length_fracCkbToString, hseparator, hlength]
  obtain ⟨hwidth, -⟩ := amountWidth_cases o.capacity
  refine ⟨fracCkbToString o.capacity ++ Print.separator ++ address, ?_,
    Print.leaves_of_exec (Print.exec_outputValue haddress hfits), ?_⟩
  · simp only [render, haddress]
    rfl
  · rw [htext, Output.addressWidth, Long, activeValueSize]
    split_ifs with hlocked
    · simp only [hlocked, true_and]
      omega
    · refine iff_of_true (by omega) ?_
      rintro ⟨hmultisig, hperiod, -⟩
      exact hlocked ⟨hmultisig, hperiod⟩

/-- All values that are bounded are printed. -/
theorem Bounded.printed {value : ScreenValue} (h : value.Bounded) (nd : NvramData) :
    ∃ text, value.Printed nd text := by
  have hamount (n : UInt64) : (fracCkbToString n).length ≤ 21 := by
    rw [length_fracCkbToString]
    exact (amountWidth_cases n).1
  have hsize : activeValueSize = 129 := rfl
  have hof : Print.ofStr.length = 4 := rfl
  cases value with
  | text s =>
    exact ⟨s.toList, rfl, Print.leaves_copyString h, iff_of_true h not_false⟩
  | amount n =>
    have hn := hamount n
    refine ⟨_, printed_of_short rfl not_false (by omega) fun s => ?_⟩
    rw [print, Print.exec_fracCkbToStringIndirect, if_neg (by decide)]
  | amountOf n =>
    have hfst := hamount n.1
    have hsnd := hamount n.2
    refine ⟨_, printed_of_short rfl not_false ?_ fun s => ?_⟩
    · change (fracCkbToString n.1 ++ Print.ofStr ++ fracCkbToString n.2).length < _
      rw [List.length_append, List.length_append]
      omega
    · rw [print, Print.exec_fracCkbTupleToStringIndirect, if_neg (by decide)]
      rfl
  | countOf n =>
    have hfst := length_numberToString_le n.1
    have hsnd := length_numberToString_le n.2
    refine ⟨_, printed_of_short rfl not_false ?_ fun s => ?_⟩
    · change (numberToString n.1 ++ Print.ofStr ++ numberToString n.2).length < _
      rw [List.length_append, List.length_append]
      omega
    · rw [print, Print.exec_uint64TupleToString]
      rfl
  | contractType c =>
    refine ⟨Print.contractTypeText c, ?_, Print.leaves_contractType (by decide) c,
      iff_of_true ?_ not_false⟩
    · cases c <;> rfl
    · cases c <;> decide
  | sighashAddress hash =>
    refine printed_address .sighash (StandardLockArg.lockArg hash)
      (render_sighashAddress nd hash) ?_ not_false
    rw [AddressKind.print, StandardLockArg.hash_lockArg]
    rfl
  | multisigAddress lockArg => exact printed_address .multisig lockArg rfl rfl not_false
  | output o => exact printed_output nd o
  | path p =>
    obtain ⟨hused, hpos, hle⟩ := h
    have hlength := length_bip32PathText p.used
    have hmax : maxBip32Path = 5 := rfl
    refine ⟨bip32PathText p.used, printed_of_short ?_ not_false (by omega) fun s =>
      Print.exec_bip32PathToString hused hpos hle (by decide) 0 s⟩
    rw [render, bip32PathToString_eq]
  | hex bs =>
    have hlength : (binToHex bs).length < activeValueSize := by
      have hbs : bs.length ≤ 64 := h
      rw [length_binToHex]
      omega
    refine ⟨_, printed_of_short rfl not_false hlength fun s => ?_⟩
    rw [print, Print.bufferToHex, Print.exec_binToHex, if_neg (by omega)]
  | buffer bs =>
    have hbs : bs.length < activeValueSize := Nat.lt_of_le_of_lt h (by decide)
    exact ⟨_, rfl, Print.leaves_copyBuffer hbs, iff_of_true (by rwa [List.length_map]) not_false⟩

end ScreenValue

/-- What is true of all titles. -/
def ScreenTitle.Bounded : ScreenTitle → Prop
  | text s => s.toList.length < activePromptSize ∧ nul ∉ s.toList
  | output i n => i < 97 ∧ n < 100

/-- What is true of all screens. -/
structure Screen.Bounded (screen : Screen) : Prop where
  title : screen.title.Bounded
  value : screen.value.Bounded

theorem ScreenTitle.Bounded.render {title : ScreenTitle} (h : title.Bounded) :
    title.render.length < activePromptSize ∧ nul ∉ title.render := by
  cases title with
  | text s => exact h
  | output i n =>
    obtain ⟨hi, hn⟩ := h
    refine ⟨length_title (by omega) hn, ?_⟩
    have hstart : nul ∉ Print.titleStart := by decide
    have hslash : nul ≠ '/' := by decide
    rw [Print.render_output, if_pos hn, List.mem_append, List.mem_append, List.mem_cons, not_or,
      not_or, not_or]
    exact ⟨⟨hstart, nul_notMem_numberToString _⟩, hslash, nul_notMem_numberToString _⟩

/-! ### Presenting a screen -/

/-- The buffers hold the texts of a screen.  Of a value only what is in front of a zero is seen. -/
structure ScreenBuffers.Shows (b : ScreenBuffers) (nd : NvramData) (screen : Screen) : Prop where
  title : b.activePrompt.cstring activePromptSize = screen.title.render
  value : ∃ text, screen.value.render nd = .ok text ∧
    b.activeValue.cstring activeValueSize = text.takeWhile (· ≠ nul)

/-- A screen is presented: its texts are left in the buffers. -/
structure Presents (nd : NvramData) (cb : ScreenBuffers → Except Exn Unit × ScreenBuffers)
    (screen : Screen) : Prop where
  bounded : screen.title.Bounded
  writes : ∃ (title value : Print Unit) (text : List Char),
    title.Leaves screen.title.render activePromptSize ∧
    value.Leaves text activeValueSize ∧ screen.value.render nd = .ok text ∧
    (text.length < activeValueSize ↔ ¬ screen.value.Long) ∧
    ∀ b, cb b = (.ok (), ⟨(title.exec b.activePrompt).2, (value.exec b.activeValue).2⟩)

namespace Presents

variable {nd : NvramData} {cb : ScreenBuffers → Except Exn Unit × ScreenBuffers} {screen : Screen}

theorem ok (h : Presents nd cb screen) (b : ScreenBuffers) : (cb b).1 = .ok () := by
  obtain ⟨_, _, _, -, -, -, -, hcb⟩ := h.writes
  rw [hcb]

/-- Unless the value is too long, the buffers hold the texts of the screen then. -/
theorem shows (h : Presents nd cb screen) (hlong : ¬ screen.value.Long) (b : ScreenBuffers) :
    (cb b).2.Shows nd screen := by
  obtain ⟨title, value, text, htitle, hvalue, hrender, hshort, hcb⟩ := h.writes
  obtain ⟨hlength, hnul⟩ := h.bounded.render
  obtain ⟨tail, -, hexec⟩ := htitle.exec
  obtain ⟨tail', -, hexec'⟩ := hvalue.exec
  rw [hcb]
  refine ⟨?_, text, hrender, ?_⟩
  · rw [hexec]
    exact (cstring_write _ _ hlength).trans (takeWhile_of_nul_notMem hnul)
  · rw [hexec']
    exact cstring_write _ _ (hshort.2 hlong)

/-- The buffers are written past just when the value is too long. -/
theorem withinBuffers_iff (h : Presents nd cb screen) :
    WithinBuffers cb ↔ ¬ screen.value.Long := by
  obtain ⟨title, value, text, htitle, hvalue, -, hshort, hcb⟩ := h.writes
  obtain ⟨tail, hfits, hexec⟩ := htitle.exec
  obtain ⟨tail', hfits', hexec'⟩ := hvalue.exec
  have hreach (s : Store Char) (front tail : List Char) (n : ℕ) :
      (s.write 0 (front ++ nul :: tail)).reach ≤ n ↔
        s.reach ≤ n ∧ front.length + 1 + tail.length ≤ n := by
    rw [Store.reach_write_le _ _ _ (by simp), Nat.zero_add, List.length_append, List.length_cons,
      Nat.add_assoc, Nat.add_comm 1]
  rw [← hshort]
  constructor
  · intro hwithin
    have hlast := (hwithin ⟨⟨fun _ => nul, 0⟩, ⟨fun _ => nul, 0⟩⟩ (Nat.zero_le _)
      (Nat.zero_le _)).2
    rw [hcb, hexec'] at hlast
    have hlength := ((hreach ..).1 hlast).2
    omega
  · intro hlt b hprompt hactive
    rw [hcb, hexec, hexec']
    exact ⟨(hreach ..).2 ⟨hprompt, hfits h.bounded.render.1⟩,
      (hreach ..).2 ⟨hactive, hfits' hlt⟩⟩

end Presents

/-- A screen of a table is presented. -/
theorem presents_switchScreen {nd : NvramData} {screens : List Screen} {which : ℕ}
    (hscreens : screens.length ≤ maxScreenCount) (hwhich : which < screens.length)
    (h : screens[which].Bounded) : Presents nd (switchScreen nd screens which) screens[which] := by
  obtain ⟨text, hrender, hleaves, hshort⟩ := h.value.printed nd
  have hlabel := Print.leaves_strncpy h.title.render.1
  refine ⟨h.title, _, _, text, hlabel, hleaves, hrender, hshort, fun b => ?_⟩
  obtain ⟨tail, -, hexec⟩ := hleaves.exec
  have hlt : ¬ maxScreenCount ≤ which := by omega
  rw [switchScreen, if_neg hlt, List.getElem?_eq_getElem hwhich]
  simp only [hexec]

/-! ### A transfer to several destinations -/

/-- The screens of a transfer to several destinations. -/
def SignState.multiOutputScreens (g : SignState) : List Screen :=
  [⟨.text "Confirm", .text "Transaction"⟩, ⟨.text "Amount", .amount g.maybe.v.amount.2⟩,
    ⟨.text "Fee", .amount g.maybe.v.totalFee⟩] ++
    (List.range g.tx.outputCount).map fun i =>
      ⟨.output (i + 1) g.tx.outputCount, .output (g.tx.outputs.getD i {})⟩

theorem SignState.screens_multiOutput {g : SignState} {nd : NvramData}
    (h : g.maybe.v.tag = .multiOutputTransfer) : g.screens nd = some g.multiOutputScreens := by
  unfold screens
  dsimp only
  rw [h]
  rfl

/-- A text that is written with a zero behind it. -/
theorem Print.leaves_write {text : List Char} {size : ℕ} :
    Print.Leaves (Writer.write 0 (text ++ [nul])) text size :=
  Print.leaves_of_exec fun s => Writer.exec_write s 0 (text ++ [nul])

theorem Presents.of_exec {nd : NvramData} {g : SignState} {which : ℕ} {screen : Screen}
    (hbounded : screen.title.Bounded)
    (htitle : (Print.promptTitle g which).Leaves screen.title.render activePromptSize)
    (hvalue : ∃ text, (Print.promptValue nd g which).Leaves text activeValueSize ∧
      screen.value.render nd = .ok text ∧ (text.length < activeValueSize ↔ ¬ screen.value.Long)) :
    Presents nd (multiOutputPromptsCb nd g which) screen := by
  obtain ⟨text, hleaves, hrender, hshort⟩ := hvalue
  refine ⟨hbounded, _, _, text, htitle, hleaves, hrender, hshort, fun b => ?_⟩
  obtain ⟨tail, -, hexec⟩ := htitle.exec
  obtain ⟨tail', -, hexec'⟩ := hleaves.exec
  rw [multiOutputPromptsCb, hexec, hexec']

/-- A screen of a transfer to several destinations is presented by its callback. -/
theorem presents_multiOutput {nd : NvramData} {g : SignState} {which : ℕ}
    (hscreens : g.multiOutputScreens.length ≤ maxScreenCount)
    (hwhich : which < g.multiOutputScreens.length) :
    Presents nd (multiOutputPromptsCb nd g which) g.multiOutputScreens[which] := by
  have hlength : g.multiOutputScreens.length = 3 + g.tx.outputCount := by
    rw [SignState.multiOutputScreens, List.length_append, List.length_map, List.length_range]
    rfl
  have hmax : maxScreenCount = 8 := rfl
  have hprinted (value : ScreenValue) (h : value.Bounded) {m : Print Unit}
      (hm : value.print nd = m) : ∃ text, m.Leaves text activeValueSize ∧
        value.render nd = .ok text ∧ (text.length < activeValueSize ↔ ¬ value.Long) := by
    obtain ⟨text, hrender, hleaves, hshort⟩ := h.printed nd
    exact ⟨text, hm ▸ hleaves, hrender, hshort⟩
  match which, hwhich with
  | 0, _ =>
    exact .of_exec ⟨by decide, by decide⟩ Print.leaves_write
      ⟨_, Print.leaves_write, rfl, iff_of_true (by decide) not_false⟩
  | 1, _ =>
    exact .of_exec ⟨by decide, by decide⟩ Print.leaves_write
      (hprinted (.amount g.maybe.v.amount.2) trivial rfl)
  | 2, _ =>
    exact .of_exec ⟨by decide, by decide⟩ Print.leaves_write
      (hprinted (.amount g.maybe.v.totalFee) trivial rfl)
  | i + 3, hi =>
    have hi' : i < g.tx.outputCount := by omega
    have hget : g.multiOutputScreens[i + 3] =
        ⟨.output (i + 1) g.tx.outputCount, .output (g.tx.outputs.getD i {})⟩ := by
      simp [SignState.multiOutputScreens]
    rw [hget]
    refine .of_exec ⟨by omega, by omega⟩ (Print.leaves_of_exec fun s => ?_)
      (hprinted (.output (g.tx.outputs.getD i {})) trivial rfl)
    exact Print.exec_outputTitle (show i + 3 < 100 by omega) (by omega) s

end LedgerNervos
