import LedgerNervos.Display.Guards
import LedgerNervos.Sign.Accounting

/-!
# The screens of the outputs

A transfer to several destinations has a screen for each of its lines, with the number of the line
as the title, and the amount and the address as the value.  They are made by a callback when they
are shown, in two buffers; `outputPrompt_within_iff` says for which lines it stays within them.
-/

namespace LedgerNervos

variable {env : Env} {P : NvramData → Prop} {g : SignState}

/-- `sizeof(active_prompt)` -/
def activePromptSize : ℕ := 17

/-- `sizeof(active_value)`: `VALUE_WIDTH` and a zero. -/
def activeValueSize : ℕ := 129

/-- `strnlen` -/
def strnlen (s : Store Char) (pos n : ℕ) : ℕ := ((s.read pos n).takeWhile (· ≠ nul)).length

/-- The buffers of a screen. -/
structure ScreenBuffers where
  activePrompt : Store Char
  activeValue : Store Char

namespace Print

open Writer (write)

/-- The title of a line begins with this. -/
def titleStart : List Char := "Output ".toList

/-- `separator` -/
def separator : List Char := " CKB -> ".toList

/-- The title for a screen number from 3 on. -/
def outputTitle (which outputCount : ℕ) : Print Unit :=
  if activePromptSize < 13 then throw .wrongLength
  else if activeValueSize < 29 then throw .wrongLength
  else do
    write 0 (titleStart ++ [nul])
    let promptFill := titleStart.length
    let promptFill ← if which < 100 then do
        let length ← numberToString promptFill (UInt64.ofNat (which - 2))
        pure (promptFill + length)
      else pure promptFill
    if outputCount < 100 then do
      write promptFill ['/']
      let _ ← numberToString (promptFill + 1) (UInt64.ofNat outputCount)
    else return ()

/-- The value for a screen number from 3 on.  The function for the address is given the size of the
whole buffer. -/
def outputValue (nd : NvramData) (o : Output) : Print Unit := do
  fracCkbToStringIndirect 0 activeValueSize o.capacity
  let s ← get
  let valueFill := strnlen s 0 activeValueSize
  write valueFill (separator ++ [nul])
  let valueFill := valueFill + separator.length
  if o.isMultisig then lockArgToMultisigAddress valueFill activeValueSize nd o.destination
  else lockArgToSighashAddress valueFill activeValueSize nd (LockArg.hash o.destination)

/-- The title for a screen number. -/
def promptTitle (g : SignState) : ℕ → Print Unit
  | 0 => write 0 ("Confirm".toList ++ [nul])
  | 1 => write 0 ("Amount".toList ++ [nul])
  | 2 => write 0 ("Fee".toList ++ [nul])
  | which => outputTitle which g.tx.outputCount

/-- The value for a screen number. -/
def promptValue (nd : NvramData) (g : SignState) : ℕ → Print Unit
  | 0 => write 0 ("Transaction".toList ++ [nul])
  | 1 => fracCkbToStringIndirect 0 activeValueSize g.maybe.v.amount.2
  | 2 => fracCkbToStringIndirect 0 activeValueSize g.maybe.v.totalFee
  | which => outputValue nd (g.tx.outputs.getD (which - 3) {})

/-! ### What is written -/

theorem strnlen_write (s : Store Char) (pos : ℕ) {text : List Char} (h : nul ∉ text) {n : ℕ}
    (hn : text.length < n) : strnlen (s.write pos (text ++ [nul])) pos n = text.length := by
  obtain ⟨m, rfl⟩ := Nat.exists_eq_add_of_le (Nat.succ_le_of_lt hn)
  have hread : (s.write pos (text ++ [nul])).read pos (text.length + 1) = text ++ [nul] :=
    (s.holdsString_write pos h).read
  have htext : ∀ c ∈ text, decide (c ≠ nul) = true := fun c hc =>
    decide_eq_true fun hnul => h (hnul ▸ hc)
  rw [strnlen, Store.read_add, hread, List.append_assoc, List.takeWhile_append_of_pos htext]
  simp

/-- A text takes the place of the zero behind the last one. -/
theorem write_text (s : Store Char) (fst snd : List Char) :
    (s.write 0 (fst ++ [nul])).write fst.length (snd ++ [nul]) =
      s.write 0 (fst ++ snd ++ [nul]) := by
  have hoverlay := s.write_overlay 0 fst [nul] (snd ++ [nul]) (by simp)
  rwa [Nat.zero_add, ← List.append_assoc] at hoverlay

theorem render_output (i n : ℕ) : (ScreenTitle.output i n).render =
    titleStart ++ LedgerNervos.numberToString (UInt64.ofNat i) ++
      (if n < 100 then '/' :: LedgerNervos.numberToString (UInt64.ofNat n) else []) := rfl

/-- The title of a line, with its number and the number of all lines. -/
theorem exec_outputTitle {which outputCount : ℕ} (hwhich : which < 100)
    (hcount : outputCount < 100) (s : Store Char) :
    (outputTitle which outputCount).exec s =
      (.ok (), s.write 0 ((ScreenTitle.output (which - 2) outputCount).render ++ [nul])) := by
  have hnumber := numberToString_writes titleStart.length (UInt64.ofNat (which - 2))
  have htotal (pos : ℕ) := numberToString_writes pos (UInt64.ofNat outputCount)
  rw [render_output, if_pos hcount, outputTitle, if_neg (by decide), if_neg (by decide)]
  generalize LedgerNervos.numberToString (UInt64.ofNat (which - 2)) = number at *
  generalize LedgerNervos.numberToString (UInt64.ofNat outputCount) = total at *
  generalize titleStart = start at *
  dsimp only
  rw [Writer.exec_bind_ok _ (Writer.exec_write _ _ _), if_pos hwhich,
    Writer.exec_bind_ok _ (hnumber _), Writer.exec_bind_ok _ (Writer.exec_pure _ _), if_pos hcount,
    Writer.exec_bind_ok _ (Writer.exec_write _ _ _), Writer.exec_bind_ok _ (htotal _ _),
    Writer.exec_pure, write_text, ← List.length_append]
  generalize start ++ number = title
  have hslash := s.write_overlay 0 title [nul] ['/'] (Nat.le_refl _)
  have hcounted := s.write_write 0 (title ++ ['/']) (total ++ [nul])
  rw [Nat.zero_add] at hslash hcounted
  have hpos : title.length + 1 = (title ++ ['/']).length := by simp
  rw [hslash, hpos, hcounted]
  simp

/-- The address of a line, if it fits. -/
theorem exec_address {dest buffSize : ℕ} {nd : NvramData} {o : Output} {address : List Char}
    (h : o.renderAddress nd = .ok address) (hfits : address.length ≤ buffSize) (s : Store Char) :
    (if o.isMultisig then lockArgToMultisigAddress dest buffSize nd o.destination
      else lockArgToSighashAddress dest buffSize nd (LockArg.hash o.destination)).exec s =
        (.ok (), s.write dest (address ++ [nul])) := by
  rw [Output.renderAddress] at h
  split_ifs at h ⊢ with hmultisig
  · simp only [LedgerNervos.lockArgToMultisigAddress] at h
    simp only [lockArgToMultisigAddress]
    split_ifs at h ⊢
    · exact exec_renderPkh h hfits s
    · exact exec_renderPkh h hfits s
  · exact exec_renderPkh h hfits s

/-- The text of a line. -/
theorem exec_outputValue {nd : NvramData} {o : Output} {address : List Char}
    (h : o.renderAddress nd = .ok address) (hfits : address.length ≤ activeValueSize)
    (s : Store Char) :
    (outputValue nd o).exec s =
      (.ok (), s.write 0 (LedgerNervos.fracCkbToString o.capacity ++ separator ++ address ++
        [nul])) := by
  have hamount := exec_fracCkbToStringIndirect 0 activeValueSize o.capacity s
  rw [if_neg (by decide)] at hamount
  have hlength : (LedgerNervos.fracCkbToString o.capacity).length < activeValueSize := by
    have hwidth := (amountWidth_cases o.capacity).1
    rw [length_fracCkbToString]
    exact Nat.lt_of_le_of_lt hwidth (by decide)
  rw [outputValue, Writer.exec_bind_ok _ hamount, Writer.exec_bind_ok _ (Writer.exec_get _)]
  dsimp only
  rw [strnlen_write s 0 (nul_notMem_fracCkbToString _) hlength,
    Writer.exec_bind_ok _ (Writer.exec_write _ _ _), write_text, ← List.length_append]
  generalize LedgerNervos.fracCkbToString o.capacity ++ separator = amount
  rw [exec_address h hfits, write_text]

end Print

/-- The characters of the address of a line. -/
def Output.addressWidth (o : Output) : ℕ :=
  if o.isMultisig ∧ (LockArg.lockPeriod o.destination).1.any (· ≠ 0) then 108 else 46

theorem Output.renderAddress_spec (nd : NvramData) (o : Output) :
    ∃ address, o.renderAddress nd = .ok address ∧ address.length = o.addressWidth := by
  have hlock : o.destination.1.length = 28 := o.destination.2
  have hhash : (LockArg.hash o.destination).1.length = 20 := (LockArg.hash o.destination).2
  have hshort (kind : UInt8) : ([addressFormatTypeShort, kind] ++
      (LockArg.hash o.destination).1).length = 22 := by
    rw [List.length_append, hhash]
    rfl
  have hfull :
      (addressFormatTypeFullType :: multisigLockScript ++ o.destination.1).length = 61 := by
    rw [List.length_append, hlock]
    rfl
  have hspec {payload : List UInt8} {n : ℕ} (hlength : payload.length = n) (hn : n ≤ 61) :
      ∃ address, renderPkh nd payload = .ok address ∧ address.length = 10 + (8 * n + 4) / 5 := by
    subst hlength
    exact renderPkh_spec nd hn
  rw [Output.renderAddress, Output.addressWidth]
  by_cases hmultisig : o.isMultisig = true
  · by_cases hlocked : (LockArg.lockPeriod o.destination).1.any (· ≠ 0) = true
    · rw [if_pos hmultisig, if_pos ⟨hmultisig, hlocked⟩]
      simp only [lockArgToMultisigAddress, if_pos hlocked]
      exact hspec hfull (Nat.le_refl _)
    · rw [if_pos hmultisig, if_neg fun hboth => hlocked hboth.2]
      simp only [lockArgToMultisigAddress, if_neg hlocked]
      exact hspec (hshort _) (by decide)
  · rw [if_neg hmultisig, if_neg fun hboth => hmultisig hboth.1]
    exact hspec (hshort _) (by decide)

/-! ### The screens -/

/-- `multi_output_prompts_cb`: the title, and then the value. -/
def multiOutputPromptsCb (nd : NvramData) (g : SignState) (which : ℕ) (b : ScreenBuffers) :
    Except Exn Unit × ScreenBuffers :=
  match (Print.promptTitle g which).exec b.activePrompt with
  | (.error e, prompt) => (.error e, { b with activePrompt := prompt })
  | (.ok (), prompt) =>
    let (r, value) := (Print.promptValue nd g which).exec b.activeValue
    (r, ⟨prompt, value⟩)

/-- Nothing is written past the buffers. -/
def WithinBuffers (cb : ScreenBuffers → Except Exn Unit × ScreenBuffers) : Prop :=
  ∀ b, b.activePrompt.reach ≤ activePromptSize → b.activeValue.reach ≤ activeValueSize →
    (cb b).2.activePrompt.reach ≤ activePromptSize ∧
      (cb b).2.activeValue.reach ≤ activeValueSize

/-- A text with a zero behind it lies within a buffer. -/
theorem reach_write_text_le (s : Store Char) (text : List Char) (n : ℕ) :
    (s.write 0 (text ++ [nul])).reach ≤ n ↔ s.reach ≤ n ∧ text.length + 1 ≤ n := by
  rw [Store.reach_write_le _ _ _ (by simp), Nat.zero_add, List.length_append,
    List.length_singleton]

/-- The title of a line is short. -/
theorem length_title {i n : ℕ} (hi : i < 100) (hn : n < 100) :
    (ScreenTitle.output i n).render.length + 1 ≤ activePromptSize := by
  have hdigits {m : ℕ} (hm : m < 100) : (numberToString (UInt64.ofNat m)).length ≤ 2 := by
    rw [numberToString_eq, Nat.length_toDigits_le_iff (by decide) (by decide),
      UInt64.toNat_ofNat']
    omega
  have hi' := hdigits hi
  have hn' := hdigits hn
  have hstart : Print.titleStart.length = 7 := rfl
  rw [Print.render_output, if_pos hn, List.length_append, List.length_append, List.length_cons,
    hstart, activePromptSize]
  omega

/-- The screen of a line stays within the buffers if and only if its text does. -/
theorem withinBuffers_iff (nd : NvramData) {g : SignState} {i : ℕ} (hi : i < 50)
    (hcount : g.tx.outputCount < 100) :
    WithinBuffers (multiOutputPromptsCb nd g (i + 3)) ↔
      amountWidth (g.tx.outputs.getD i {}).capacity + 8 +
        (g.tx.outputs.getD i {}).addressWidth + 1 ≤ activeValueSize := by
  set o := g.tx.outputs.getD i {} with ho
  obtain ⟨address, haddress, hlength⟩ := o.renderAddress_spec nd
  have hwidth : o.addressWidth ≤ activeValueSize := by
    rw [Output.addressWidth]
    split_ifs <;> decide
  have hcb (b : ScreenBuffers) : (multiOutputPromptsCb nd g (i + 3) b).2 =
      ⟨b.activePrompt.write 0 ((ScreenTitle.output (i + 1) g.tx.outputCount).render ++ [nul]),
        b.activeValue.write 0 (fracCkbToString o.capacity ++ Print.separator ++ address ++
          [nul])⟩ := by
    have htitle : (Print.promptTitle g (i + 3)).exec b.activePrompt = _ :=
      Print.exec_outputTitle (show i + 3 < 100 by omega) hcount b.activePrompt
    have hvalue : (Print.promptValue nd g (i + 3)).exec b.activeValue = _ :=
      Print.exec_outputValue haddress (hlength.trans_le hwidth) b.activeValue
    rw [multiOutputPromptsCb, htitle]
    dsimp only
    rw [hvalue]
    rfl
  have htext : (fracCkbToString o.capacity ++ Print.separator ++ address).length =
      amountWidth o.capacity + 8 + o.addressWidth := by
    have hseparator : Print.separator.length = 8 := rfl
    rw [List.length_append, List.length_append, length_fracCkbToString, hseparator, hlength]
  constructor
  · intro hwithin
    have hvalue := (hwithin ⟨⟨fun _ => nul, 0⟩, ⟨fun _ => nul, 0⟩⟩ (Nat.zero_le _)
      (Nat.zero_le _)).2
    rw [hcb, reach_write_text_le, htext] at hvalue
    exact hvalue.2
  · intro hfits b hprompt hvalue
    rw [hcb]
    refine ⟨(reach_write_text_le ..).2 ⟨hprompt, length_title (by omega) hcount⟩,
      (reach_write_text_le ..).2 ⟨hvalue, ?_⟩⟩
    rw [htext]
    exact hfits

/-- The lines of a transfer to several destinations are few. -/
theorem Accepted.outputCount_le {v : AnnotatedTransactionVal} {t : Transcript env P v}
    {instruction : UInt8} {ps : List Packet} {prompt : Prompt}
    (h : Accepted env P instruction ps prompt g v t)
    (htag : g.maybe.v.tag = .multiOutputTransfer) : g.tx.outputCount ≤ maxOutputs := by
  obtain ⟨groups, hlines, -⟩ := h.accounts.lines (h.accounts.multiOutput htag)
  exact hlines.outputCount.trans_le hlines.le

theorem Accepted.withinBuffers_iff {v : AnnotatedTransactionVal} {t : Transcript env P v}
    {instruction : UInt8} {ps : List Packet} {prompt : Prompt}
    (h : Accepted env P instruction ps prompt g v t)
    (htag : g.maybe.v.tag = .multiOutputTransfer) (nd : NvramData) {i : ℕ}
    (hi : i < g.tx.outputCount) :
    WithinBuffers (multiOutputPromptsCb nd g (i + 3)) ↔
      ((g.tx.outputs.getD i {}).isMultisig = true ∧
          (LockArg.lockPeriod (g.tx.outputs.getD i {}).destination).1.any (· ≠ 0) = true →
        amountWidth (g.tx.outputs.getD i {}).capacity ≤ 12) := by
  have hcount : g.tx.outputCount ≤ 5 := h.outputCount_le htag
  obtain ⟨hwidth, -⟩ := amountWidth_cases (g.tx.outputs.getD i {}).capacity
  rw [LedgerNervos.withinBuffers_iff nd (by omega) (by omega), Output.addressWidth,
    activeValueSize]
  split_ifs with hlocked
  · simp only [hlocked, true_and, true_implies]
    omega
  · exact iff_of_true (by omega) fun hbad => absurd hbad hlocked

/-- **The screens of the outputs.**  When a session leads to the prompt for a transfer to several
destinations, the screen of a line stays within its buffers if and only if the line does not
combine an address with a lock period and an amount of more than 12 characters. -/
theorem outputPrompt_within_iff (env : Env) (instruction : UInt8) (ps : List Packet)
    (prompt : Prompt) (g : SignState) (h : signSession env instruction ps = some (prompt, g))
    (htag : g.maybe.v.tag = .multiOutputTransfer) (nd : NvramData) (i : ℕ)
    (hi : i < g.tx.outputCount) :
    WithinBuffers (multiOutputPromptsCb nd g (i + 3)) ↔
      ((g.tx.outputs.getD i {}).isMultisig = true ∧
          (LockArg.lockPeriod (g.tx.outputs.getD i {}).destination).1.any (· ≠ 0) = true →
        amountWidth (g.tx.outputs.getD i {}).capacity ≤ 12) := by
  obtain ⟨v, t, haccepted⟩ := signSession_transcript (P := fun _ => True) (fun _ _ => trivial) h
  exact haccepted.withinBuffers_iff htag nd hi

/-- A transfer to an address, and of more than a thousand to an address with a lock period. -/
def lockedPayment : AnnotatedTransaction :=
  { payment with raw := { payment.raw with
      inputs := [⟨⟨.zero 8, ⟨.zero 32, 0⟩⟩,
        coinbase ⟨200000000000, sighashLock referenceLockArg, none⟩ []⟩]
      outputs := [⟨600, sighashLock (List.replicate 20 7), none⟩,
        ⟨123456789012, ⟨⟨multisigLockScript, length_multisigLockScript⟩, 1, List.replicate 28 8⟩,
          none⟩]
      outputsData := [[], []] } }

theorem outputPrompt_within_iff_lockedPayment :
    ∃ prompt g, signSession Env.reference 0x03 (cutPackets 4 lockedPayment.encode) =
        some (prompt, g) ∧
      g.maybe.v.tag = .multiOutputTransfer ∧ 0 < g.tx.outputCount ∧
        WithinBuffers (multiOutputPromptsCb {} g 3) := by
  have hsome : (signSession Env.reference 0x03 (cutPackets 4 lockedPayment.encode)).any
      (fun r => r.2.maybe.v.tag = .multiOutputTransfer ∧ 0 < r.2.tx.outputCount ∧
        (r.2.tx.outputs.getD 0 {}).isMultisig = false) = true := by
    decide +kernel
  obtain ⟨⟨prompt, g⟩, h, hfacts⟩ := (Option.any_eq_true _ _).1 hsome
  obtain ⟨htag, hcount, hmultisig⟩ := of_decide_eq_true hfacts
  refine ⟨prompt, g, h, htag, hcount,
    (outputPrompt_within_iff Env.reference 0x03 _ prompt g h htag {} 0 hcount).2 fun hlocked => ?_⟩
  exact absurd (hmultisig.symm.trans hlocked.1) Bool.false_ne_true

/-- The second screen of the transfer is written past its buffer. -/
theorem lockedPayment_overrun :
    ∃ prompt g, signSession Env.reference 0x03 (cutPackets 4 lockedPayment.encode) =
        some (prompt, g) ∧
      g.maybe.v.tag = .multiOutputTransfer ∧ 1 < g.tx.outputCount ∧
        ¬ WithinBuffers (multiOutputPromptsCb {} g 4) := by
  have hsome : (signSession Env.reference 0x03 (cutPackets 4 lockedPayment.encode)).any
      (fun r => r.2.maybe.v.tag = .multiOutputTransfer ∧ 1 < r.2.tx.outputCount ∧
        r.2.tx.outputs.getD 1 {} = ⟨123456789012, ⟨List.replicate 28 8, by decide⟩, true⟩) =
          true := by
    decide +kernel
  obtain ⟨⟨prompt, g⟩, h, hfacts⟩ := (Option.any_eq_true _ _).1 hsome
  obtain ⟨htag, hcount, houtput⟩ := of_decide_eq_true hfacts
  obtain ⟨v, t, haccepted⟩ := signSession_transcript (P := fun _ => True) (fun _ _ => trivial) h
  refine ⟨prompt, g, h, htag, hcount, fun hwithin => ?_⟩
  have hshort := (haccepted.withinBuffers_iff htag {} hcount).1 hwithin
  rw [houtput] at hshort
  have hwidth : amountWidth 123456789012 = 13 := by
    rw [← length_fracCkbToString]
    decide +kernel
  have hle : amountWidth 123456789012 ≤ 12 := hshort ⟨rfl, by decide⟩
  omega

end LedgerNervos
