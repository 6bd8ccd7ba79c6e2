import LedgerNervos.App.Isolation
import LedgerNervos.App.Undisplayable

/-!
# Successes and errors

A reply ends in a status word.  Everything that the handlers throw is reported by a status word
that is not the one of success, given that this holds for what the derivation of a key throws
(`Env.Reports`).  There is one exception: the text of a message that ends within a sequence of bytes
can be taken for a long one, and then is written behind the end of its buffer
(`MessageState.handleApdu_error_iff`).
-/

namespace LedgerNervos

/-! ### Replies -/

/-- The status word of success, behind data that fit into the receive buffer. -/
def Reply.Success (r : Reply) : Prop :=
  r.bytes.length ≤ Machine.ioSize ∧ ∃ data, r.bytes = data ++ [0x90, 0x00]

/-- The status word of an error. -/
def Reply.Failure (r : Reply) : Prop := r.bytes.length = 2 ∧ r.bytes ≠ [0x90, 0x00]

theorem success_finalize (kind : ReplyKind) {bs : List UInt8} (h : bs.length ≤ 258) :
    (finalizeSuccessfulSend kind bs).Success := by
  refine ⟨?_, bs, rfl⟩
  simp only [finalizeSuccessfulSend, List.length_append, List.length_cons, List.length_nil,
    Machine.ioSize]
  omega

/-- What is thrown is reported to the host as an error. -/
def Exn.Reported : Exn → Prop
  | .code sw => (statusReply sw).Failure
  | .fault => False

theorem Exn.reported_code {sw : UInt16} (h : (statusReply sw).bytes ≠ [0x90, 0x00]) :
    (Exn.code sw).Reported := ⟨rfl, h⟩

/-! ### What the handlers throw -/

/-- What is thrown satisfies `p`. -/
def Throws {α : Type} (p : Exn → Prop) (x : Except Exn α) : Prop := ∀ e, x = .error e → p e

section

variable {α β : Type} {p : Exn → Prop} {x : Except Exn α} {f : α → Except Exn β}

theorem Throws.ok (a : α) : Throws p (.ok a : Except Exn α) := by
  rintro e ⟨⟩

theorem Throws.error {e : Exn} (h : p e) : Throws p (.error e : Except Exn α) := by
  rintro e ⟨⟩
  exact h

theorem Throws.bind (h : Throws p x) (hf : ∀ a, Throws p (f a)) : Throws p (x >>= f) := by
  cases x with
  | error e => exact .error (h e rfl)
  | ok a => exact hf a

theorem Throws.ite {c : Prop} [Decidable c] {y : Except Exn α} (h : Throws p x)
    (h' : Throws p y) : Throws p (if c then x else y) := by
  split_ifs
  · exact h
  · exact h'

end

/-- The status words of the application are no successes. -/
theorem reported_constants : Exn.Reported .wrongParam ∧ Exn.Reported .wrongLength ∧
    Exn.Reported .invalidIns ∧ Exn.Reported .wrongLengthForIns ∧ Exn.Reported .rejected ∧
    Exn.Reported .parseError ∧ Exn.Reported .wrongValues ∧ Exn.Reported .security ∧
    Exn.Reported .cla ∧ Exn.Reported .memoryError := by
  refine ⟨?_, ?_, ?_, ?_, ?_, ?_, ?_, ?_, ?_, ?_⟩ <;> exact Exn.reported_code (by decide)

section

variable {env : Env} {nd : NvramData}

theorem throws_renderPkh (nd : NvramData) (payload : List UInt8) :
    Throws Exn.Reported (renderPkh nd payload) := by
  obtain ⟨-, -, -, -, -, -, -, -, -, hmemory⟩ := reported_constants
  unfold renderPkh
  dsimp only
  split
  · exact .error hmemory
  · split
    · exact .error hmemory
    · exact .ok _

theorem throws_multisigAddress (nd : NvramData) (a : LockArg) :
    Throws Exn.Reported (lockArgToMultisigAddress nd a) :=
  .ite (throws_renderPkh nd _) (throws_renderPkh nd _)

theorem ScreenValue.throws_render (nd : NvramData) (value : ScreenValue) :
    Throws Exn.Reported (value.render nd) := by
  cases value with
  | sighashAddress hash => exact throws_renderPkh nd _
  | multisigAddress a => exact throws_multisigAddress nd a
  | output o =>
    refine .bind ?_ fun address => .ok _
    exact .ite (throws_multisigAddress nd _) (throws_renderPkh nd _)
  | _ => exact .ok _

theorem throws_uiPrompt (nd : NvramData) (screens : List Screen) :
    Throws Exn.Reported (uiPrompt nd screens) := by
  obtain ⟨-, -, -, -, -, -, -, -, -, hmemory⟩ := reported_constants
  refine .ite (.error hmemory) (.bind ?_ fun _ => .ok _)
  generalize screens = ss
  induction ss with
  | nil => exact .ok _
  | cons screen ss ih =>
    rw [List.forIn_cons]
    refine .bind (.bind (screen.value.throws_render nd) fun _ => .ok _) fun r => ?_
    cases r with
    | done b => exact .ok _
    | yield b => exact ih

theorem throws_readBip32Path (out : Bip32Path) (bs : List UInt8) :
    Throws Exn.Reported (readBip32Path out bs) := by
  obtain ⟨-, -, -, hlength, -, -, hvalues, -⟩ := reported_constants
  unfold readBip32Path
  split
  · exact .error hlength
  · exact .ite (.error hlength) (.ite (.error hvalues) (.ok _))

/-- The derivation of a key throws status words of errors only. -/
def Env.Reports (env : Env) : Prop := ∀ path, Throws Exn.Reported (env.derive path)

theorem Env.Reports.signWithPath (h : env.Reports) (path : Bip32Path) (data : List UInt8) :
    Throws Exn.Reported (signWithPath env path data) :=
  .bind (h _) fun _ => .ok _

theorem Env.Reports.prepLockArg (h : env.Reports) (key : Bip32Path) :
    Throws Exn.Reported (prepLockArg env key) :=
  .bind (h _) fun _ => .ok _

theorem Env.Reports.getPublicKey (h : env.Reports) (s : PubkeyState) (nd : NvramData)
    (instruction p1 : UInt8) (cdata : List UInt8) :
    Throws Exn.Reported (s.handleApduGetPublicKey env nd instruction p1 cdata) := by
  obtain ⟨hparam, -⟩ := reported_constants
  refine .ite (.error hparam) (.bind (throws_readBip32Path _ _) fun key => .bind (h _) fun _ =>
    .bind ?_ fun _ => .ok _)
  exact .ite (.bind (throws_uiPrompt nd _) fun _ => .ok _)
    (.bind (throws_uiPrompt nd _) fun _ => .ok _)

theorem Env.Reports.accountImport (h : env.Reports) (s : PubkeyState) (nd : NvramData)
    (p1 : UInt8) (cdata : List UInt8) :
    Throws Exn.Reported (s.handleApduAccountImport env nd p1 cdata) := by
  obtain ⟨hparam, -⟩ := reported_constants
  exact .ite (.error hparam) (.ite (.error hparam) (.ite (.error hparam) (.bind (h _) fun _ =>
    .bind (throws_uiPrompt nd _) fun _ => .ok _)))

theorem MessageHashState.throws_handleApdu (s : MessageHashState) (nd : NvramData) (p1 : UInt8)
    (buff : List UInt8) : Throws Exn.Reported (s.handleApdu nd p1 buff) := by
  obtain ⟨hparam, -, -, hlength, -, hparse, -⟩ := reported_constants
  refine .ite (.error hlength) (.ite (.bind (throws_readBip32Path _ _) fun _ => .ok _)
    (.ite (.ite (.error hparse) ?_) (.error hparam)))
  exact .bind (throws_uiPrompt nd _) fun _ => .ok _

/-! ### What the callbacks throw -/

theorem throws_outputEnd (env : Env) (g : SignState) : Throws Exn.Reported (g.outputEnd env) := by
  obtain ⟨-, -, -, -, -, -, -, -, -, hmemory⟩ := reported_constants
  unfold SignState.outputEnd
  dsimp only
  split_ifs <;> first | exact .ok _ | exact .error hmemory

theorem throws_outputsEnd (g : SignState) : Throws Exn.Reported g.outputsEnd := by
  obtain ⟨hparam, -, -, -, -, -, -, -, -, hmemory⟩ := reported_constants
  unfold SignState.outputsEnd
  dsimp only
  split_ifs <;> first | exact .ok _ | exact .error hmemory | exact .error hparam

theorem Throws.map {α β : Type} {p : Exn → Prop} {x : Except Exn α} (h : Throws p x) (f : α → β) :
    Throws p (x.map f) := by
  cases x with
  | error e => exact .error (h e rfl)
  | ok a => exact .ok _

theorem Env.Reports.dispatch (h : env.Reports) (nd : NvramData) (e : Callback)
    (s : SignState × Io) : Throws Exn.Reported (dispatch env nd e s) := by
  cases e with
  | outputEnd => exact (throws_outputEnd env _).map _
  | outputsEnd => exact (throws_outputsEnd _).map _
  | setSignPath => exact (Throws.bind (h.prepLockArg _) fun _ => .ok _).map _
  | setChangePath => exact (Throws.bind (h.prepLockArg _) fun _ => .ok _).map _
  | _ => exact .ok _

theorem Env.Reports.runCallbacks (h : env.Reports) (nd : NvramData) (es : List Callback)
    (s : SignState × Io) {x : Exn} {io : Io} (hx : runCallbacks env nd es s = .error (x, io)) :
    x.Reported := by
  induction es generalizing s with
  | nil => cases hx
  | cons e es ih =>
    unfold LedgerNervos.runCallbacks at hx
    cases he : LedgerNervos.dispatch env nd e s with
    | error y =>
      rw [he] at hx
      cases hx
      exact h.dispatch nd e s _ he
    | ok s' =>
      rw [he] at hx
      exact ih s' hx

/-- What handling a packet of a transaction throws is reported. -/
theorem Env.Reports.sign (h : env.Reports) (s : ApduSignState) (nd : NvramData)
    (instruction p1 : UInt8) (cdata : List UInt8) {io io' : Io} {x : Exn}
    (hx : s.handleApdu env nd instruction p1 cdata io = .error (x, io')) : x.Reported := by
  obtain ⟨-, -, -, hlength, hrejected, hparse, -, hsecurity, -⟩ := reported_constants
  have hparsed {s : ApduSignState} {last secureOnly : Bool} {io : Io} {y : Exn × Io}
      (hy : s.parsePacket env nd last secureOnly cdata io = .error y) : y.1.Reported := by
    unfold ApduSignState.parsePacket at hy
    split_ifs at hy
    · cases hy
      exact hparse
    · dsimp only at hy
      split at hy
      · rename_i z hz
        cases hy
        exact h.runCallbacks nd _ _ hz
      · split at hy
        · rename_i z hz
          cases hy
          unfold SignState.afterParse at hz
          split_ifs at hz <;> cases hz <;> assumption
        · cases hy
  have hanswered {s : ApduSignState} {last : Bool} {io : Io} {y : Exn × Io}
      (hy : s.answer nd instruction last io = .error y) : y.1.Reported := by
    unfold ApduSignState.answer at hy
    split_ifs at hy
    split at hy
    · rename_i z hz
      cases hy
      unfold SignState.signComplete at hz
      split at hz
      · cases hz
        exact hrejected
      · exact Throws.bind (throws_uiPrompt nd _) (fun _ => .ok _) _ hz
    · cases hy
  unfold ApduSignState.handleApdu at hx
  dsimp only at hx
  split_ifs at hx with hlong hfirst hnext
  · cases hx
    exact hlength
  · cases hparse : ApduSignState.parsePacket {} env nd (p1 &&& p1LastMarker ≠ 0)
        (p1 &&& p1NoFallback ≠ 0) cdata io with
    | error y =>
      rw [hparse] at hx
      cases hx
      exact hparsed hparse
    | ok y =>
      rw [hparse] at hx
      exact hanswered hx
  · cases hparse : s.parsePacket env nd (p1 &&& p1LastMarker ≠ 0)
        (p1 &&& p1NoFallback ≠ 0) cdata io with
    | error y =>
      rw [hparse] at hx
      cases hx
      exact hparsed hparse
    | ok y =>
      rw [hparse] at hx
      exact hanswered hx
  · exact hanswered hx

end

/-! ### Messages that overrun -/

/-- More bytes are missing at the end of the text than have been written for it, so that the size
has wrapped around. -/
def Overrun (body : List UInt8) : Prop :=
  (replaceLoop body.length body (UInt8.ofNat body.length)).1.length <
    (replaceLoop body.length body (UInt8.ofNat body.length)).2.toNat

instance (body : List UInt8) : Decidable (Overrun body) := by unfold Overrun; infer_instance

/-- Each character stands for at most four bytes. -/
theorem length_le_replaceLoop {fuel : ℕ} {bs : List UInt8} (h : bs.length ≤ fuel) (size : UInt8) :
    bs.length ≤ 4 * (replaceLoop fuel bs size).1.length := by
  induction fuel generalizing bs size with
  | zero =>
    obtain rfl := List.length_eq_zero_iff.1 (Nat.le_zero.1 h)
    exact Nat.zero_le _
  | succ fuel ih =>
    cases bs with
    | nil => exact Nat.zero_le _
    | cons b bs =>
      rw [List.length_cons] at h
      rw [replaceLoop]
      split_ifs
      · have hrest := @ih (bs.drop (sequenceRest b)) (by rw [List.length_drop]; omega)
          (size - UInt8.ofNat (sequenceRest b))
        have := sequenceRest_le b
        rw [List.length_drop] at hrest
        simp only [List.length_cons]
        omega
      · have hrest := ih (Nat.le_of_succ_le_succ h) size
        simp only [List.length_cons]
        omega

/-- The size that is left: what has been written, without the bytes that are missing. -/
theorem replaceLoop_size {body : List UInt8} (h : body.length ≤ 215) :
    ∃ missing ≤ 3, (replaceLoop body.length body (UInt8.ofNat body.length)).1.length ≤ body.length ∧
      (replaceLoop body.length body (UInt8.ofNat body.length)).2.toNat =
        (256 + (replaceLoop body.length body (UInt8.ofNat body.length)).1.length - missing) %
          256 := by
  obtain ⟨missing, hle, hout, hsize, -⟩ :=
    replaceLoop_spec (Nat.le_refl body.length) (UInt8.ofNat body.length)
  refine ⟨missing, hle, hout, ?_⟩
  rw [hsize, UInt8.toNat_sub, UInt8.toNat_ofNat', UInt8.toNat_ofNat']
  omega

/-- Without the magic, the body is in front. -/
theorem sliceMagicBytes_append {body : List UInt8} (h : body.length ≤ 215) :
    sliceMagicBytes (nervosMagic ++ body) (UInt8.ofNat (nervosMagic ++ body).length) =
      (body ++ (nervosMagic ++ body).drop body.length, UInt8.ofNat body.length) := by
  have hmagic : nervosMagic.length = 15 := rfl
  have hsize : (UInt8.ofNat (nervosMagic ++ body).length).toNat - nervosMagic.length =
      body.length := by
    rw [UInt8.toNat_ofNat', List.length_append, hmagic]
    omega
  unfold sliceMagicBytes
  dsimp only
  rw [hsize, List.drop_left, List.take_length]

/-- What is shown of a message lies behind the end of the buffer just when a text overruns. -/
theorem messageDisplay_error_iff (displayAsHex : Bool) {body : List UInt8}
    (h : body.length ≤ 215) (x : Exn) :
    messageDisplay displayAsHex (nervosMagic ++ body) = .error x ↔
      x = .fault ∧ displayAsHex = false ∧ Overrun body := by
  have hbody : (UInt8.ofNat body.length).toNat = body.length := by
    rw [UInt8.toNat_ofNat']
    omega
  have hsplit (tmp : List UInt8) (size : UInt8) :
      ((handleLongMessage tmp size).bind fun r => .ok (r.1.take r.2.toNat)) = .error x ↔
        x = .fault ∧ 64 < size.toNat ∧ tmp.length < 64 := by
    have hlong : 64 < size ↔ 64 < size.toNat := UInt8.lt_iff_toNat_lt
    unfold handleLongMessage
    by_cases hsize : 64 < size
    · rw [if_pos hsize, and_iff_right (hlong.1 hsize)]
      by_cases hshort : tmp.length < 64
      · rw [if_pos hshort]
        simp [Except.bind, hshort, eq_comm]
      · rw [if_neg hshort]
        simp [Except.bind, hshort]
    · rw [if_neg hsize]
      simp [Except.bind, mt hlong.2 hsize]
  have hlength : (body ++ (nervosMagic ++ body).drop body.length).length = body.length + 15 := by
    rw [List.length_append, List.length_drop, List.length_append]
    simp only [nervosMagic, List.length_cons, List.length_nil]
    omega
  unfold messageDisplay
  rw [sliceMagicBytes_append h]
  cases displayAsHex with
  | true =>
    refine (hsplit _ _).trans ?_
    rw [hbody, hlength]
    simp only [reduceCtorEq, false_and, and_false, iff_false, not_and]
    omega
  | false =>
    obtain ⟨missing, hmissing, hout, hsize⟩ := replaceLoop_size h
    have hchars := length_le_replaceLoop (Nat.le_refl body.length) (UInt8.ofNat body.length)
    refine (hsplit _ _).trans ?_
    rw [and_iff_right rfl]
    refine and_congr_right fun _ => ?_
    unfold Overrun
    rw [hbody, List.take_left]
    rw [List.length_append, List.length_append, List.length_replicate, List.drop_left,
      List.length_drop, List.length_append, show nervosMagic.length = 15 from rfl]
    omega

namespace MessageState

/-- The packet is the first one of a text, which overruns. -/
def Overruns (s : MessageState) (p1 : UInt8) (buff : List UInt8) : Prop :=
  p1 &&& 0x7F = p1Next ∧ s.packetIndex = 0 ∧ s.displayAsHex = false ∧
    ∃ body, buff = nervosMagic ++ body ∧ body.length ≤ 215 ∧ Overrun body

/-- What showing the first packet throws: that it does not begin with the magic is reported. -/
theorem showFirst_error_iff (s : MessageState) {buff : List UInt8}
    (hlength : buff.length ≤ maxApduSize) :
    (∀ x, s.showFirst buff = .error x → x.Reported ∨ x = .fault) ∧
      (s.showFirst buff = .error .fault ↔ s.packetIndex = 1 ∧ s.displayAsHex = false ∧
        ∃ body, buff = nervosMagic ++ body ∧ body.length ≤ 215 ∧ Overrun body) := by
  obtain ⟨-, -, -, -, -, hparse, -⟩ := reported_constants
  unfold showFirst
  by_cases hindex : s.packetIndex = 1
  · rw [if_pos hindex, and_iff_right hindex]
    by_cases hmagic : checkMagicBytes buff = true
    · rw [hmagic, Bool.not_true, if_neg Bool.false_ne_true]
      obtain ⟨body, rfl⟩ : ∃ body, buff = nervosMagic ++ body := by
        rw [checkMagicBytes, decide_eq_true_eq] at hmagic
        refine ⟨buff.drop nervosMagic.length, ?_⟩
        conv_lhs => rw [← List.take_append_drop nervosMagic.length buff, hmagic]
      have hbody : body.length ≤ 215 := by
        rw [List.length_append] at hlength
        simp only [maxApduSize, nervosMagic, List.length_cons, List.length_nil] at hlength
        omega
      have hbind (x : Exn) : (messageDisplay s.displayAsHex (nervosMagic ++ body) >>= fun shown =>
          Except.ok { s with display := s.display.write 0 shown, displaySize := shown.length }) =
            .error x ↔ x = .fault ∧ s.displayAsHex = false ∧ Overrun body := by
        rw [← messageDisplay_error_iff _ hbody]
        cases messageDisplay s.displayAsHex (nervosMagic ++ body) <;> simp [bind, Except.bind]
      refine ⟨fun x hx => .inr ((hbind x).1 hx).1, (hbind .fault).trans ?_⟩
      rw [and_iff_right rfl]
      refine and_congr_right fun _ => ⟨fun h => ⟨body, rfl, hbody, h⟩, ?_⟩
      rintro ⟨body', hsame, -, h⟩
      rwa [List.append_cancel_left hsame]
    · rw [Bool.not_eq_true] at hmagic
      rw [hmagic, Bool.not_false, if_pos rfl]
      refine ⟨fun x hx => .inl ?_, iff_of_false ?_ ?_⟩
      · cases hx
        exact hparse
      · intro hfault
        cases hfault
      · rintro ⟨-, body, rfl, -⟩
        rw [checkMagicBytes, List.take_left, decide_eq_false_iff_not] at hmagic
        exact hmagic rfl
  · rw [if_neg hindex]
    simp [hindex]

/-- What handling a packet of a message throws is reported, unless the text overruns. -/
theorem handleApdu_error_iff (env : Env) (nd : NvramData) (s : MessageState) (p1 : UInt8)
    (buff : List UInt8) :
    (∀ x, s.handleApdu env nd p1 buff = .error x → x.Reported ∨ x = .fault) ∧
      (s.handleApdu env nd p1 buff = .error .fault ↔ s.Overruns p1 buff) := by
  obtain ⟨hparam, -, -, hwrong, hrejected, hparse, -⟩ := reported_constants
  -- where all that is thrown is reported, there must be no overrun
  have hreports {x : Except Exn (Answer × MessageState)} {q : Prop}
      (h : Throws Exn.Reported x) (hq : ¬ q) :
      (∀ y, x = .error y → y.Reported ∨ y = .fault) ∧ (x = .error .fault ↔ q) :=
    ⟨fun y hy => .inl (h y hy), iff_of_false (fun hfault => h _ hfault) hq⟩
  unfold handleApdu Overruns
  by_cases hlong : maxApduSize < buff.length
  · rw [if_pos hlong]
    refine hreports (.error hwrong) ?_
    rintro ⟨-, -, -, body, rfl, hbody, -⟩
    rw [List.length_append] at hlong
    simp only [maxApduSize, nervosMagic, List.length_cons, List.length_nil] at hlong
    omega
  rw [if_neg hlong]
  by_cases hfirst : p1 &&& 0x7F = p1First
  · rw [if_pos hfirst]
    refine hreports (.ite (.error hrejected) (.bind (throws_readBip32Path _ _) fun _ => .ok _)) ?_
    rintro ⟨hnext, -⟩
    rw [hfirst] at hnext
    cases hnext
  rw [if_neg hfirst]
  by_cases hnext : p1 &&& 0x7F = p1Next
  · rw [if_pos hnext, and_iff_right hnext]
    unfold nextPacket
    by_cases hfull : 0xFF ≤ s.packetIndex
    · rw [if_pos hfull]
      refine hreports (.error hparse) ?_
      rintro ⟨hzero, -⟩
      rw [hzero] at hfull
      exact absurd hfull (by decide)
    rw [if_neg hfull]
    have hlt : s.packetIndex.toNat < 255 := by
      rwa [UInt8.not_le, UInt8.lt_iff_toNat_lt] at hfull
    have hone : s.packetIndex + 1 = 1 ↔ s.packetIndex = 0 := by
      rw [← UInt8.toNat_inj, ← UInt8.toNat_inj, UInt8.toNat_add]
      simp only [UInt8.reduceToNat]
      omega
    obtain ⟨hcases, hfault⟩ := showFirst_error_iff { s with packetIndex := s.packetIndex + 1 }
      (Nat.not_lt.1 hlong)
    dsimp only at hfault
    rw [hone] at hfault
    rw [← hfault]
    cases hshow : { s with packetIndex := s.packetIndex + 1 }.showFirst buff with
    | error y =>
      refine ⟨fun x hx => ?_, ?_⟩
      · cases hx
        exact hcases y hshow
      · constructor <;> rintro ⟨⟩ <;> rfl
    | ok s' =>
      refine hreports (.ite ?_ (.ok _)) (by simp)
      exact .bind (throws_uiPrompt nd _) fun _ => .ok _
  · rw [if_neg hnext]
    exact hreports (.error hparam) fun h => hnext h.1

end MessageState


end LedgerNervos
