import LedgerNervos.App.Message
import LedgerNervos.Device.Reference
import LedgerNervos.Lts.Runs

/-!
# Message sessions

`messageSession` streams a message into the handler of `INS_SIGN_MESSAGE`: the packet with the
path, then the packets of the message, the last of them marked.  Every packet is hashed as it was
received; only the first one is looked at for what is shown.

## Main results

* `messageSession_digest` : what is signed is the hash of all packets, which start with the magic.
* `message_shown_iff` : when the text on the screen is that of the whole message.
-/

namespace LedgerNervos

/-- A packet of a message, with the settings at the time it arrives. -/
structure MessagePacket where
  bytes : List UInt8
  nd : NvramData := {}
deriving DecidableEq

/-- Stream the packets of a message into the handler, up to the prompt. -/
def messagePackets (env : Env) : MessageState → List MessagePacket → Option (Prompt × MessageState)
  | _, [] => none
  | s, p :: ps =>
    match s.handleApdu env p.nd (if ps.isEmpty then p1Next ||| p1LastMarker else p1Next)
      p.bytes with
    | .ok (.prompt prompt, s) => some (prompt, s)
    | .ok (.reply _, s) => messagePackets env s ps
    | .ok (.sent _, _) | .error _ => none

/-- A whole session: the packet with the path, in any state, and the packets of the message. -/
def messageSession (env : Env) (s : MessageState) (first : MessagePacket)
    (ps : List MessagePacket) : Option (Prompt × MessageState) :=
  match s.handleApdu env first.nd p1First first.bytes with
  | .ok (_, s) => messagePackets env s ps
  | .error _ => none

/-- The bytes of a message, in the packets as they are received. -/
def messageBytes (ps : List MessagePacket) : List UInt8 := ps.flatMap MessagePacket.bytes

namespace MessageState

variable {env : Env} {nd : NvramData} {s s' : MessageState} {buff : List UInt8} {a : Answer}
  {last : Bool}

/-! ### One packet -/

/-- The handler has taken a packet of the message. -/
structure Took (s : MessageState) (p : MessagePacket) (s' : MessageState) : Prop where
  index : s'.packetIndex.toNat = s.packetIndex.toNat + 1
  key : s'.key = s.key
  displayAsHex : s'.displayAsHex = s.displayAsHex
  fed : s'.hashState.fed = s.hashState.fed ++ p.bytes
  finished : s'.hashState.finished = s.hashState.finished
  /-- The first packet is the one that is shown. -/
  first : s.packetIndex = 0 → checkMagicBytes p.bytes = true ∧
    ∃ shown, messageDisplay s.displayAsHex p.bytes = .ok shown ∧
      s'.display = s.display.write 0 shown ∧ s'.displaySize = shown.length
  later : s.packetIndex ≠ 0 → s'.display = s.display ∧ s'.displaySize = s.displaySize

/-- What an accepted packet has led to. -/
theorem nextPacket_ok {p : MessagePacket} (h : s.nextPacket env nd last p.bytes = .ok (a, s')) :
    ∃ s₁, s.Took p s₁ ∧
      (if last then s₁.complete env nd
        else .ok (.reply (finalizeSuccessfulSend .status []), s₁)) = .ok (a, s') := by
  unfold nextPacket at h
  by_cases hfull : 0xFF ≤ s.packetIndex
  · rw [if_pos hfull] at h
    cases h
  rw [if_neg hfull, bind_eq_ok_iff] at h
  obtain ⟨s₂, hfirst, h⟩ := h
  have hlt : s.packetIndex.toNat < 255 := by
    rwa [UInt8.not_le, UInt8.lt_iff_toNat_lt] at hfull
  have hindex : (s.packetIndex + 1).toNat = s.packetIndex.toNat + 1 := by
    rw [UInt8.toNat_add]
    simp only [UInt8.reduceToNat]
    omega
  refine ⟨{ s₂ with hashState := s₂.hashState.incrementalHash p.bytes }, ?_, h⟩
  unfold showFirst at hfirst
  dsimp only at hfirst
  by_cases hone : s.packetIndex + 1 = 1
  · have hzero : s.packetIndex = 0 := by
      have := congrArg UInt8.toNat hone
      rw [hindex] at this
      exact UInt8.toNat_inj.1 (by simpa using this)
    rw [if_pos hone] at hfirst
    split_ifs at hfirst with hmagic
    rw [bind_eq_ok_iff] at hfirst
    obtain ⟨shown, hshown, hs₂⟩ := hfirst
    cases hs₂
    exact ⟨hindex, rfl, rfl, rfl, rfl, fun _ => ⟨by simpa using hmagic, shown, hshown, rfl, rfl⟩,
      fun hne => absurd hzero hne⟩
  · rw [if_neg hone] at hfirst
    cases hfirst
    refine ⟨hindex, rfl, rfl, rfl, rfl, fun hzero => ?_, fun _ => ⟨rfl, rfl⟩⟩
    rw [hzero] at hone
    exact absurd rfl hone

/-- With the last packet, the hash is finished and the prompt is put up. -/
theorem complete_ok (h : s.complete env nd = .ok (a, s')) :
    ∃ prompt, a = .prompt prompt ∧ prompt.ok = .signMessageOk ∧
      prompt.screens = [⟨.text "Sign", .text "Message"⟩,
        ⟨.text "Message: ", if s.displayAsHex then .hex (s.display.1.take s.displaySize)
          else .buffer (s.display.1.take s.displaySize)⟩] ∧
      s'.key = s.key ∧ s'.packetIndex = s.packetIndex ∧
      s'.finalHash = (s.hashState.finishHash env).1 := by
  simp only [complete, bind_eq_ok_iff, pure, Except.pure, Except.ok.injEq, Prod.mk.injEq] at h
  obtain ⟨screens, hscreens, rfl, rfl⟩ := h
  exact ⟨_, rfl, rfl, uiPrompt_ok hscreens, rfl, rfl, rfl⟩

/-- The packet with the path starts from nothing, whatever was there before. -/
theorem handleApdu_first {p1 : UInt8} (hp1 : p1 &&& 0x7F = p1First)
    (h : s.handleApdu env nd p1 buff = .ok (a, s')) :
    1 < buff.length ∧ ∃ key, readBip32Path .zero (buff.drop 1) = .ok key ∧
      s' = { key := key, displayAsHex := buff.headD 0 ≠ 0 } := by
  unfold handleApdu at h
  rw [if_pos hp1] at h
  split_ifs at h with hlong hshort
  simp only [bind_eq_ok_iff, pure, Except.pure, Except.ok.injEq, Prod.mk.injEq] at h
  obtain ⟨key, hkey, -, rfl⟩ := h
  exact ⟨by omega, key, hkey, rfl⟩

theorem handleApdu_next {p1 : UInt8} (hp1 : p1 &&& 0x7F = p1Next)
    (h : s.handleApdu env nd p1 buff = .ok (a, s')) :
    s.nextPacket env nd (p1 &&& p1LastMarker ≠ 0) buff = .ok (a, s') := by
  unfold handleApdu at h
  rw [hp1] at h
  split_ifs at h with hlong hfirst
  · cases hfirst
  · exact h

end MessageState

/-! ### All packets -/

open MessageState

variable {env : Env} {s s' : MessageState} {ps : List MessagePacket} {prompt : Prompt}

/-- The packets of a session that leads to a prompt have been taken one after the other. -/
theorem messagePackets_runs (h : messagePackets env s ps = some (prompt, s')) :
    ps ≠ [] ∧ ∃ s₁ nd, Runs Took s ps s₁ ∧ s₁.complete env nd = .ok (.prompt prompt, s') := by
  induction ps generalizing s with
  | nil => cases h
  | cons p ps ih =>
    refine ⟨by simp, ?_⟩
    unfold messagePackets at h
    cases hp : s.handleApdu env p.nd (if ps.isEmpty then p1Next ||| p1LastMarker else p1Next)
        p.bytes with
    | error x => rw [hp] at h; cases h
    | ok x =>
      obtain ⟨a, s₂⟩ := x
      rw [hp] at h
      cases ps with
      | nil =>
        obtain ⟨s₁, htook, hcomplete⟩ := nextPacket_ok (handleApdu_next (by decide) hp)
        obtain ⟨prompt', rfl, -⟩ := complete_ok hcomplete
        cases h
        exact ⟨s₁, p.nd, Runs.single_iff.2 htook, hcomplete⟩
      | cons q ps =>
        rw [List.isEmpty_cons, if_neg (by simp)] at hp
        obtain ⟨s₁, htook, hreply⟩ := nextPacket_ok (handleApdu_next (by decide) hp)
        rw [if_neg (by decide)] at hreply
        cases hreply
        obtain ⟨-, s₃, nd, hruns, hcomplete⟩ := ih h
        exact ⟨s₃, nd, .cons htook hruns, hcomplete⟩

/-- All packets are hashed as they are received, and counted without wrapping. -/
theorem runs_took (h : Runs Took s ps s') :
    s'.packetIndex.toNat = s.packetIndex.toNat + ps.length ∧ s'.key = s.key ∧
      s'.hashState.fed = s.hashState.fed ++ messageBytes ps ∧
      s'.hashState.finished = s.hashState.finished := by
  induction h with
  | nil s => exact ⟨rfl, rfl, by simp [messageBytes], rfl⟩
  | cons htook _ ih =>
    obtain ⟨hindex, hkey, hfed, hfinished⟩ := ih
    refine ⟨?_, hkey.trans htook.key, ?_, hfinished.trans htook.finished⟩
    · rw [hindex, htook.index, List.length_cons]
      omega
    · rw [hfed, htook.fed, List.append_assoc]
      rfl

/-- What is shown stays what the first packet has made it. -/
theorem runs_took_later (h : Runs Took s ps s') (hs : s.packetIndex ≠ 0) :
    s'.display = s.display ∧ s'.displaySize = s.displaySize ∧ s'.displayAsHex = s.displayAsHex := by
  have hkeep : s'.packetIndex ≠ 0 ∧ s'.display = s.display ∧ s'.displaySize = s.displaySize ∧
      s'.displayAsHex = s.displayAsHex := by
    refine h.invariant (I := fun x => x.packetIndex ≠ 0 ∧ x.display = s.display ∧
      x.displaySize = s.displaySize ∧ x.displayAsHex = s.displayAsHex) ⟨hs, rfl, rfl, rfl⟩ ?_
    rintro x p x' - htook ⟨hx, hdisplay, hsize, hhex⟩
    obtain ⟨hdisplay', hsize'⟩ := htook.later hx
    refine ⟨fun hzero => ?_, hdisplay'.trans hdisplay, hsize'.trans hsize,
      htook.displayAsHex.trans hhex⟩
    have := htook.index
    rw [hzero] at this
    simp at this
  exact hkeep.2

/-- What the packet with the path has led to. -/
theorem messageSession_some {first : MessagePacket}
    (h : messageSession env s first ps = some (prompt, s')) :
    ∃ key, readBip32Path .zero (first.bytes.drop 1) = .ok key ∧
      messagePackets env { key := key, displayAsHex := first.bytes.headD 0 ≠ 0 } ps =
        some (prompt, s') := by
  unfold messageSession at h
  cases hf : s.handleApdu env first.nd p1First first.bytes with
  | error x => rw [hf] at h; cases h
  | ok x =>
    rw [hf] at h
    obtain ⟨-, key, hkey, hx⟩ := handleApdu_first (by decide) hf
    exact ⟨key, hkey, by rw [← hx]; exact h⟩

/-- **Message digest.**  When a session leads to the prompt, the message starts with the magic, it
came in at most 255 packets, each of them counted, and what is signed is the hash of the message as
it was received, with the key of the path in the first packet. -/
theorem messageSession_digest (env : Env) (s : MessageState) (first : MessagePacket)
    (ps : List MessagePacket) (prompt : Prompt) (s' : MessageState)
    (h : messageSession env s first ps = some (prompt, s')) :
    (∃ p rest, ps = p :: rest ∧ nervosMagic <+: p.bytes) ∧
      ps.length ≤ 255 ∧ s'.packetIndex.toNat = ps.length ∧
      readBip32Path .zero (first.bytes.drop 1) = .ok s'.key ∧
      s'.finalHash = env.blake2b (messageBytes ps) ∧ prompt.ok = .signMessageOk ∧
      s'.performSignature env = (signWithPath env s'.key (env.blake2b (messageBytes ps)).1).map
        fun signature => finalizeSuccessfulSend .signature signature.1 := by
  obtain ⟨key, hkey, hpackets⟩ := messageSession_some h
  obtain ⟨hne, s₁, nd, hruns, hcomplete⟩ := messagePackets_runs hpackets
  obtain ⟨hindex, hkey₁, hfed, hfinished⟩ := runs_took hruns
  obtain ⟨_, ⟨⟩, hok, -, hkey', hindex', hhash⟩ := complete_ok hcomplete
  have hdigest : s'.finalHash = env.blake2b (messageBytes ps) := by
    rw [hhash, HashState.finishHash, hfinished, hfed]
    rfl
  have hmagic : ∃ p rest, ps = p :: rest ∧ nervosMagic <+: p.bytes := by
    cases hruns with
    | nil => exact absurd rfl hne
    | cons htook _ =>
      refine ⟨_, _, rfl, ?_⟩
      have := (htook.first rfl).1
      rw [checkMagicBytes, decide_eq_true_eq] at this
      rw [List.prefix_iff_eq_take]
      exact this.symm
  have hcount : s'.packetIndex.toNat = ps.length := by
    rw [hindex', hindex]
    simp
  refine ⟨hmagic, ?_, hcount, ?_, hdigest, hok, ?_⟩
  · have := s'.packetIndex.toNat_lt
    omega
  · rw [hkey', hkey₁]
    exact hkey
  · unfold MessageState.performSignature
    rw [hdigest]
    cases signWithPath env s'.key (env.blake2b (messageBytes ps)).1 <;> rfl

/-- A session of two packets. -/
def greeting : List MessagePacket := [⟨nervosMagic ++ [72, 105], {}⟩, ⟨[33], {}⟩]

/-- The packet with a path of one component, for a message that is shown as text. -/
def textPath : MessagePacket := ⟨[0, 1, 0x80, 0, 0, 44], {}⟩

theorem messageSession_digest_greeting :
    ∃ prompt s', messageSession Env.reference {} textPath greeting = some (prompt, s') ∧
      s'.finalHash = Env.reference.blake2b (nervosMagic ++ [72, 105, 33]) := by
  have hsome : (messageSession Env.reference {} textPath greeting).isSome = true := by
    decide +kernel
  obtain ⟨⟨prompt, s'⟩, h⟩ := Option.isSome_iff_exists.1 hsome
  obtain ⟨-, -, -, -, hdigest, -⟩ := messageSession_digest _ _ _ _ _ _ h
  exact ⟨prompt, s', h, hdigest⟩

/-! ### What is shown -/

/-- What is shown of a text: all of it, or its first 61 characters and an ellipsis. -/
def shownText (body : List UInt8) : List UInt8 :=
  if body.length ≤ 64 then body else body.take 61 ++ [46, 46, 46]

/-- The printable ASCII characters. -/
def Printable (bs : List UInt8) : Prop := ∀ b ∈ bs, 32 ≤ b ∧ b ≤ 126

instance decidablePrintable (bs : List UInt8) : Decidable (Printable bs) :=
  List.decidableBAll (fun b => 32 ≤ b ∧ b ≤ 126) bs

theorem replaceLoop_printable {bs : List UInt8} (h : Printable bs) {fuel : ℕ}
    (hfuel : bs.length ≤ fuel) (size : UInt8) : replaceLoop fuel bs size = (bs, size) := by
  induction bs generalizing fuel with
  | nil => cases fuel <;> rfl
  | cons b bs ih =>
    rw [List.length_cons] at hfuel
    obtain ⟨fuel, rfl⟩ : ∃ k, fuel = k + 1 := ⟨fuel - 1, by omega⟩
    obtain ⟨hlow, hhigh⟩ := h b (List.mem_cons_self ..)
    have hshown : ¬ (126 < b ∨ b < 32) := by
      rw [not_or, UInt8.not_lt, UInt8.not_lt]
      exact ⟨hhigh, hlow⟩
    rw [replaceLoop, if_neg hshown, ih (fun c hc => h c (List.mem_cons_of_mem _ hc))
      (Nat.le_of_succ_le_succ hfuel)]

/-- Of a printable first packet, the beginning is shown as it is. -/
theorem messageDisplay_printable {body : List UInt8} (h : Printable body)
    (hlen : (nervosMagic ++ body).length ≤ maxApduSize) :
    messageDisplay false (nervosMagic ++ body) = .ok (shownText body) := by
  have hmagic : nervosMagic.length = 15 := rfl
  rw [List.length_append, hmagic, maxApduSize] at hlen
  have hsize : (UInt8.ofNat (nervosMagic ++ body).length).toNat = 15 + body.length := by
    rw [UInt8.toNat_ofNat', List.length_append, hmagic]
    omega
  have hbody : (UInt8.ofNat body.length).toNat = body.length := by
    rw [UInt8.toNat_ofNat']
    omega
  have hslice : sliceMagicBytes (nervosMagic ++ body) (UInt8.ofNat (nervosMagic ++ body).length) =
      (body ++ (nervosMagic ++ body).drop body.length, UInt8.ofNat body.length) := by
    simp only [sliceMagicBytes, hsize, hmagic]
    rw [show 15 + body.length - 15 = body.length by omega, List.drop_left' hmagic,
      List.take_length]
  have hreplace (rest : List UInt8) :
      replaceUndisplayable (body ++ rest) (UInt8.ofNat body.length) =
        (body ++ rest, UInt8.ofNat body.length) := by
    simp only [replaceUndisplayable, hbody, List.take_left, List.drop_left]
    rw [replaceLoop_printable h (Nat.le_refl _)]
    simp
  simp only [messageDisplay, hslice, Bool.not_false, if_true, hreplace]
  have hlong : (64 : UInt8) < UInt8.ofNat body.length ↔ ¬ body.length ≤ 64 := by
    rw [UInt8.lt_iff_toNat_lt, hbody, Nat.not_le]
    rfl
  unfold handleLongMessage shownText
  by_cases hle : body.length ≤ 64
  · rw [if_neg (by rwa [hlong, not_not]), if_pos hle]
    change Except.ok (List.take (UInt8.ofNat body.length).toNat _) = _
    rw [hbody, List.take_left]
  · rw [if_pos (hlong.2 hle), if_neg hle, if_neg (by simp; omega)]
    have h61 (rest : List UInt8) : (body ++ rest).take 61 = body.take 61 :=
      List.take_append_of_le_length (by omega)
    change Except.ok (List.take 64 _) = _
    rw [h61, List.take_left' (by simp; omega)]

/-- When the beginning of a text is shown like the whole text. -/
theorem shownText_eq_iff {part body : List UInt8} (h : part <+: body) :
    shownText part = shownText body ↔
      part = body ∨ 64 < part.length ∨ (part.length = 64 ∧ part.drop 61 = [46, 46, 46]) := by
  have htake (hlen : 61 ≤ part.length) : part.take 61 = body.take 61 := by
    obtain ⟨rest, rfl⟩ := h
    exact (List.take_append_of_le_length hlen).symm
  have hle := h.length_le
  unfold shownText
  constructor
  · intro heq
    by_cases hlong : 64 < part.length
    · exact .inr (.inl hlong)
    rw [if_pos (Nat.not_lt.1 hlong)] at heq
    by_cases hbody : body.length ≤ 64
    · rw [if_pos hbody] at heq
      exact .inl heq
    · rw [if_neg hbody] at heq
      have h61 : (body.take 61).length = 61 := by
        rw [List.length_take]
        omega
      refine .inr (.inr ⟨?_, ?_⟩)
      · rw [heq, List.length_append, h61]
        rfl
      · rw [heq, List.drop_left' h61]
  · rintro (rfl | hlong | ⟨hlen, hdots⟩)
    · rfl
    · rw [if_neg (Nat.not_le.2 hlong), if_neg (by omega), htake (by omega)]
    · by_cases hbody : body.length ≤ 64
      · have heq : part = body := h.eq_of_length (by omega)
        rw [heq]
      · rw [if_pos (by omega), if_neg hbody, ← htake (by omega), ← hdots, List.take_append_drop]

/-! ### The message on the screen -/

/-- The handler accepts a packet as long as it can count it and can show the first one. -/
theorem MessageState.nextPacket_accepts (env : Env) (nd : NvramData) (p : MessagePacket)
    (last : Bool) (hindex : s.packetIndex.toNat < 255)
    (hshow : s.packetIndex = 0 → checkMagicBytes p.bytes = true ∧
      ∃ shown, messageDisplay s.displayAsHex p.bytes = .ok shown) :
    ∃ a s', s.nextPacket env nd last p.bytes = .ok (a, s') := by
  have hfull : ¬ 0xFF ≤ s.packetIndex := by
    rw [UInt8.not_le, UInt8.lt_iff_toNat_lt]
    exact hindex
  have hfirst : ∃ s₂, { s with packetIndex := s.packetIndex + 1 }.showFirst p.bytes = .ok s₂ := by
    unfold showFirst
    dsimp only
    by_cases hone : s.packetIndex + 1 = 1
    · have hzero : s.packetIndex = 0 := by
        have := congrArg UInt8.toNat hone
        rw [UInt8.toNat_add] at this
        simp only [UInt8.reduceToNat] at this
        exact UInt8.toNat_inj.1 (by simp only [UInt8.reduceToNat]; omega)
      obtain ⟨hmagic, shown, hshown⟩ := hshow hzero
      rw [if_pos hone, hmagic, if_neg (by simp), hshown]
      exact ⟨_, rfl⟩
    · rw [if_neg hone]
      exact ⟨_, rfl⟩
  obtain ⟨s₂, hs₂⟩ := hfirst
  have hcomplete (s₃ : MessageState) : ∃ x, s₃.complete env nd = .ok x := by
    unfold complete
    cases hhex : s₃.displayAsHex with
    | false => exact ⟨_, rfl⟩
    | true => exact ⟨_, rfl⟩
  unfold nextPacket
  rw [if_neg hfull, hs₂]
  cases last with
  | false => exact ⟨_, _, rfl⟩
  | true =>
    obtain ⟨⟨a, s'⟩, hok⟩ := hcomplete { s₂ with
      hashState := s₂.hashState.incrementalHash p.bytes }
    exact ⟨a, s', hok⟩

theorem MessageState.handleApdu_next_eq (env : Env) (nd : NvramData) (s : MessageState)
    {p : MessagePacket} {p1 : UInt8} (hp1 : p1 &&& 0x7F = p1Next)
    (hlen : p.bytes.length ≤ maxApduSize) :
    s.handleApdu env nd p1 p.bytes =
      s.nextPacket env nd (p1 &&& p1LastMarker ≠ 0) p.bytes := by
  unfold handleApdu
  rw [if_neg (Nat.not_lt.2 hlen), hp1, if_neg (by decide), if_pos rfl]

/-- The packets of a message are accepted, up to 255 of them. -/
theorem messagePackets_accepts (env : Env) (hne : ps ≠ [])
    (hcount : s.packetIndex.toNat + ps.length ≤ 255)
    (hlen : ∀ p ∈ ps, p.bytes.length ≤ maxApduSize)
    (hshow : s.packetIndex = 0 → ∀ p rest, ps = p :: rest → checkMagicBytes p.bytes = true ∧
      ∃ shown, messageDisplay s.displayAsHex p.bytes = .ok shown) :
    ∃ prompt s', messagePackets env s ps = some (prompt, s') := by
  induction ps generalizing s with
  | nil => exact absurd rfl hne
  | cons p ps ih =>
    rw [List.length_cons] at hcount
    have hp := hlen p (List.mem_cons_self ..)
    have haccepts (last : Bool) := nextPacket_accepts env p.nd p last (s := s) (by omega)
      fun hzero => hshow hzero p ps rfl
    unfold messagePackets
    cases ps with
    | nil =>
      obtain ⟨a, s', hok⟩ := haccepts true
      rw [List.isEmpty_nil, if_pos rfl, handleApdu_next_eq env p.nd s (by decide) hp]
      change ∃ prompt s', (match s.nextPacket env p.nd true p.bytes with
        | .ok (.prompt prompt, s) => some (prompt, s)
        | .ok (.reply _, s) => messagePackets env s []
        | .ok (.sent _, _) | .error _ => none) = some (prompt, s')
      obtain ⟨s₁, -, hcomplete⟩ := nextPacket_ok hok
      obtain ⟨prompt, rfl, -⟩ := complete_ok hcomplete
      rw [hok]
      exact ⟨_, _, rfl⟩
    | cons q ps =>
      obtain ⟨a, s', hok⟩ := haccepts false
      rw [List.isEmpty_cons, if_neg (by simp), handleApdu_next_eq env p.nd s (by decide) hp]
      change ∃ prompt s', (match s.nextPacket env p.nd false p.bytes with
        | .ok (.prompt prompt, s) => some (prompt, s)
        | .ok (.reply _, s) => messagePackets env s (q :: ps)
        | .ok (.sent _, _) | .error _ => none) = some (prompt, s')
      obtain ⟨s₁, htook, hreply⟩ := nextPacket_ok hok
      cases hreply
      rw [hok]
      have hindex := htook.index
      refine ih (by simp) (by omega) (fun r hr => hlen r (List.mem_cons_of_mem _ hr)) ?_
      intro hzero
      rw [hzero] at hindex
      simp at hindex

/-- A text of printable characters is accepted, in up to 255 packets of which the first one holds
the magic. -/
theorem messageSession_accepts (env : Env) (s : MessageState) {first p : MessagePacket}
    {ps : List MessagePacket} {key : Bip32Path} {part : List UInt8} (hprintable : Printable part)
    (hpart : p.bytes = nervosMagic ++ part) (htext : first.bytes.headD 0 = 0)
    (hkey : readBip32Path .zero (first.bytes.drop 1) = .ok key)
    (hfirst : first.bytes.length ≤ maxApduSize)
    (hlen : ∀ q ∈ p :: ps, q.bytes.length ≤ maxApduSize) (hcount : ps.length < 255) :
    ∃ prompt s', messageSession env s first (p :: ps) = some (prompt, s') := by
  have hdisplay : messageDisplay false p.bytes = .ok (shownText part) := by
    have := hlen p (List.mem_cons_self ..)
    rw [hpart] at this ⊢
    exact messageDisplay_printable hprintable this
  have hchecked : checkMagicBytes p.bytes = true := by
    rw [checkMagicBytes, hpart, decide_eq_true_eq]
    exact List.take_left
  have hshort : ¬ first.bytes.length ≤ 1 := by
    intro hle
    rw [List.drop_of_length_le hle] at hkey
    cases hkey
  have hstart : messageSession env s first (p :: ps) =
      messagePackets env { key := key } (p :: ps) := by
    unfold messageSession MessageState.handleApdu
    rw [if_neg (Nat.not_lt.2 hfirst), if_pos (by decide), if_neg hshort, hkey, htext]
    rfl
  rw [hstart]
  refine messagePackets_accepts env (List.cons_ne_nil p ps) ?_ hlen ?_
  · change 0 + (ps.length + 1) ≤ 255
    omega
  · rintro - q qs hq
    cases hq
    exact ⟨hchecked, _, hdisplay⟩

/-- No packet that is accepted is longer than a request can be. -/
theorem messagePackets_length {p : MessagePacket} {rest : List MessagePacket}
    (h : messagePackets env s (p :: rest) = some (prompt, s')) :
    p.bytes.length ≤ maxApduSize := by
  refine Nat.not_lt.1 fun hlong => ?_
  unfold messagePackets MessageState.handleApdu at h
  rw [if_pos hlong] at h
  cases h

/-- **The message on the screen.**  When a session with a text of printable characters leads to
the prompt, what is shown is the beginning that the first packet holds.  This is what the whole
text is shown as exactly if the first packet holds all of it, or more than 64 characters of it, or
64 of which the last three are dots. -/
theorem message_shown_iff (env : Env) (s : MessageState) (first : MessagePacket)
    (ps : List MessagePacket) (body : List UInt8) (prompt : Prompt) (s' : MessageState)
    (hprintable : Printable body) (hcut : messageBytes ps = nervosMagic ++ body)
    (htext : first.bytes.headD 0 = 0) (h : messageSession env s first ps = some (prompt, s')) :
    ∃ part shown, (ps.headD ⟨[], {}⟩).bytes = nervosMagic ++ part ∧
      prompt.screens = [⟨.text "Sign", .text "Message"⟩, ⟨.text "Message: ", .buffer shown⟩] ∧
      (shown = shownText body ↔
        part = body ∨ 64 < part.length ∨ (part.length = 64 ∧ part.drop 61 = [46, 46, 46])) := by
  obtain ⟨⟨p, rest, rfl, part, hpart⟩, -⟩ := messageSession_digest _ _ _ _ _ _ h
  have hbody : part <+: body := by
    rw [messageBytes, List.flatMap_cons, ← hpart, List.append_assoc,
      List.append_cancel_left_eq] at hcut
    exact ⟨_, hcut⟩
  obtain ⟨key, -, hpackets⟩ := messageSession_some h
  rw [htext] at hpackets
  have hdisplay : messageDisplay false p.bytes = .ok (shownText part) := by
    have := messagePackets_length hpackets
    rw [← hpart] at this ⊢
    exact messageDisplay_printable (fun b hb => hprintable b (hbody.subset hb)) this
  obtain ⟨-, s₁, nd, hruns, hcomplete⟩ := messagePackets_runs hpackets
  obtain ⟨s₂, htook, hruns⟩ := Runs.cons_iff.1 hruns
  obtain ⟨-, shown, hshown, hwrite, hsize⟩ := htook.first rfl
  obtain ⟨hdisplay₁, hsize₁, hhex₁⟩ := runs_took_later hruns fun hzero => by
    have := htook.index
    rw [hzero] at this
    simp at this
  obtain ⟨_, ⟨⟩, -, hscreens, -⟩ := complete_ok hcomplete
  have hhex : s₁.displayAsHex = false := by
    rw [hhex₁, htook.displayAsHex]
    rfl
  have hpartShown : shown = shownText part := by
    change messageDisplay false p.bytes = _ at hshown
    rw [hdisplay] at hshown
    exact (Except.ok.inj hshown).symm
  have hfits : (shownText part).length ≤ 64 := by
    unfold shownText
    split_ifs with hle
    · exact hle
    · have : (part.take 61).length ≤ 61 := List.length_take_le ..
      rw [List.length_append]
      exact Nat.add_le_add_right this 3
  refine ⟨part, shownText part, hpart.symm, ?_, shownText_eq_iff hbody⟩
  have htake : (s₁.display.1.take s₁.displaySize) = shownText part := by
    rw [hdisplay₁, hsize₁, hwrite, hsize, hpartShown]
    simp only [Bytes.write, List.take_zero, List.nil_append, List.take_take]
    rw [min_eq_left hfits, List.take_left]
  rw [hscreens, hhex, htake]
  rfl

theorem message_shown_iff_greeting :
    ∃ prompt s' part shown, messageSession Env.reference {} textPath greeting = some (prompt, s') ∧
      nervosMagic ++ [72, 105] = nervosMagic ++ part ∧
      prompt.screens = [⟨.text "Sign", .text "Message"⟩, ⟨.text "Message: ", .buffer shown⟩] ∧
      (shown = shownText [72, 105, 33] ↔ part = [72, 105, 33] ∨ 64 < part.length ∨
        (part.length = 64 ∧ part.drop 61 = [46, 46, 46])) := by
  have hsome : (messageSession Env.reference {} textPath greeting).isSome = true := by
    decide +kernel
  obtain ⟨⟨prompt, s'⟩, h⟩ := Option.isSome_iff_exists.1 hsome
  obtain ⟨part, shown, hpart, hscreens, hiff⟩ := message_shown_iff _ _ _ _ [72, 105, 33] _ _
    (by decide) (by decide) (by decide) h
  exact ⟨prompt, s', part, shown, h, hpart, hscreens, hiff⟩

/-- The message "Hi!" in two packets is shown as "Hi". -/
theorem greeting_shown_cut :
    Printable [72, 105, 33] ∧ messageBytes greeting = nervosMagic ++ [72, 105, 33] ∧
      (messageSession Env.reference {} textPath greeting).map (·.1.screens) =
        some [⟨.text "Sign", .text "Message"⟩, ⟨.text "Message: ", .buffer [72, 105]⟩] ∧
      shownText [72, 105, 33] = [72, 105, 33] := by
  refine ⟨by decide, by decide, by decide +kernel, by decide⟩

end LedgerNervos
