import LedgerNervos.App.MessageSession
import LedgerNervos.App.Sessions
import LedgerNervos.Sign.Compact

/-!
# Signing messages

A message arrives among the requests of all other instructions.  In a run of isolated steps, what
is signed when the user accepts it is the hash of its packets, all of them in their order, with the
key of the path in the packet that has started the session; and the prompt shows the beginning of
the first packet behind the magic (`message_signed_is_shown`).
-/

namespace LedgerNervos

variable {U : Type} {env : Env} {rs : List Request} {r : Request} {st st' : MemberState}

/-- The packet as it is streamed into the handler of messages. -/
def Request.messagePacket (r : Request) : MessagePacket := ⟨r.cdata, r.nd⟩

/-- The text of a message, in the packets as they are received. -/
def Request.text (rs : List Request) : List UInt8 := rs.flatMap Request.cdata

theorem messageBytes_map (rs : List Request) :
    messageBytes (rs.map Request.messagePacket) = Request.text rs := by
  rw [messageBytes, List.flatMap_map]
  rfl

namespace MessageState

variable {s s' : MessageState}

/-- Of the first byte of the parameters of a later packet, only the mark counts. -/
theorem handleApdu_packet {nd : NvramData} {p1 : UInt8} {buff : List UInt8} {a : Answer}
    (hfirst : p1 &&& 0x7F ≠ p1First) (h : s.handleApdu env nd p1 buff = .ok (a, s')) :
    s.handleApdu env nd (if p1 &&& p1LastMarker ≠ 0 then p1Next ||| p1LastMarker else p1Next)
      buff = .ok (a, s') := by
  have hnext : p1 &&& 0x7F = p1Next := by
    unfold handleApdu at h
    split_ifs at h with hlen hnext
    · exact hnext
  unfold handleApdu at h ⊢
  rw [hnext] at h
  by_cases hmark : p1 &&& p1LastMarker ≠ 0
  · rw [decide_eq_true hmark] at h
    rw [if_pos hmark]
    exact h
  · rw [decide_eq_false hmark] at h
    rw [if_neg hmark]
    exact h

/-- A packet of the text is answered with a prompt just when it has the mark of the last one. -/
theorem marked_iff_prompt {nd : NvramData} {p1 : UInt8} {buff : List UInt8} {a : Answer}
    (hfirst : p1 &&& 0x7F ≠ p1First) (h : s.handleApdu env nd p1 buff = .ok (a, s')) :
    p1 &&& p1LastMarker ≠ 0 ↔ ∃ p, a = .prompt p := by
  have hmasked {p1 : UInt8} (hp1 : p1 &&& 0x7F = p1Next)
      (h : s.handleApdu env nd p1 buff = .ok (a, s')) :
      p1 &&& p1LastMarker ≠ 0 ↔ ∃ p, a = .prompt p := by
    obtain ⟨s₁, -, hanswer⟩ := nextPacket_ok (p := ⟨buff, nd⟩) (handleApdu_next hp1 h)
    by_cases hmark : p1 &&& p1LastMarker ≠ 0
    · rw [decide_eq_true hmark, if_pos rfl] at hanswer
      obtain ⟨p, hp, -⟩ := complete_ok hanswer
      exact iff_of_true hmark ⟨p, hp⟩
    · rw [decide_eq_false hmark, if_neg Bool.false_ne_true] at hanswer
      cases hanswer
      exact iff_of_false hmark nofun
  have hplain := handleApdu_packet hfirst h
  split_ifs at hplain with hmark
  · exact iff_of_true hmark ((hmasked (by decide) hplain).1 (by decide))
  · refine iff_of_false hmark fun hp => ?_
    exact absurd ((hmasked (by decide) hplain).2 hp) (by decide)

theorem messagePackets_prompt {q : MessagePacket} {p : Prompt}
    (h : s.handleApdu env q.nd (p1Next ||| p1LastMarker) q.bytes = .ok (.prompt p, s')) :
    messagePackets env s [q] = some (p, s') := by
  simp only [messagePackets, List.isEmpty_nil, if_true, h]

theorem messagePackets_reply {q : MessagePacket} {ps : List MessagePacket} {rep : Reply}
    (hmore : ps.isEmpty = false)
    (h : s.handleApdu env q.nd p1Next q.bytes = .ok (.reply rep, s')) :
    messagePackets env s (q :: ps) = messagePackets env s' ps := by
  simp only [messagePackets, hmore, Bool.false_eq_true, if_false, h]

/-- **Packets.**  Packets that are answered with status words, and then with a prompt, are streamed
by `messagePackets`. -/
theorem messagePackets_of_replies {p : Prompt} (hrun : Runs (Replies env) (.message s) rs st)
    (hr : Prompts env st r p st') (hlater : ∀ x ∈ rs ++ [r], ¬ x.First .message) :
    ∃ s', st' = .message s' ∧
      messagePackets env s ((rs ++ [r]).map Request.messagePacket) = some (p, s') := by
  induction rs generalizing s with
  | nil =>
    cases hrun
    obtain ⟨io, hr⟩ := hr
    simp only [MemberState.handle, map_eq_ok_iff, mapError_eq_ok_iff, Prod.mk.injEq] at hr
    obtain ⟨⟨a, s'⟩, hr, rfl, rfl, -⟩ := hr
    have hfirst : r.p1 &&& 0x7F ≠ p1First := hlater r (List.mem_singleton_self r)
    have hmark := (marked_iff_prompt hfirst hr).2 ⟨p, rfl⟩
    have hplain := handleApdu_packet hfirst hr
    rw [if_pos hmark] at hplain
    exact ⟨s', rfl, messagePackets_prompt hplain⟩
  | cons x rs ih =>
    obtain ⟨st₁, hx, htail⟩ := Runs.cons_iff.1 hrun
    obtain ⟨rep, io, hx⟩ := hx
    simp only [MemberState.handle, map_eq_ok_iff, mapError_eq_ok_iff, Prod.mk.injEq] at hx
    obtain ⟨⟨a, s₁⟩, hx, rfl, rfl, -⟩ := hx
    have hfirst : x.p1 &&& 0x7F ≠ p1First := hlater x (List.mem_cons_self ..)
    have hmark : ¬ x.p1 &&& p1LastMarker ≠ 0 := by
      rw [marked_iff_prompt hfirst hx]
      rintro ⟨p, hp⟩
      cases hp
    have hplain := handleApdu_packet hfirst hx
    rw [if_neg hmark] at hplain
    obtain ⟨s', rfl, hs'⟩ := ih htail fun y hy => hlater y (List.mem_cons_of_mem _ hy)
    have hmore : ((rs ++ [r]).map Request.messagePacket).isEmpty = false := by
      rw [List.isEmpty_map]
      cases rs <;> rfl
    refine ⟨s', rfl, ?_⟩
    rw [List.cons_append, List.map_cons, messagePackets_reply hmore hplain]
    exact hs'

end MessageState

/-! ### What is shown and signed -/

theorem handleLongMessage_size {buff tmp : List UInt8} {size size' : UInt8}
    (h : handleLongMessage buff size = .ok (tmp, size')) : size'.toNat ≤ 64 := by
  unfold handleLongMessage at h
  split_ifs at h with hover hshort
  · cases h
    decide
  · cases h
    rw [UInt8.not_lt, UInt8.le_iff_toNat_le] at hover
    exact hover

/-- What is shown of a packet fits the screen. -/
theorem length_messageDisplay {hex : Bool} {buff shown : List UInt8}
    (h : messageDisplay hex buff = .ok shown) : shown.length ≤ 64 := by
  unfold messageDisplay at h
  simp only [bind_eq_ok_iff, pure, Except.pure, Except.ok.injEq] at h
  obtain ⟨⟨tmp, size⟩, hlong, rfl⟩ := h
  exact (List.length_take_le ..).trans (handleLongMessage_size hlong)

/-- What the packets of a text have led to. -/
structure TextShown (env : Env) (hex : Bool) (text : List Request) (screens : List Screen)
    (s : MessageState) : Prop where
  /-- The first packet starts with the magic; the prompt shows its beginning behind that. -/
  shown : ∃ p rest shown, text = p :: rest ∧ nervosMagic <+: p.cdata ∧
    messageDisplay hex p.cdata = .ok shown ∧
    screens = [⟨.text "Sign", .text "Message"⟩,
      ⟨.text "Message: ", if hex then .hex shown else .buffer shown⟩]
  digest : s.finalHash = env.blake2b (Request.text text)

theorem textShown_messagePackets {key : Bip32Path} {hex : Bool} {text : List Request} {p : Prompt}
    {s : MessageState} (h : messagePackets env { key := key, displayAsHex := hex }
      (text.map Request.messagePacket) = some (p, s)) :
    TextShown env hex text p.screens s ∧ s.key = key := by
  obtain ⟨hne, s₁, nd, hruns, hcomplete⟩ := messagePackets_runs h
  obtain ⟨-, hkey, hfed, hfinished⟩ := runs_took hruns
  obtain ⟨q, hq, -, hscreens, hkey', -, hhash⟩ := MessageState.complete_ok hcomplete
  cases hq
  refine ⟨⟨?_, ?_⟩, hkey'.trans hkey⟩
  · cases text with
    | nil => exact absurd rfl hne
    | cons x rest =>
      obtain ⟨s₂, htook, hrest⟩ := Runs.cons_iff.1 hruns
      obtain ⟨hmagic, shown, hshown, hdisplay, hsize⟩ := htook.first rfl
      have hindex : s₂.packetIndex ≠ 0 := by
        intro hzero
        have hcount := htook.index
        rw [hzero] at hcount
        cases hcount
      obtain ⟨hdisplay', hsize', hhex'⟩ := runs_took_later hrest hindex
      have hfits := length_messageDisplay hshown
      have htext : s₁.display.1.take s₁.displaySize = shown := by
        rw [hdisplay', hsize', hdisplay, hsize, Bytes.write_val _ (by omega), List.take_zero,
          List.nil_append, List.take_left]
      rw [hhex', htook.displayAsHex, htext] at hscreens
      refine ⟨x, rest, shown, rfl, ?_, hshown, hscreens⟩
      rw [checkMagicBytes, decide_eq_true_eq] at hmagic
      rw [List.prefix_iff_eq_take]
      exact hmagic.symm
  · rw [hhash, HashState.finishHash, hfinished, hfed, messageBytes_map]
    rfl

/-- The path of the key, and how the text is shown: as the packet that starts the session has it,
or as in a cleared state when there is none. -/
def StartedWith (rs text : List Request) (path : Bip32Path) (hex : Bool) : Prop :=
  (∃ first, rs = first :: text ∧ first.First .message ∧
      readBip32Path .zero (first.cdata.drop 1) = .ok path ∧
      hex = decide (first.cdata.headD 0 ≠ 0)) ∨
    rs = text ∧ path = .zero ∧ hex = false

/-- The packets of a message session that has ended with a prompt. -/
theorem textShown_of_replies {p : Prompt} (hrun : Runs (Replies env) (.zero .message) rs st)
    (hr : Prompts env st r p st') (hlater : ∀ x ∈ (rs ++ [r]).tail, ¬ x.First .message) :
    ∃ text path hex s, StartedWith (rs ++ [r]) text path hex ∧ (∀ q ∈ text, ¬ q.First .message) ∧
      st' = .message s ∧ TextShown env hex text p.screens s ∧ s.key = path := by
  -- a session in a cleared state, without the packet that starts it
  have hbare (hnone : ∀ x ∈ rs ++ [r], ¬ x.First .message) :
      ∃ text path hex s, StartedWith (rs ++ [r]) text path hex ∧
        (∀ q ∈ text, ¬ q.First .message) ∧ st' = .message s ∧
        TextShown env hex text p.screens s ∧ s.key = path := by
    obtain ⟨s, rfl, hs⟩ := MessageState.messagePackets_of_replies (s := {}) hrun hr hnone
    obtain ⟨hshown, hkey⟩ := textShown_messagePackets hs
    exact ⟨_, .zero, false, s, .inr ⟨rfl, rfl, rfl⟩, hnone, rfl, hshown, hkey⟩
  cases rs with
  | nil =>
    by_cases hfirst : r.First .message
    · -- the packet with the path is answered with a status word
      cases hrun
      obtain ⟨io, hr⟩ := hr
      simp only [MemberState.zero, MemberState.handle, map_eq_ok_iff, mapError_eq_ok_iff,
        Prod.mk.injEq] at hr
      obtain ⟨⟨a, s⟩, hr, rfl, -⟩ := hr
      have hmasked : r.p1 &&& 0x7F = p1First := hfirst
      unfold MessageState.handleApdu at hr
      rw [if_pos hmasked] at hr
      split_ifs at hr
      simp only [bind_eq_ok_iff, pure, Except.pure, Except.ok.injEq, Prod.mk.injEq, reduceCtorEq,
        false_and, and_false, exists_false] at hr
    · exact hbare (by simpa using hfirst)
  | cons x rs =>
    by_cases hfirst : x.First .message
    · obtain ⟨st₁, hx, htail⟩ := Runs.cons_iff.1 hrun
      obtain ⟨rep, io, hx⟩ := hx
      simp only [MemberState.zero, MemberState.handle, map_eq_ok_iff, mapError_eq_ok_iff,
        Prod.mk.injEq] at hx
      obtain ⟨⟨a, s₁⟩, hx, rfl, rfl, -⟩ := hx
      obtain ⟨-, path, hpath, rfl⟩ := MessageState.handleApdu_first hfirst hx
      obtain ⟨s, rfl, hs⟩ := MessageState.messagePackets_of_replies htail hr hlater
      obtain ⟨hshown, hkey⟩ := textShown_messagePackets hs
      exact ⟨_, path, _, s, .inl ⟨x, rfl, hfirst, hpath, rfl⟩, hlater, rfl, hshown, hkey⟩
    · exact hbare (List.forall_mem_cons.2 ⟨hfirst, hlater⟩)

open Machine in
/-- **Messages.**  In a run of isolated steps, what is signed when the user accepts a message is the
hash of its text, from the magic on, as all packets since the one that has started the session have
brought it, with the key of the path in that packet.  When no packet has started the session, it is
the text of all packets since the state was cleared, with the key of the empty path.  The prompt
shows the beginning of the first packet of the text. -/
theorem message_signed_is_shown (L : Overlay U) (env : Env) (nd : NvramData) (es : List Event)
    (r : Reply) (h : IsolatedRun L env nd es)
    (hr : r ∈ (((start L nd).run L env es).step L env .accept).2)
    (hok : ((start L nd).run L env es).okCallback = .signMessageOk) :
    ∃ rs text path hex screens s priv key, Arrived L env (start L nd) es .message rs ∧
      StartedWith rs text path hex ∧ (∀ q ∈ text, ¬ q.First .message) ∧
      ((start L nd).run L env es).prompt = some screens ∧ TextShown env hex text screens s ∧
      env.derive path.used = .ok (priv, key) ∧
      r = ⟨.signature,
        (sign env priv (env.blake2b (Request.text text)).1).1 ++ [0x90, 0x00]⟩ := by
  obtain ⟨hprompt, u, hcall⟩ := accept_reply hr
  obtain ⟨rs, q, st, p, st', harrived, hlater, hrun, hq, hscreens, -, halike⟩ :=
    progress_of_prompt h (live_of_reply hr) hprompt (k := .message) (by rw [hok]; rfl)
  obtain ⟨text, path, hex, s, hstarted, htext, rfl, hshown, hkey⟩ :=
    textShown_of_replies hrun hq hlater
  -- the callback finds the state that the session has left
  have hstate : s = L.getMessage ((start L nd).run L env es).union := halike
  unfold callOk at hcall
  rw [hok] at hcall
  simp only [← hstate, MessageState.performSignature, signWithPath, hkey, hshown.digest,
    bind_eq_ok_iff, pure, Except.pure, Except.ok.injEq, Prod.mk.injEq] at hcall
  obtain ⟨r', ⟨signature, ⟨⟨priv, key⟩, hderive, rfl⟩, rfl⟩, rfl, -⟩ := hcall
  exact ⟨_, text, path, hex, p.screens, s, priv, key, harrived, hstarted, htext, hscreens, hshown,
    hderive, rfl⟩

/-- A path, and a greeting in two packets. -/
def greetingRequests : List Event :=
  [.apdu ([claNervos, insSignMessage, p1First, 0, 6] ++ textPath.bytes),
    .apdu ([claNervos, insSignMessage, p1Next, 0, 17] ++ nervosMagic ++ [72, 105]),
    .apdu [claNervos, insSignMessage, p1Next ||| p1LastMarker, 0, 1, 33]]

open Machine in
theorem message_signed_is_shown_greeting : ∃ text path hex screens s priv key r,
    r ∈ (((start Overlay.memory {}).run Overlay.memory Env.reference greetingRequests).step
      Overlay.memory Env.reference .accept).2 ∧
    ((start Overlay.memory {}).run Overlay.memory Env.reference greetingRequests).prompt =
      some screens ∧ TextShown Env.reference hex text screens s ∧
    Env.reference.derive path = .ok (priv, key) ∧
    r = ⟨.signature, (sign Env.reference priv
      (Env.reference.blake2b (Request.text text)).1).1 ++ [0x90, 0x00]⟩ := by
  have hisolated : isolatedRun Overlay.memory Env.reference (start Overlay.memory {}) .cleared
      greetingRequests = true := by
    decide +kernel
  have hsome : (((start Overlay.memory {}).run Overlay.memory Env.reference greetingRequests).step
      Overlay.memory Env.reference .accept).2 ≠ [] := by
    decide +kernel
  obtain ⟨rs, text, path, hex, screens, s, priv, key, -, -, -, hscreens, hshown, hderive, hr⟩ :=
    message_signed_is_shown Overlay.memory Env.reference {} greetingRequests _
      (.of_check hisolated) (List.head_mem hsome) (by decide +kernel)
  exact ⟨text, path.used, hex, screens, s, priv, key, _, List.head_mem hsome, hscreens, hshown,
    hderive, hr⟩

end LedgerNervos
