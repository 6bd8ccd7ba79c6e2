import LedgerNervos.App.Decisions
import LedgerNervos.Sign.Rejection

/-!
# Sessions in a run of the application

`signSession` streams the packets of a transaction into the handler of `INS_SIGN`; the machine
receives them among the requests of all other instructions.  In a run of isolated steps, the
packets that the union has been written with are those of a session: all of them but the last have
been answered with a status word (`Progress`), and the last one has put up the prompt.  What is
sent for a transaction is therefore what `signSession` leads to, on the packets for signing that
have arrived since some point of the run (`transaction_reply_session`).
-/

namespace LedgerNervos

variable {U : Type}

/-! ### Packets of a transaction -/

/-- The packet is parsed. -/
def Request.Parsed (r : Request) : Prop := r.p1 &&& p1Mask = p1First ∨ r.p1 &&& p1Mask = p1Next

instance (r : Request) : Decidable r.Parsed := inferInstanceAs (Decidable (_ ∨ _))

/-- The packet as it is streamed into the handler. -/
def Request.packet (r : Request) : Packet where
  cdata := r.cdata
  nd := r.nd
  io := List.replicate Machine.ioSize 0
  noFallback := r.p1 &&& p1NoFallback ≠ 0

/-- The packets that the parser gets, one after the other. -/
def Request.packets (rs : List Request) : List Packet :=
  (rs.filter fun r => r.Parsed).map Request.packet

theorem Request.packets_cons_of_parsed {r : Request} (h : r.Parsed) (rs : List Request) :
    Request.packets (r :: rs) = r.packet :: Request.packets rs := by
  rw [packets, List.filter_cons_of_pos (by simpa using h)]
  rfl

theorem Request.packets_cons_of_not_parsed {r : Request} (h : ¬ r.Parsed) (rs : List Request) :
    Request.packets (r :: rs) = Request.packets rs := by
  rw [packets, List.filter_cons_of_neg (by simpa using h)]
  rfl

/-- The packet has the mark of the last one. -/
def Request.isLast (r : Request) : Bool := r.p1 &&& p1LastMarker ≠ 0

namespace ApduSignState

variable {env : Env} {s s' : ApduSignState} {r : Request} {io io' : Io}

/-- The handler looks at the place of a packet in its session, the mark of the last one and the
flag only. -/
theorem handleApdu_packet {first : Bool} (hparsed : r.Parsed) (hfirst : first = true → s = {})
    (hnext : first = false → ¬ r.First .sign) :
    s.handleApdu env r.nd r.instruction r.p1 r.cdata io =
      s.handleApdu env r.nd r.instruction (packetP1 first r.isLast r.packet.noFallback) r.cdata
        io := by
  unfold handleApdu
  rw [packetP1_mask, packetP1_last, packetP1_noFallback]
  cases first with
  | true =>
    rw [hfirst rfl, if_pos rfl]
    obtain hp1 | hp1 := hparsed <;> rw [hp1] <;> rfl
  | false =>
    rw [hparsed.resolve_left (hnext rfl)]
    rfl

/-- A status word does not depend on which of the two instructions has been sent. -/
theorem handleApdu_reply {nd : NvramData} {instruction p1 : UInt8} {cdata : List UInt8}
    {rep : Reply} (instruction' : UInt8)
    (h : s.handleApdu env nd instruction p1 cdata io = .ok (.reply rep, s', io')) :
    s.handleApdu env nd instruction' p1 cdata io = .ok (.reply rep, s', io') := by
  have hanswer {t : ApduSignState} {last : Bool} {io₁ : Io}
      (h : t.answer nd instruction last io₁ = .ok (.reply rep, s', io')) :
      t.answer nd instruction' last io₁ = .ok (.reply rep, s', io') := by
    unfold answer at h ⊢
    split_ifs at h ⊢ with hl
    · split at h <;> cases h
    · exact h
  have hbind {x : Except (Exn × Io) (ApduSignState × Io)} {last : Bool}
      (h : (x >>= fun t => t.1.answer nd instruction last t.2) = .ok (.reply rep, s', io')) :
      (x >>= fun t => t.1.answer nd instruction' last t.2) = .ok (.reply rep, s', io') := by
    rw [bind_eq_ok_iff] at h ⊢
    obtain ⟨t, ht, h⟩ := h
    exact ⟨t, ht, hanswer h⟩
  unfold handleApdu at h ⊢
  dsimp only at h ⊢
  split_ifs at h ⊢ with hlen hfirst hnext
  · exact hbind h
  · exact hbind h
  · exact hbind h

/-- Only a packet before the last one is answered with a status word. -/
theorem handleApdu_more {nd : NvramData} {instruction : UInt8} {first last noFallback : Bool}
    {cdata : List UInt8} {rep : Reply} (hopen : (s.restart first).g.maybe.isValid = false)
    (h : s.handleApdu env nd instruction (packetP1 first last noFallback) cdata io =
      .ok (.reply rep, s', io')) :
    last = false ∧ s'.g.maybe.isValid = false := by
  obtain ⟨g₁, g₂, hrun, hafter, rfl, hanswer⟩ := handleApdu_ok h
  have hworse := (steps_of_runCallbacks (P := fun _ => True) trivial hrun).worsens
  cases last with
  | true =>
    -- the transaction is valid, so that there is a prompt or an error
    have hvalid : g₂.maybe.isValid = true := by
      simp only [SignState.afterParse, if_true] at hafter
      split_ifs at hafter <;> cases hafter <;> rfl
    unfold answer at hanswer
    rw [if_pos ⟨rfl, hvalid⟩] at hanswer
    split at hanswer <;> cases hanswer
  | false =>
    obtain ⟨-, rfl⟩ := SignState.afterParse_more hafter
    exact ⟨rfl, hworse.isValid.trans hopen⟩

end ApduSignState

/-! ### Progress of a session -/

/-- A packet is answered with a status word. -/
def Replies (env : Env) (st : MemberState) (r : Request) (st' : MemberState) : Prop :=
  ∃ rep io, st.handle env r (List.replicate Machine.ioSize 0) = .ok (.reply rep, st', io)

/-- A packet is answered with a prompt. -/
def Prompts (env : Env) (st : MemberState) (r : Request) (p : Prompt) (st' : MemberState) : Prop :=
  ∃ io, st.handle env r (List.replicate Machine.ioSize 0) = .ok (.prompt p, st', io)

/-- The packets of a session: all of them, or all but the last one, are answered with status
words, and only the first of them can start a session. -/
structure Progress (env : Env) (k : Member) (rs : List Request) : Prop where
  answers : (∃ st, Runs (Replies env) (.zero k) rs st) ∨
    ∃ rs' r st' p st, rs = rs' ++ [r] ∧ Runs (Replies env) (.zero k) rs' st' ∧
      Prompts env st' r p st
  later : ∀ r ∈ rs.tail, ¬ r.First k

variable {env : Env} {k : Member} {rs : List Request} {r : Request} {st st' : MemberState}

theorem lone_of_replies (h : Runs (Replies env) (.zero k) rs st) :
    ∃ a, lone env k rs = .ok (a, st) ∧ ∀ p, a ≠ some (.prompt p) := by
  induction rs using List.reverseRecOn generalizing st with
  | nil =>
    cases h
    exact ⟨none, rfl, nofun⟩
  | append_singleton rs r ih =>
    obtain ⟨st₁, h₁, h⟩ := Runs.append_iff.1 h
    obtain ⟨rep, io, h⟩ := Runs.single_iff.1 h
    obtain ⟨a, hl, -⟩ := ih h₁
    refine ⟨some (.reply rep), ?_, nofun⟩
    rw [lone_snoc, hl]
    change loneStep env (a, st₁) r = _
    rw [loneStep, h]

theorem lone_of_prompts {p : Prompt} (h : Runs (Replies env) (.zero k) rs st)
    (hr : Prompts env st r p st') :
    lone env k (rs ++ [r]) = .ok (some (.prompt p), st') := by
  obtain ⟨a, hl, -⟩ := lone_of_replies h
  obtain ⟨io, hr⟩ := hr
  rw [lone_snoc, hl]
  change loneStep env (a, st) r = _
  rw [loneStep, hr]

theorem Progress.nil : Progress env k [] := ⟨.inl ⟨_, .nil _⟩, List.forall_mem_nil _⟩

/-- The packets have all been answered with status words if they do not ask for a signature. -/
theorem Progress.replies (h : Progress env k rs) (hnone : lonePresented env k rs = none) :
    ∃ st, Runs (Replies env) (.zero k) rs st := by
  obtain h | ⟨rs', r, st', p, st, rfl, hrun, hr⟩ := h.answers
  · exact h
  · rw [lonePresented, lone_of_prompts hrun hr] at hnone
    cases hnone

/-- A session goes on with a packet, or starts with it. -/
theorem Progress.packet {o : Owner} (h : ∀ rs, o = .session k rs → Progress env k rs)
    (hnone : o.presented env = none) {a : Answer}
    (hl : lone env k (o.packets k r ++ [r]) = .ok (some a, st)) :
    Progress env k (o.packets k r ++ [r]) := by
  have hbefore : ∃ st, Runs (Replies env) (.zero k) (o.packets k r) st := by
    cases o with
    | cleared | other => exact ⟨_, .nil _⟩
    | session k' rs =>
      unfold Owner.packets
      dsimp only
      split_ifs with hnew
      · exact ⟨_, .nil _⟩
      · obtain rfl : k' = k := not_not.1 (not_or.1 hnew).2
        refine (h rs rfl).replies ?_
        simpa [Owner.presented] using hnone
  obtain ⟨st₁, hrun⟩ := hbefore
  refine ⟨?_, ?_⟩
  · obtain ⟨a₁, hl₁, -⟩ := lone_of_replies hrun
    have hfor := (lone_ok hl).2 a rfl
    rw [lone_snoc, hl₁] at hl
    change loneStep env (a₁, st₁) r = _ at hl
    unfold loneStep at hl
    split at hl
    · cases hl
    · rename_i x hx
      cases hl
      obtain ⟨a, st, io⟩ := x
      cases a with
      | reply rep => exact .inl ⟨st, hrun.append (Runs.single_iff.2 ⟨rep, io, hx⟩)⟩
      | prompt p => exact .inr ⟨_, r, st₁, p, st, rfl, hrun, io, hx⟩
      | sent rep => exact absurd hfor id
  · cases o with
    | cleared | other => exact List.forall_mem_nil _
    | session k' rs =>
      unfold Owner.packets
      dsimp only
      split_ifs with hnew
      · exact List.forall_mem_nil _
      · obtain ⟨hfirst, hk⟩ := not_or.1 hnew
        obtain rfl : k' = k := not_not.1 hk
        intro x hx
        cases rs with
        | nil => cases hx
        | cons y rs =>
          obtain hx | hx := List.mem_append.1 hx
          · exact (h _ rfl).later x hx
          · rw [List.mem_singleton.1 hx]
            exact hfirst

/-! ### Sessions of a transaction -/

namespace ApduSignState

variable {s s' : ApduSignState} {first : Bool} {p : Prompt} {io io' : Io}

/-- A packet that is not parsed changes nothing. -/
theorem handleApdu_unparsed {a : Answer} (hparsed : ¬ r.Parsed)
    (h : s.handleApdu env r.nd r.instruction r.p1 r.cdata io = .ok (a, s', io')) :
    s' = s ∧ ((∃ p, a = .prompt p) → s.g.maybe.isValid = true) := by
  have hhandled : s.Handled env
      (⟨r.instruction, r.p1, r.cdata, r.nd, io⟩, a) s' := ⟨io', h⟩
  obtain ⟨hfirst, hnext⟩ := not_or.1 hparsed
  exact hhandled.unparsed hfirst hnext

theorem signPackets_prompt {instruction : UInt8} {q : Packet}
    (h : s.handleApdu env q.nd instruction (packetP1 first true q.noFallback) q.cdata q.io =
      .ok (.prompt p, s', io')) :
    signPackets env instruction first s [q] = some (p, s'.g) := by
  simp only [signPackets, List.isEmpty_nil, h]

theorem signPackets_reply {instruction : UInt8} {q : Packet} {ps : List Packet} {rep : Reply}
    (hmore : ps.isEmpty = false)
    (h : s.handleApdu env q.nd instruction (packetP1 first false q.noFallback) q.cdata q.io =
      .ok (.reply rep, s', io')) :
    signPackets env instruction first s (q :: ps) = signPackets env instruction false s' ps := by
  simp only [signPackets, hmore, h]

/-- **Packets.**  Packets that are answered with status words, and then with a prompt, are streamed
by `signPackets`, but for those that are not parsed. -/
theorem signPackets_of_replies (first : Bool) (hrun : Runs (Replies env) (.sign s) rs st)
    (hr : Prompts env st r p st') (hopen : s.g.maybe.isValid = false)
    (hfirst : first = true → s = {})
    (hnext : first = false → ∀ x ∈ rs ++ [r], ¬ x.First .sign)
    (hlater : ∀ x ∈ (rs ++ [r]).tail, ¬ x.First .sign) :
    ∃ s', st' = .sign s' ∧
      signPackets env r.instruction first s (Request.packets (rs ++ [r])) = some (p, s'.g) := by
  have hrestart : (s.restart first).g.maybe.isValid = false := by
    cases first
    · exact hopen
    · rfl
  induction rs generalizing s first with
  | nil =>
    cases hrun
    obtain ⟨io, hr⟩ := hr
    simp only [MemberState.handle, map_eq_ok_iff, Prod.mk.injEq] at hr
    obtain ⟨⟨a, s', io'⟩, hr, rfl, rfl, -⟩ := hr
    have hparsed : r.Parsed := by
      by_contra hnot
      have hvalid := (handleApdu_unparsed hnot hr).2 ⟨p, rfl⟩
      rw [hopen] at hvalid
      cases hvalid
    rw [handleApdu_packet hparsed hfirst fun h => hnext h r (List.mem_singleton_self r)] at hr
    obtain ⟨_, _, -, -, -, hanswer⟩ := handleApdu_ok hr
    rw [(answer_prompt hanswer).1] at hr
    refine ⟨s', rfl, ?_⟩
    rw [List.nil_append, Request.packets_cons_of_parsed hparsed]
    exact signPackets_prompt hr
  | cons x rs ih =>
    obtain ⟨st₁, hx, htail⟩ := Runs.cons_iff.1 hrun
    obtain ⟨rep, io, hx⟩ := hx
    simp only [MemberState.handle, map_eq_ok_iff, Prod.mk.injEq] at hx
    obtain ⟨⟨a, s₁, io'⟩, hx, rfl, rfl, -⟩ := hx
    have hrest : ∀ y ∈ rs ++ [r], ¬ y.First .sign := hlater
    by_cases hparsed : x.Parsed
    · rw [handleApdu_packet hparsed hfirst fun h => hnext h x (List.mem_cons_self ..)] at hx
      obtain ⟨hlast, hopen₁⟩ := handleApdu_more hrestart hx
      obtain ⟨s', rfl, hs'⟩ := ih false htail hopen₁
        (fun h => absurd h Bool.false_ne_true) (fun _ => hrest)
        (fun y hy => hrest y (List.mem_of_mem_tail hy)) hopen₁
      refine ⟨s', rfl, ?_⟩
      rw [hlast] at hx
      have hx' := handleApdu_reply r.instruction hx
      have hmore : (Request.packets (rs ++ [r])).isEmpty = false := by
        cases hps : Request.packets (rs ++ [r]) with
        | nil =>
          rw [hps] at hs'
          cases hs'
        | cons _ _ => rfl
      rw [List.cons_append, Request.packets_cons_of_parsed hparsed,
        signPackets_reply (q := x.packet) hmore hx']
      exact hs'
    · obtain ⟨rfl, -⟩ := handleApdu_unparsed hparsed hx
      rw [List.cons_append, Request.packets_cons_of_not_parsed hparsed]
      exact ih first htail hopen hfirst (fun h y hy => hnext h y (List.mem_cons_of_mem _ hy))
        (fun y hy => hrest y (List.mem_of_mem_tail hy)) hrestart

end ApduSignState

/-! ### Runs -/

variable {L : Overlay U} {m : Machine U} {o : Owner}

/-- The request that an event brings, if it passes the checks of `main_loop`. -/
def Machine.request (m : Machine U) : Event → Option Request
  | .apdu bytes => if m.exited then none else Owner.request m.nvram bytes
  | .accept | .reject | .switchNetwork | .switchSignHash | .switchContractData => none

/-- The requests of a run. -/
def arrivals (L : Overlay U) (env : Env) : Machine U → List Event → List Request
  | _, [] => []
  | m, e :: es => (m.request e).toList ++ arrivals L env (m.step L env e).1 es

theorem arrivals_singleton (e : Event) : arrivals L env m [e] = (m.request e).toList := by
  rw [arrivals, arrivals, List.append_nil]

theorem arrivals_append (es es' : List Event) :
    arrivals L env m (es ++ es') =
      arrivals L env m es ++ arrivals L env (m.run L env es) es' := by
  induction es generalizing m with
  | nil => rfl
  | cons e es ih =>
    rw [List.cons_append, arrivals, arrivals, ih, List.append_assoc]
    rfl

/-- The packets of a session are those for its instruction since some point of the run. -/
def Arrived (L : Overlay U) (env : Env) (m : Machine U) (es : List Event) (k : Member)
    (rs : List Request) : Prop :=
  ∃ before after, es = before ++ after ∧
    rs = (arrivals L env (m.run L env before) after).filter fun r =>
      (selectHandler r.instruction).member = some k

/-- What the union holds is the progress of a session. -/
def Owner.Sound (L : Overlay U) (env : Env) (m : Machine U) (es : List Event) (o : Owner) : Prop :=
  ∀ k rs, o = .session k rs → Progress env k rs ∧ Arrived L env m es k rs

theorem Arrived.nil (k : Member) (es : List Event) : Arrived L env m es k [] :=
  ⟨es, [], (List.append_nil es).symm, rfl⟩

/-- An event that brings no packet for the session. -/
theorem Arrived.other {es : List Event} (h : Arrived L env m es k rs) {e : Event}
    (he : ∀ r, (m.run L env es).request e = some r →
      (selectHandler r.instruction).member ≠ some k) :
    Arrived L env m (es ++ [e]) k rs := by
  obtain ⟨before, after, rfl, rfl⟩ := h
  refine ⟨before, after ++ [e], List.append_assoc .., ?_⟩
  rw [arrivals_append, ← Machine.run_append, arrivals_singleton, List.filter_append]
  cases hr : (m.run L env (before ++ after)).request e with
  | none => rw [Option.toList_none, List.filter_nil, List.append_nil]
  | some r =>
    rw [Option.toList_some, List.filter_cons_of_neg (by simpa using he r hr), List.filter_nil,
      List.append_nil]

/-- A packet for the session. -/
theorem Arrived.packet {es : List Event} (h : Arrived L env m es k rs) {e : Event}
    (he : (m.run L env es).request e = some r)
    (hk : (selectHandler r.instruction).member = some k) :
    Arrived L env m (es ++ [e]) k (rs ++ [r]) := by
  obtain ⟨before, after, rfl, rfl⟩ := h
  refine ⟨before, after ++ [e], List.append_assoc .., ?_⟩
  rw [arrivals_append, ← Machine.run_append, arrivals_singleton, List.filter_append, he,
    Option.toList_some, List.filter_cons_of_pos (by simpa using hk), List.filter_nil]

/-- The packets before a packet have arrived. -/
theorem Arrived.before {es : List Event} (h : ∀ rs, o = .session k rs → Arrived L env m es k rs) :
    Arrived L env m es k (o.packets k r) := by
  cases o with
  | cleared | other => exact Arrived.nil k es
  | session k' rs =>
    unfold Owner.packets
    dsimp only
    split_ifs with hnew
    · exact Arrived.nil k es
    · obtain rfl : k' = k := not_not.1 (not_or.1 hnew).2
      exact h rs rfl

section

variable {nd : NvramData} {es : List Event}

/-- An event that leaves the owner, and is no packet for signing. -/
theorem Owner.Sound.other (h : o.Sound L env m es) {e : Event}
    (he : ∀ r, (m.run L env es).request e = some r → (selectHandler r.instruction).member = none) :
    o.Sound L env m (es ++ [e]) := by
  intro k rs ho
  obtain ⟨hprogress, harrived⟩ := h k rs ho
  refine ⟨hprogress, harrived.other fun r hr => ?_⟩
  rw [he r hr]
  exact nofun

theorem sound_cleared : Owner.cleared.Sound L env m es := nofun

theorem Owner.Sound.afterOk (h : o.Sound L env m es) (cb : OkCallback) :
    (o.afterOk cb).Sound L env m es := by
  have hnil (k : Member) : (Owner.session k []).Sound L env m es := by
    rintro k' rs hk'
    cases hk'
    exact ⟨.nil, .nil k es⟩
  cases cb with
  | signWithoutHashOk | signWithHashOk => exact sound_cleared
  | signMessageOk => exact hnil .message
  | signMessageHashOk => exact hnil .messageHash
  | null | pubkeyOk | extPubkeyOk | accountImportOk => exact h

theorem Owner.Sound.afterCxl (h : o.Sound L env m es) (cb : CxlCallback) :
    (o.afterCxl cb).Sound L env m es := by
  cases cb with
  | signReject => exact sound_cleared
  | null | delayReject => exact h

/-- A packet for signing that has led to no error. -/
theorem Owner.Sound.packet (h : o.Sound L env m es) (htracks : Tracks L env (m.run L env es) o)
    {bytes : List UInt8} (hstep : IsolatedStep L env (m.run L env es) o (.apdu bytes))
    (hrunning : (m.run L env es).exited = false)
    (hr : Owner.request (m.run L env es).nvram bytes = some r)
    (hk : (selectHandler r.instruction).member = some k) {x : Answer × U × Io}
    (hrun : ({ m.run L env es with io := (m.run L env es).io.write 0 bytes } : Machine U).runHandler
      L env r.instruction r.p1 r.cdata = .ok x) :
    (Owner.session k (o.packets k r ++ [r])).Sound L env m (es ++ [.apdu bytes]) := by
  obtain ⟨hnd, -⟩ := Machine.onApdu_of_request L env hr
  have hnone : o.presented env = none := by
    rw [← htracks.screen]
    exact Machine.presented_of_prompt_none (hstep.quiet bytes rfl)
  have hmember := (Machine.runHandler_member (L := L)
    (m := { m.run L env es with io := (m.run L env es).io.write 0 bytes }) hk hnd).symm.trans hrun
  obtain ⟨⟨a, st, io⟩, hhandle, -⟩ := map_eq_ok_iff.1 hmember
  obtain ⟨st', hlone, -⟩ := (htracks.held hrunning).handle (hstep.own bytes r k rfl hr hk)
    (hstep.fresh bytes r k rfl hr hk) hhandle
  have hrequest : (m.run L env es).request (.apdu bytes) = some r := by
    rw [Machine.request, hrunning, if_neg Bool.false_ne_true, hr]
  rintro k' rs hk'
  cases hk'
  exact ⟨Progress.packet (fun rs ho => (h k rs ho).1) hnone hlone,
    (Arrived.before fun rs ho => (h k rs ho).2).packet hrequest hk⟩

/-- **Step.**  An isolated request keeps track of the progress. -/
theorem Owner.Sound.apdu (h : o.Sound L env m es) (htracks : Tracks L env (m.run L env es) o)
    {bytes : List UInt8} (hstep : IsolatedStep L env (m.run L env es) o (.apdu bytes))
    (hrunning : (m.run L env es).exited = false)
    (hlive : ((m.run L env es).step L env (.apdu bytes)).1.exited = false) :
    (o.afterApdu L env (m.run L env es) bytes).Sound L env m (es ++ [.apdu bytes]) := by
  unfold Owner.afterApdu
  cases hr : Owner.request (m.run L env es).nvram bytes with
  | none => exact sound_cleared
  | some r =>
    have hrequest : (m.run L env es).request (.apdu bytes) = some r := by
      rw [Machine.request, hrunning, if_neg Bool.false_ne_true, hr]
    have hother (hk : (selectHandler r.instruction).member = none) :
        o.Sound L env m (es ++ [.apdu bytes]) := by
      refine h.other fun r' hr' => ?_
      rw [hrequest] at hr'
      cases hr'
      exact hk
    cases hrun : ({ m.run L env es with io := (m.run L env es).io.write 0 bytes } : Machine
        U).runHandler L env r.instruction r.p1 r.cdata with
    | ok x =>
      dsimp only
      rw [hrun]
      have hpacket {k : Member} (hk : (selectHandler r.instruction).member = some k) :=
        h.packet htracks hstep hrunning hr hk hrun
      cases hs : selectHandler r.instruction with
      | sign | signMessage | signMessageHash => exact hpacket (by rw [hs]; rfl)
      | getPublicKey | accountImport => exact nofun
      | okCallback => exact (hother (by rw [hs]; rfl)).afterOk _
      | cxlCallback => exact (hother (by rw [hs]; rfl)).afterCxl _
      | error | version | getWalletId | git | other => exact hother (by rw [hs]; rfl)
    | error x =>
      dsimp only
      rw [hrun]
      obtain ⟨x, io⟩ := x
      cases x with
      | code sw => exact sound_cleared
      | fault =>
        -- the application has come to its end
        obtain ⟨-, hcall⟩ := Machine.onApdu_of_request L env hr
        unfold Machine.step at hlive
        rw [hrunning, if_neg Bool.false_ne_true] at hlive
        dsimp only at hlive
        rw [hcall, Machine.callHandler, hrun] at hlive
        cases hlive

/-- **Run.**  In a run of isolated steps, the union holds the progress of a session. -/
theorem sound_of_isolatedRun (h : IsolatedRun L env nd es)
    (hlive : ((Machine.start L nd).run L env es).exited = false) :
    (ownerAfter L env nd es).Sound L env (Machine.start L nd) es := by
  induction es using List.reverseRecOn with
  | nil => exact sound_cleared
  | append_singleton es e ih =>
    have hbefore : IsolatedRun L env nd es := fun before e' after hes =>
      h before e' (after ++ [e]) (by rw [hes]; simp)
    have hstep := h es e [] rfl
    have htracks := tracks_of_isolatedRun hbefore
    rw [Machine.run_append] at hlive
    change (((Machine.start L nd).run L env es).step L env e).1.exited = false at hlive
    have hrunning : ((Machine.start L nd).run L env es).exited = false := by
      by_contra hexited
      rw [Bool.not_eq_false] at hexited
      unfold Machine.step at hlive
      rw [if_pos hexited, hexited] at hlive
      cases hlive
    have hsound := ih hbefore hrunning
    rw [ownerAfter, track_append, track_fst]
    change ((ownerAfter L env nd es).next L env ((Machine.start L nd).run L env es) e).Sound L env
      (Machine.start L nd) (es ++ [e])
    unfold Owner.next
    rw [hrunning, if_neg Bool.false_ne_true]
    have hother (he : ∀ bytes, e ≠ .apdu bytes) :
        (ownerAfter L env nd es).Sound L env (Machine.start L nd) (es ++ [e]) := by
      refine hsound.other fun r hr => ?_
      cases e with
      | apdu bytes => exact absurd rfl (he bytes)
      | accept | reject | switchNetwork | switchSignHash | switchContractData => cases hr
    cases e with
    | apdu bytes => exact hsound.apdu htracks hstep hrunning hlive
    | accept =>
      dsimp only
      split_ifs
      · exact (hother (by simp)).afterOk _
      · exact hother (by simp)
    | reject =>
      dsimp only
      split_ifs
      · exact (hother (by simp)).afterCxl _
      · exact hother (by simp)
    | switchNetwork | switchSignHash | switchContractData => exact hother (by simp)

end

/-- While the user is asked for a signature, the union holds the progress of a session that has
ended with this prompt. -/
theorem progress_of_prompt {nd : NvramData} {es : List Event} (h : IsolatedRun L env nd es)
    (hlive : ((Machine.start L nd).run L env es).exited = false)
    (hprompt : ((Machine.start L nd).run L env es).prompt.isSome = true)
    (hok : ((Machine.start L nd).run L env es).okCallback.member = some k) :
    ∃ rs r st p st', Arrived L env (Machine.start L nd) es k (rs ++ [r]) ∧
      (∀ x ∈ (rs ++ [r]).tail, ¬ x.First k) ∧ Runs (Replies env) (.zero k) rs st ∧
      Prompts env st r p st' ∧ ((Machine.start L nd).run L env es).prompt = some p.screens ∧
      ((Machine.start L nd).run L env es).okCallback = p.ok ∧
      (MemberState.get L ((Machine.start L nd).run L env es).union k).Alike st' := by
  obtain ⟨screens, hscreens⟩ := Option.isSome_iff_exists.1 hprompt
  have htracks := tracks_of_isolatedRun h
  have hsound := sound_of_isolatedRun h hlive
  have hheld := htracks.held hlive
  have hscreen := htracks.screen
  unfold Machine.presented at hscreen
  rw [hscreens, hok] at hscreen
  cases ho : ownerAfter L env nd es with
  | cleared | other =>
    rw [ho] at hscreen
    cases hscreen
  | session k' rs =>
    obtain ⟨hprogress, harrived⟩ := hsound k' rs ho
    rw [ho] at hheld hscreen
    obtain ⟨a, st, hlone, halike⟩ := hheld
    obtain ⟨q, hq, heq⟩ := Option.map_eq_some_iff.1 hscreen.symm
    obtain ⟨rfl, rfl⟩ := Prod.mk.inj heq
    obtain ⟨st', hst'⟩ | ⟨rs', r, st', p, st'', rfl, hrun, hr⟩ := hprogress.answers
    · -- all packets have been answered with status words
      obtain ⟨a', hlone', hnot⟩ := lone_of_replies hst'
      unfold lonePresented at hq
      rw [hlone'] at hq
      split at hq
      · rename_i p _ heq
        cases heq
        exact absurd rfl (hnot p)
      · cases hq
    · have hlone' := lone_of_prompts hrun hr
      rw [hlone'] at hlone
      cases hlone
      unfold lonePresented at hq
      rw [hlone'] at hq
      obtain ⟨rfl, -, -⟩ := Presented.mk.inj (Option.some.inj hq)
      exact ⟨rs', r, st', _, _, harrived, hprogress.later, hrun, hr, hscreens, rfl, halike⟩

/-- A reply to the user's acceptance comes from an application that runs. -/
theorem Machine.live_of_reply {e : Event} {r : Reply} (h : r ∈ (m.step L env e).2) :
    m.exited = false := by
  by_contra hexited
  rw [Bool.not_eq_false] at hexited
  unfold Machine.step at h
  rw [if_pos hexited] at h
  cases h

open Machine in
/-- **Transactions.**  In a run of isolated steps, what is sent when the user accepts a transaction
is what `perform_signature` makes of the session that consists of the packets for `INS_SIGN` since
some point of the run, of which only the first can have started a session; and the prompt that the
user has accepted is the one that this session leads to by itself. -/
theorem transaction_reply_session (L : Overlay U) (env : Env) (nd : NvramData) (es : List Event)
    (r : Reply) (h : IsolatedRun L env nd es)
    (hr : r ∈ (((start L nd).run L env es).step L env .accept).2)
    (hok : ((start L nd).run L env es).okCallback.member = some .sign) :
    ∃ rs instruction prompt g, Arrived L env (start L nd) es .sign rs ∧
      (∀ q ∈ rs.tail, ¬ q.First .sign) ∧
      signSession env instruction (Request.packets rs) = some (prompt, g) ∧
      ((start L nd).run L env es).prompt = some prompt.screens ∧
      ((start L nd).run L env es).okCallback = prompt.ok ∧
      performSignature env (prompt.ok = .signWithHashOk) g = .ok r := by
  obtain ⟨hprompt, u, hcall⟩ := accept_reply hr
  obtain ⟨rs, q, st, p, st', harrived, hlater, hrun, hq, hscreens, hcallback, halike⟩ :=
    progress_of_prompt h (live_of_reply hr) hprompt hok
  obtain ⟨s, rfl, hsession⟩ := ApduSignState.signPackets_of_replies true (s := {}) hrun
    hq rfl (fun _ => rfl) nofun hlater
  have halike : (L.getSign ((start L nd).run L env es).union).Alike s := halike
  refine ⟨_, q.instruction, p, s.g, harrived, hlater, hsession, hscreens, hcallback, ?_⟩
  have hperform (sendHash : Bool) : performSignature env sendHash s.g =
      performSignature env sendHash (L.getSign ((start L nd).run L env es).union).g :=
    halike.performSignature sendHash
  rw [hcallback] at hok
  unfold callOk at hcall
  rw [hcallback] at hcall
  cases hp : p.ok <;> rw [hp] at hcall hok <;>
    simp only [OkCallback.member, reduceCtorEq, Option.some.injEq] at hok
  all_goals
    simp only [bind_eq_ok_iff, pure, Except.pure, Except.ok.injEq, Prod.mk.injEq] at hcall
    obtain ⟨r', hr', rfl, -⟩ := hcall
    rw [hperform]
    exact hr'

/-! ### Checking that a run is isolated -/

namespace SignState

instance (g : SignState) (e : WitnessCallback) : Decidable (StaleRead g e) := by
  cases e <;> unfold StaleRead <;> infer_instance

instance decStaleReads : ∀ (es : List WitnessCallback) (s : SignState × Io),
    Decidable (StaleReads es s)
  | [], _ => isFalse id
  | e :: es, s =>
    have := decStaleReads es (witnessDispatch e s)
    inferInstanceAs (Decidable (StaleRead s.1 e ∨ StaleReads es (witnessDispatch e s)))

instance (s : SignState × Io) (e : Callback) : Decidable (StaleCall s e) := by
  cases e <;> unfold StaleCall <;> infer_instance

instance decStaleCalls (env : Env) (nd : NvramData) : ∀ (es : List Callback) (s : SignState × Io),
    Decidable (StaleCalls env nd es s)
  | [], _ => isFalse id
  | e :: es, s =>
    match h : LedgerNervos.dispatch env nd e s with
    | .error _ => decidable_of_iff (StaleCall s e) (by simp [StaleCalls, h])
    | .ok s' =>
      have := decStaleCalls env nd es s'
      decidable_of_iff (StaleCall s e ∨ StaleCalls env nd es s') (by simp [StaleCalls, h])

end SignState

instance (env : Env) (nd : NvramData) (s : ApduSignState) (cdata : List UInt8) (io : Io) :
    Decidable (ApduSignState.StaleParse env nd s cdata io) :=
  inferInstanceAs (Decidable (SignState.StaleCalls ..))

instance (env : Env) (r : Request) (io : Io) (st : MemberState) :
    Decidable (MemberState.Stale env r io st) := by
  cases st <;> unfold MemberState.Stale <;> infer_instance

/-- The packet goes on with its own session, or with nothing. -/
def Owner.allows (k : Member) : Owner → Bool
  | .cleared => true
  | .session k' _ => k' = k
  | .other => false

/-- The check of `IsolatedStep`. -/
def isolatedStep (L : Overlay U) (env : Env) (m : Machine U) (o : Owner) : Event → Bool
  | .apdu bytes => m.prompt.isNone && match Owner.request m.nvram bytes with
    | none => true
    | some r => match (selectHandler r.instruction).member with
      | none => true
      | some k => (decide (r.First k) || o.allows k) &&
          !decide (MemberState.Stale env r (m.io.write 0 bytes) (MemberState.get L m.union k))
  | .accept | .reject | .switchNetwork | .switchSignHash | .switchContractData => true

/-- The check of `IsolatedRun`. -/
def isolatedRun (L : Overlay U) (env : Env) : Machine U → Owner → List Event → Bool
  | _, _, [] => true
  | m, o, e :: es => isolatedStep L env m o e &&
      isolatedRun L env (m.step L env e).1 (o.next L env m e) es

theorem Owner.allows_iff {o : Owner} {k : Member} :
    o.allows k = true ↔ o = .cleared ∨ ∃ rs, o = .session k rs := by
  cases o with
  | cleared => simp [allows]
  | other => simp [allows]
  | session k' rs =>
    simp only [allows, decide_eq_true_eq, reduceCtorEq, false_or]
    constructor
    · rintro rfl
      exact ⟨rs, rfl⟩
    · rintro ⟨rs', h⟩
      cases h
      rfl

theorem isolatedStep_spec {e : Event} (h : isolatedStep L env m o e = true) :
    IsolatedStep L env m o e := by
  have hpacket {bytes : List UInt8} {r : Request} {k : Member} (he : e = .apdu bytes)
      (hr : Owner.request m.nvram bytes = some r)
      (hk : (selectHandler r.instruction).member = some k) :
      (decide (r.First k) || o.allows k) = true ∧
        ¬ MemberState.Stale env r (m.io.write 0 bytes) (MemberState.get L m.union k) := by
    subst he
    unfold isolatedStep at h
    dsimp only at h
    rw [hr] at h
    dsimp only at h
    rw [hk, Bool.and_eq_true] at h
    simpa using h.2
  refine ⟨fun bytes he => ?_, fun bytes r k he hr hk => ?_, fun bytes r k he hr hk =>
    (hpacket he hr hk).2⟩
  · subst he
    unfold isolatedStep at h
    dsimp only at h
    rw [Bool.and_eq_true] at h
    exact Option.isNone_iff_eq_none.1 h.1
  · obtain h | h := Bool.or_eq_true_iff.1 (hpacket he hr hk).1
    · exact .inl (of_decide_eq_true h)
    · exact .inr (Owner.allows_iff.1 h)

theorem isolatedRun_spec {es : List Event} (h : isolatedRun L env m o es = true)
    {before after : List Event} {e : Event} (hes : es = before ++ e :: after) :
    IsolatedStep L env (track L env m o before).1 (track L env m o before).2 e := by
  induction before generalizing m o es with
  | nil =>
    subst hes
    exact isolatedStep_spec (Bool.and_eq_true_iff.1 h).1
  | cons x before ih =>
    subst hes
    exact ih (Bool.and_eq_true_iff.1 h).2 rfl

theorem IsolatedRun.of_check {nd : NvramData} {es : List Event}
    (h : isolatedRun L env (Machine.start L nd) .cleared es = true) : IsolatedRun L env nd es := by
  intro before e after hes
  have hstep := isolatedRun_spec h hes
  rwa [track_fst] at hstep

/-- The requests that stream packets into the handler of `INS_SIGN`. -/
def signRequests : Bool → List Packet → List (List UInt8)
  | _, [] => []
  | first, p :: ps =>
    ([claNervos, 0x03, packetP1 first ps.isEmpty p.noFallback, 0, UInt8.ofNat p.cdata.length] ++
      p.cdata) :: signRequests false ps

/-- A payment is sent in three packets. -/
def paymentRequests : List Event := (signRequests true (cutPackets 3 payment.encode)).map .apdu

open Machine in
theorem transaction_reply_session_payment : ∃ rs instruction prompt g r,
    r ∈ (((start Overlay.memory {}).run Overlay.memory Env.reference paymentRequests).step
      Overlay.memory Env.reference .accept).2 ∧
    signSession Env.reference instruction (Request.packets rs) = some (prompt, g) ∧
    performSignature Env.reference (prompt.ok = .signWithHashOk) g = .ok r := by
  have hisolated : isolatedRun Overlay.memory Env.reference (start Overlay.memory {}) .cleared
      paymentRequests = true := by
    decide +kernel
  have hsome : (((start Overlay.memory {}).run Overlay.memory Env.reference paymentRequests).step
      Overlay.memory Env.reference .accept).2 ≠ [] := by
    decide +kernel
  obtain ⟨rs, instruction, prompt, g, -, -, hsession, -, -, hreply⟩ :=
    transaction_reply_session Overlay.memory Env.reference {} paymentRequests _
      (.of_check hisolated) (List.head_mem hsome) (by decide +kernel)
  exact ⟨rs, instruction, prompt, g, _, List.head_mem hsome, hsession, hreply⟩

end LedgerNervos
