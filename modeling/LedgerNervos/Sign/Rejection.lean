import LedgerNervos.Device.Reference
import LedgerNervos.Sign.Steps

/-!
# Rejection is final

A callback that refuses a transaction only marks it, and the parser goes on.  Here the marks are
followed through a session: any requests after the one that starts it, with any `P1`, as long as
no error has ended it.  The prompt is only put up when no mark has been made since the start.
-/

namespace LedgerNervos

/-- A request to sign, with the settings and the receive buffer at the time it arrives. -/
structure SignRequest where
  instruction : UInt8
  p1 : UInt8
  cdata : List UInt8
  nd : NvramData := {}
  io : Io := []
deriving DecidableEq

/-- The request starts a session. -/
def SignRequest.First (r : SignRequest) : Prop := r.p1 &&& p1Mask = p1First

/-- The request continues a session. -/
def SignRequest.Next (r : SignRequest) : Prop := r.p1 &&& p1Mask = p1Next

instance SignRequest.decidableFirst (r : SignRequest) : Decidable r.First := by
  unfold SignRequest.First
  infer_instance

instance SignRequest.decidableNext (r : SignRequest) : Decidable r.Next := by
  unfold SignRequest.Next
  infer_instance

/-- The transaction has been refused, by `REJECT` or by `REJECT_HARD`. -/
def SignState.Refused (g : SignState) : Prop :=
  g.maybe.isUnsafe = true ∨ g.maybe.hardReject = true

instance SignState.decidableRefused (g : SignState) : Decidable g.Refused := by
  unfold SignState.Refused
  infer_instance

theorem SignState.Refused.mono {g g' : SignState} (h : g.maybe.Worsens g'.maybe)
    (hg : g.Refused) : g'.Refused := hg.imp h.isUnsafe h.hardReject

/-- The states that a call leaves behind: its own, and before that those of the calls that the
parser of the first witness makes within it. -/
def callStates (env : Env) (nd : NvramData) (e : Callback) (s : SignState × Io) : List SignState :=
  let inner := match e with
    | .processWitness c =>
      if s.1.tx.isFirstWitness then
        ((witnessReader.parse molNumMax s.1.tx.witnessStack c).evs.scanl
          (fun s e => SignState.witnessDispatch e s) s).map Prod.fst
      else []
    | _ => []
  match dispatch env nd e s with
  | .ok s' => inner ++ [s'.1]
  | .error _ => inner

/-- The states that calls in turn leave behind. -/
def callsStates (env : Env) (nd : NvramData) : List Callback → SignState × Io → List SignState
  | [], _ => []
  | e :: es, s => callStates env nd e s ++ match dispatch env nd e s with
    | .ok s' => callsStates env nd es s'
    | .error _ => []

/-- The state a request is parsed in. -/
def SignRequest.base (r : SignRequest) (s : ApduSignState) : ApduSignState :=
  s.restart (decide r.First)

theorem SignRequest.base_first {r : SignRequest} (h : r.First) (s : ApduSignState) :
    r.base s = {} := by
  rw [base, decide_eq_true h]
  rfl

theorem SignRequest.base_later {r : SignRequest} (h : ¬ r.First) (s : ApduSignState) :
    r.base s = s := by
  rw [base, decide_eq_false h]
  rfl

/-- What the parser makes of a request. -/
def SignRequest.out (r : SignRequest) (s : ApduSignState) :
    Out transactionReader.State Callback :=
  transactionReader.parse molNumMax (r.base s).transactionStack ⟨offsetCdata, r.cdata⟩

/-- The request is parsed, and on the way the transaction is refused: a callback marks it, or the
parser itself refuses it. -/
def SignRequest.Rejects (env : Env) (s : ApduSignState) (r : SignRequest) : Prop :=
  (r.First ∨ r.Next) ∧ ((∃ g ∈ callsStates env r.nd (r.out s).evs ((r.base s).g, r.io), g.Refused) ∨
    (r.out s).rv = .reject)

instance SignRequest.decidableRejects (env : Env) (s : ApduSignState) (r : SignRequest) :
    Decidable (r.Rejects env s) := by
  unfold SignRequest.Rejects
  infer_instance

/-- The handler answers a request. -/
def ApduSignState.Handled (env : Env) (s : ApduSignState) (x : SignRequest × Answer)
    (s' : ApduSignState) : Prop :=
  ∃ io', s.handleApdu env x.1.nd x.1.instruction x.1.p1 x.1.cdata x.1.io = .ok (x.2, s', io')

variable {env : Env} {nd : NvramData}

/-! ### The marks of a packet -/

/-- What a call within the parser of the first witness has marked is still marked when the witness
has been processed. -/
theorem worsens_scanl {es : List WitnessCallback} {s : SignState × Io} {g : SignState}
    (h : g ∈ (es.scanl (fun s e => SignState.witnessDispatch e s) s).map Prod.fst) :
    g.maybe.Worsens (es.foldl (fun s e => SignState.witnessDispatch e s) s).1.maybe := by
  induction es generalizing s with
  | nil =>
    rw [List.scanl_nil, List.map_singleton, List.mem_singleton] at h
    rw [h]
    exact .refl _
  | cons e es ih =>
    rw [List.scanl_cons, List.map_cons, List.mem_cons] at h
    rcases h with rfl | h
    · exact SignState.worsens_witnessDispatches (e :: es) s
    · exact ih h

/-- What is marked during a call is marked after it. -/
theorem worsens_callStates {e : Callback} {s s' : SignState × Io} {g : SignState}
    (hs : dispatch env nd e s = .ok s') (h : g ∈ callStates env nd e s) :
    g.maybe.Worsens s'.1.maybe := by
  unfold callStates at h
  simp only [hs, List.mem_append, List.mem_singleton] at h
  rcases h with h | rfl
  · cases e
    case processWitness c =>
      simp only at h
      split_ifs at h with hfirst
      · have hworse := worsens_scanl h
        have hs' : s' = s.1.processWitness s.2 c := (Except.ok.inj hs).symm
        rw [hs', SignState.processWitness]
        simp only [if_pos hfirst]
        split_ifs
        · exact hworse
        · exact hworse
      · cases h
    all_goals cases h
  · exact .refl _

theorem Steps.worsens {P : NvramData → Prop} {g g' : SignState} {es : List Callback}
    (h : Steps env P g es g') : g.maybe.Worsens g'.maybe := by
  refine h.invariant (I := fun x => g.maybe.Worsens x.maybe) (.refl _) ?_
  intro x e x' _ hstep hx
  exact hx.trans hstep.worsens

/-- What is marked during the calls for a packet is marked after them. -/
theorem worsens_callsStates {es : List Callback} {s s' : SignState × Io} {g : SignState}
    (hs : runCallbacks env nd es s = .ok s') (h : g ∈ callsStates env nd es s) :
    g.maybe.Worsens s'.1.maybe := by
  induction es generalizing s with
  | nil => cases h
  | cons e es ih =>
    rw [runCallbacks] at hs
    rw [callsStates, List.mem_append] at h
    cases hd : dispatch env nd e s with
    | error x => rw [hd] at hs; cases hs
    | ok s₁ =>
      rw [hd] at hs h
      rcases h with h | h
      · have hrest : Steps env (fun _ => True) s₁.1 es s'.1 := steps_of_runCallbacks trivial hs
        exact (worsens_callStates hd h).trans hrest.worsens
      · exact ih hs h

/-! ### Requests -/

namespace ApduSignState

variable {s s' : ApduSignState} {r : SignRequest} {a : Answer}

/-- What a parsed packet has led to. -/
theorem parsePacket_ok {last secureOnly : Bool} {cdata : List UInt8} {io io' : Io}
    (h : s.parsePacket env nd last secureOnly cdata io = .ok (s', io')) :
    ∃ g₁ g₂, runCallbacks env nd
        (transactionReader.parse molNumMax s.transactionStack ⟨offsetCdata, cdata⟩).evs
        (s.g, io) = .ok (g₁, io') ∧
      g₁.afterParse last secureOnly
        (transactionReader.parse molNumMax s.transactionStack ⟨offsetCdata, cdata⟩).rv = .ok g₂ ∧
      s' =
        ⟨g₂, (transactionReader.parse molNumMax s.transactionStack ⟨offsetCdata, cdata⟩).st⟩ := by
  unfold parsePacket at h
  split_ifs at h
  cases hr : runCallbacks env nd
      (transactionReader.parse molNumMax s.transactionStack ⟨offsetCdata, cdata⟩).evs (s.g, io) with
  | error x => simp only [hr] at h; cases h
  | ok x =>
    obtain ⟨g₁, io₁⟩ := x
    simp only [hr] at h
    cases ha : g₁.afterParse last secureOnly
        (transactionReader.parse molNumMax s.transactionStack ⟨offsetCdata, cdata⟩).rv with
    | error x => simp only [ha] at h; cases h
    | ok g₂ =>
      simp only [ha] at h
      cases h
      exact ⟨g₁, g₂, rfl, ha, rfl⟩

/-- How a request that led to no error is answered. -/
theorem answer_ok {instruction : UInt8} {last : Bool} {io io' : Io}
    (h : s.answer nd instruction last io = .ok (a, s', io')) :
    s' = s ∧ (last = true → s.g.maybe.isValid = true →
        ∃ screens, s.g.screens nd = some screens) ∧
      ((∃ p, a = .prompt p) → s.g.maybe.isValid = true) := by
  unfold answer at h
  split_ifs at h with hl
  · split at h
    · cases h
    · rename_i p hp
      cases h
      exact ⟨rfl, fun _ _ => ⟨_, SignState.signComplete_screens hp⟩, fun _ => hl.2⟩
  · cases h
    refine ⟨rfl, fun hlast hvalid => absurd ⟨hlast, hvalid⟩ hl, ?_⟩
    rintro ⟨p, hp⟩
    cases hp

/-- When the transaction is valid, it has not been refused, and the parser is through. -/
structure Settled (s : ApduSignState) : Prop where
  accepted : s.g.maybe.isValid = true → ¬ s.g.Refused
  through : s.g.maybe.isValid = true → ∀ c,
    transactionReader.parse molNumMax s.transactionStack c =
      ⟨.complete, s.transactionStack, c, [], false⟩

theorem settled_zero : Settled {} := ⟨nofun, nofun⟩

/-- What an answered request that is parsed has led to: whatever has been refused on the way is
refused afterwards. -/
theorem Handled.parsed (h : s.Handled env (r, a) s') (hs : (r.base s).Settled)
    (hparsed : r.First ∨ r.Next) :
    s'.Settled ∧ ((r.base s).g.Refused → s'.g.Refused) ∧ (r.Rejects env s → s'.g.Refused) ∧
      ((∃ p, a = .prompt p) → s'.g.maybe.isValid = true) := by
  obtain ⟨io', h⟩ := h
  simp only [handleApdu] at h
  by_cases hlen : maxApduSize < r.cdata.length
  · rw [if_pos hlen] at h
    cases h
  have hbase : ((r.base s).parsePacket env r.nd (r.p1 &&& p1LastMarker ≠ 0)
        (r.p1 &&& p1NoFallback ≠ 0) r.cdata r.io >>= fun p =>
      p.1.answer r.nd r.instruction (r.p1 &&& p1LastMarker ≠ 0) p.2) = .ok (a, s', io') := by
    rw [if_neg hlen] at h
    by_cases hfirst : r.p1 &&& p1Mask = p1First
    · rw [SignRequest.base_first hfirst]
      rw [if_pos hfirst] at h
      exact h
    · have hnext : r.p1 &&& p1Mask = p1Next := hparsed.resolve_left hfirst
      rw [SignRequest.base_later hfirst]
      rw [if_neg hfirst, if_pos hnext] at h
      exact h
  rw [bind_eq_ok_iff] at hbase
  obtain ⟨⟨s₁, io₁⟩, hparse, hanswer⟩ := hbase
  obtain ⟨rfl, hscreens, hprompt⟩ := answer_ok hanswer
  obtain ⟨g₁, g₂, hrun, hafter, rfl⟩ := parsePacket_ok hparse
  change g₁.afterParse _ _ (r.out s).rv = .ok g₂ at hafter
  have hworse : (r.base s).g.maybe.Worsens g₁.maybe :=
    (steps_of_runCallbacks (P := fun _ => True) trivial hrun).worsens
  have hcalls : r.Rejects env s → (r.out s).rv ≠ .reject → g₁.Refused := by
    rintro ⟨-, ⟨g, hg, hrefused⟩ | hrv⟩ hne
    · exact hrefused.mono (worsens_callsStates hrun hg)
    · exact absurd hrv hne
  by_cases hlast : r.p1 &&& p1LastMarker ≠ 0
  · rw [decide_eq_true hlast] at hafter hscreens
    obtain ⟨hrv, hhard, hmark⟩ := SignState.afterParse_last hafter
    obtain ⟨hbad, htag⟩ | ⟨hsafe, rfl⟩ := hmark
    · -- the tag says that there is nothing to show, so that the request fails
      have hvalid : g₂.maybe.isValid = true := by
        simp only [SignState.afterParse, if_true] at hafter
        split_ifs at hafter
        cases hafter
        rfl
      obtain ⟨screens, hsome⟩ := hscreens rfl hvalid
      simp [SignState.screens, htag] at hsome
    · have hnot : ¬ g₁.Refused := by
        rintro (h | h)
        · exact Bool.false_ne_true (hsafe.symm.trans h)
        · exact Bool.false_ne_true (hhard.symm.trans h)
      refine ⟨⟨fun _ => hnot, fun _ c => Reader.parseTable_complete hrv _ c⟩,
        fun hbad => absurd (hbad.mono hworse) hnot,
        fun hbad => absurd (hcalls hbad (by rw [hrv]; decide)) hnot, fun _ => rfl⟩
  · rw [decide_eq_false hlast] at hafter
    obtain ⟨hrv, rfl⟩ := SignState.afterParse_more hafter
    have hopen : ¬ g₂.maybe.isValid = true := by
      intro hvalid
      rw [hworse.isValid] at hvalid
      have hthrough := hs.through hvalid ⟨offsetCdata, r.cdata⟩
      change r.out s = _ at hthrough
      rw [hthrough] at hrv
      cases hrv
    exact ⟨⟨fun hvalid => absurd hvalid hopen, fun hvalid => absurd hvalid hopen⟩,
      fun hbad => hbad.mono hworse, fun hbad => hcalls hbad (by rw [hrv]; decide), hprompt⟩

/-- A request that is not parsed changes nothing. -/
theorem Handled.unparsed (h : s.Handled env (r, a) s') (hfirst : ¬ r.First) (hnext : ¬ r.Next) :
    s' = s ∧ ((∃ p, a = .prompt p) → s.g.maybe.isValid = true) := by
  obtain ⟨io', h⟩ := h
  simp only [handleApdu] at h
  split_ifs at h with hlen
  · exact absurd ‹_› hfirst
  · exact absurd ‹_› hnext
  · change s.answer r.nd r.instruction _ r.io = _ at h
    unfold answer at h
    split_ifs at h with hl
    · split at h <;> cases h
      exact ⟨rfl, fun _ => hl.2⟩
    · cases h
      refine ⟨rfl, ?_⟩
      rintro ⟨p, hp⟩
      cases hp

/-- What an answered request has led to, whether it is parsed or not. -/
theorem Handled.outcome (h : s.Handled env (r, a) s') (hs : (r.base s).Settled) :
    s'.Settled ∧ ((r.base s).g.Refused → s'.g.Refused) ∧ (r.Rejects env s → s'.g.Refused) ∧
      ((∃ p, a = .prompt p) → s'.g.maybe.isValid = true) := by
  by_cases hparsed : r.First ∨ r.Next
  · exact h.parsed hs hparsed
  · obtain ⟨hfirst, hnext⟩ := not_or.1 hparsed
    obtain ⟨rfl, hprompt⟩ := h.unparsed hfirst hnext
    rw [SignRequest.base_later hfirst] at hs ⊢
    exact ⟨hs, id, fun hbad => absurd hbad.1 hparsed, hprompt⟩

end ApduSignState

/-! ### Sessions -/

variable {s s' : ApduSignState} {tr : List (ApduSignState × SignRequest × Answer)}

/-- A run of requests that do not start a session. -/
theorem Visits.settled (h : Visits (ApduSignState.Handled env) s tr s') (hs : s.Settled)
    (hlater : ∀ x ∈ tr, ¬ x.2.1.First) : ∀ x ∈ tr, x.1.Settled := by
  have hinvariant := h.invariant hs <| by
    intro s x s' hx hstep hs
    exact (hstep.outcome (by rwa [SignRequest.base_later (hlater _ hx)])).1
  exact fun x hx => (hinvariant.2 x hx).1

/-- Once the transaction has been refused, no prompt is put up in the rest of the session. -/
theorem Visits.no_prompt (h : Visits (ApduSignState.Handled env) s tr s') (hs : s.Settled)
    (hbad : s.g.Refused) (hlater : ∀ x ∈ tr, ¬ x.2.1.First) :
    ∀ y ∈ tr, ∀ p, y.2.2 ≠ .prompt p := by
  have hinvariant := h.invariant (I := fun s => s.Settled ∧ s.g.Refused) ⟨hs, hbad⟩ <| by
    rintro s x s' hx hstep ⟨hs, hbad⟩
    have hbase := SignRequest.base_later (hlater _ hx) s
    obtain ⟨hs', hkeep, -⟩ := hstep.outcome (by rwa [hbase])
    exact ⟨hs', hkeep (by rwa [hbase])⟩
  intro y hy p hp
  obtain ⟨⟨hs, hbad⟩, s₁, hstep⟩ := hinvariant.2 y hy
  have hbase := SignRequest.base_later (hlater y hy) y.1
  obtain ⟨hs₁, hkeep, -, hprompt⟩ := hstep.outcome (by rwa [hbase])
  exact hs₁.accepted (hprompt ⟨p, hp⟩) (hkeep (by rwa [hbase]))

/-- **Rejection is final.**  In a session that no error has ended (a request that starts it, in any
state, and any requests that do not start another one), a request for which a callback or the
parser has refused the transaction is not answered by a prompt, and nor is any later one. -/
theorem rejection_final (env : Env) (s s' : ApduSignState) (first : SignRequest × Answer)
    (rest : List (SignRequest × Answer))
    (tr before after : List (ApduSignState × SignRequest × Answer))
    (x : ApduSignState × SignRequest × Answer)
    (h : Visits (ApduSignState.Handled env) s tr s') (hrun : tr.map Prod.snd = first :: rest)
    (hfirst : first.1.First) (hrest : ∀ y ∈ rest, ¬ y.1.First)
    (htr : tr = before ++ x :: after) (hx : x.2.1.Rejects env x.1) :
    ∀ y ∈ x :: after, ∀ p, y.2.2 ≠ .prompt p := by
  subst htr
  obtain ⟨s₀, hbefore, htail⟩ := Visits.append_iff.1 h
  cases htail with
  | @cons _ s₁ _ l _ hstep hafter =>
    -- the request is handled in a settled state, and those after it do not start a session
    have hplace : (l.1.base s₀).Settled ∧ ∀ y ∈ after, ¬ y.2.1.First := by
      cases hbefore with
      | nil =>
        rw [List.nil_append, List.map_cons, List.cons.injEq] at hrun
        obtain ⟨rfl, rfl⟩ := hrun
        rw [SignRequest.base_first hfirst]
        exact ⟨ApduSignState.settled_zero, fun y hy => hrest _ (List.mem_map_of_mem hy)⟩
      | @cons _ s₂ _ l₂ tr₂ hstep₂ hbefore =>
        rw [List.cons_append, List.map_cons, List.cons.injEq, List.map_append,
          List.map_cons] at hrun
        obtain ⟨rfl, rfl⟩ := hrun
        have hs₂ : s₂.Settled := (hstep₂.outcome (by
          rw [SignRequest.base_first hfirst]
          exact ApduSignState.settled_zero)).1
        have hlater : ∀ y ∈ tr₂ ++ (s₀, l) :: after, ¬ y.2.1.First := fun y hy =>
          hrest _ (by simpa using List.mem_map_of_mem (f := Prod.snd) hy)
        have hs₀ := (hbefore.append (.cons hstep hafter)).settled hs₂ hlater (s₀, l) (by simp)
        refine ⟨?_, fun y hy => hlater y (by simp [hy])⟩
        rwa [SignRequest.base_later (hlater (s₀, l) (by simp))]
    obtain ⟨hs₁, -, hrejects, hprompt⟩ := hstep.outcome hplace.1
    intro y hy p hp
    rcases List.mem_cons.1 hy with rfl | hy
    · exact hs₁.accepted (hprompt ⟨p, hp⟩) (hrejects hx)
    · exact hafter.no_prompt hs₁ (hrejects hx) hplace.2 y hy p hp

/-- The beginning of a transaction with two inputs, according to its count, and a vector of one
input. -/
def miscounted : SignRequest where
  instruction := 0x03
  p1 := p1First
  cdata := [200, 24, 36, 48, 52, 200, 2, 0x8000002C, 0x80000135, 2, 0x8000002C, 0x80000135, 2,
    148, 28, 32, 36, 40, 140, 144, 0, 0, 0, 100, 8].flatMap u32le

/-- A request with the mark of the last packet that neither starts nor continues a session. -/
def unparsedLast : SignRequest where
  instruction := 0x03
  p1 := p1LastMarker ||| 0x02
  cdata := []

theorem rejection_final_miscounted :
    miscounted.Rejects Env.reference {} ∧ ∃ a b s₁ s₂,
      ApduSignState.Handled Env.reference {} (miscounted, a) s₁ ∧
      ApduSignState.Handled Env.reference s₁ (unparsedLast, b) s₂ ∧
      (∀ p, a ≠ .prompt p) ∧ ∀ p, b ≠ .prompt p := by
  have hrejects : miscounted.Rejects Env.reference {} := by decide +kernel
  have hanswered : (ApduSignState.handleApdu {} Env.reference miscounted.nd miscounted.instruction
      miscounted.p1 miscounted.cdata miscounted.io).toOption.any
        (fun x => !x.2.1.g.maybe.isValid) = true := by
    decide +kernel
  cases hx : ApduSignState.handleApdu {} Env.reference miscounted.nd miscounted.instruction
      miscounted.p1 miscounted.cdata miscounted.io with
  | error x => rw [hx] at hanswered; cases hanswered
  | ok x =>
    obtain ⟨a, s₁, io⟩ := x
    rw [hx] at hanswered
    have hopen : s₁.g.maybe.isValid = false := Bool.not_eq_true' _ ▸ hanswered
    have hsecond : s₁.handleApdu Env.reference unparsedLast.nd unparsedLast.instruction
        unparsedLast.p1 unparsedLast.cdata unparsedLast.io =
        .ok (.reply (finalizeSuccessfulSend .status []), s₁, []) := by
      change s₁.answer _ _ true _ = _
      rw [ApduSignState.answer, if_neg (by simp [hopen])]
      rfl
    have h : Visits (ApduSignState.Handled Env.reference) {}
        [({}, miscounted, a), (s₁, unparsedLast, _)] s₁ :=
      .cons ⟨_, hx⟩ (.cons ⟨_, hsecond⟩ (.nil _))
    have hlater : ∀ y ∈ [(unparsedLast, Answer.reply (finalizeSuccessfulSend .status []))],
        ¬ y.1.First := by
      intro y hy
      rw [List.mem_singleton.1 hy]
      decide
    have hfinal := rejection_final Env.reference {} s₁ (miscounted, a) _ _ [] _ _ h rfl
      (show miscounted.First by decide) hlater rfl hrejects
    exact ⟨hrejects, a, _, s₁, s₁, ⟨_, hx⟩, ⟨_, hsecond⟩, hfinal _ (List.mem_cons_self ..),
      hfinal _ (List.mem_cons_of_mem _ (List.mem_cons_self ..))⟩

end LedgerNervos
