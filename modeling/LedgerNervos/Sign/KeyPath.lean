import LedgerNervos.Device.Reference
import LedgerNervos.Sign.Encoding
import LedgerNervos.Sign.Frame

/-!
# The path of the signing key

The components of a path are collected in `temp_key`.  From there `set_sign_path` keeps all but
the first two, and the length; when the transaction is signed, two constants are put back in
their place.  This gives the path of the transaction, as keys are only derived for paths that
begin with these constants.
-/

namespace LedgerNervos

variable {env : Env} {P : NvramData → Prop} {g g' : SignState}

/-- The components that every path begins with: `44'/309'`. -/
def coinPath : List UInt32 := [0x8000002C, 0x80000135]

/-! ### Collecting the components -/

/-- The components of a path that have been collected. -/
structure Collected (xs : List UInt32) (g : SignState) : Prop where
  room : g.tempKey.components.length = maxBip32Path
  length : g.tempKey.length.toNat = xs.length
  components : g.tempKey.components.take xs.length = xs

namespace Collected

variable {xs : List UInt32}

theorem length_le (h : Collected xs g) : g.tempKey.length.toNat ≤ maxBip32Path := by
  have := congrArg List.length h.components
  rw [List.length_take, h.room] at this
  rw [h.length]
  omega

theorem used (h : Collected xs g) : g.tempKey.used = xs := by
  rw [Bip32Path.used, h.length]
  exact h.components

/-- Another component. -/
theorem bip32Component (h : Collected xs g) (hroom : xs.length < maxBip32Path)
    (buf : List UInt8) : Collected (xs ++ [molUnpackNumber buf]) (g.bip32Component buf) := by
  have hlen := h.length
  have hlt : xs.length < g.tempKey.components.length := by rwa [h.room]
  refine ⟨?_, ?_, ?_⟩
  · simp only [SignState.bip32Component, List.length_set]
    exact h.room
  · simp only [SignState.bip32Component, UInt8.toNat_add, UInt8.reduceToNat, List.length_append,
      List.length_singleton, hlen]
    unfold maxBip32Path at hroom
    omega
  · simp only [SignState.bip32Component, List.length_append, List.length_singleton, hlen]
    rw [List.take_add_one, List.take_set_of_le (Nat.le_refl _), h.components,
      List.getElem?_set_self hlt]
    rfl

/-- All components of a path, as long as there is room for them. -/
theorem visits {v : List (List UInt8)} {tr : List (SignState × Callback)}
    (hs : Visits (SignState.Step env P) g tr g')
    (hls : tr.map Prod.snd = v.flatMap fun bs => [Callback.bip32Component bs])
    (h : Collected xs g) (hroom : xs.length + v.length ≤ maxBip32Path) :
    Collected (xs ++ v.map molUnpackNumber) g' ∧ g'.keys = g.keys ∧
      ∀ x ∈ tr, x.1.tempKey.length.toNat ≤ maxBip32Path := by
  induction v generalizing g xs tr with
  | nil =>
    obtain ⟨rfl, rfl⟩ := hs.of_nil hls
    exact ⟨by simpa using h, rfl, List.forall_mem_nil _⟩
  | cons bs v ih =>
    rw [List.flatMap_cons, List.singleton_append] at hls
    rw [List.length_cons] at hroom
    obtain ⟨g₁, tr', rfl, ⟨nd, io, io', -, hd⟩, hs', hls'⟩ := hs.uncons hls
    simp only [dispatch, Except.ok.injEq, Prod.mk.injEq] at hd
    obtain ⟨rfl, -⟩ := hd
    obtain ⟨hg', hkeys, htr⟩ := ih hs' hls' (h.bip32Component (by omega) bs) (by
      rw [List.length_append, List.length_singleton]
      omega)
    rw [List.append_assoc] at hg'
    exact ⟨hg', hkeys, List.forall_mem_cons.2 ⟨h.length_le, htr⟩⟩

end Collected

/-! ### The number of components -/

/-- A path that has been read has at most five components. -/
theorem bip32_length {finish : Callback} {size : UInt32} {bs rest : List UInt8}
    {v : List (List UInt8)}
    (h : (MolSpec.bip32 (Callback.bip32Callbacks finish)).sem size bs = .done v rest) :
    v.length ≤ maxBip32Path := by
  simp only [MolSpec.bip32, Spec.closePlain, Spec.fixVec, Res.bind_eq_done_iff] at h
  obtain ⟨length, r, -, h⟩ := h
  split_ifs at h with hlong hlonger hsize hok
  have hlen := Spec.length_readItems h
  rw [Bool.not_eq_true', Bool.not_eq_false] at hok
  change Callback.initBip32Ok (length * 4 + 4) = true at hok
  simp only [Callback.initBip32Ok, Bool.and_eq_true, decide_eq_true_eq,
    UInt32.le_iff_toNat_le] at hok
  have hmul : (length * 4 + 4).toNat = length.toNat * 4 + 4 := by
    simp only [UInt32.toNat_add, UInt32.toNat_mul, UInt32.reduceToNat] at hlonger ⊢
    omega
  rw [UInt32.toNat_sub_of_le _ _ (by rw [UInt32.le_iff_toNat_le, hmul]; simp), hmul] at hok
  simp only [UInt32.reduceToNat] at hok
  unfold maxBip32Path
  omega

/-- The paths of a transaction that has been read have at most five components. -/
theorem annotatedTransaction_paths {size : UInt32} {bs rest : List UInt8}
    {v : AnnotatedTransactionVal}
    (h : (MolSpec.annotatedTransaction Callback.annotatedTransactionCallbacks).sem size bs =
      .done v rest) : v.2.1.length ≤ maxBip32Path ∧ v.2.2.1.length ≤ maxBip32Path := by
  simp only [MolSpec.annotatedTransaction, Spec.table, MolSpec.annotatedTransactionFields,
    FieldsSpec.cons, Res.bind_eq_done_iff, Res.map_eq_done_iff] at h
  obtain ⟨words, r, -, _, ⟨signPath, r₁, hsign, _, ⟨changePath, r₂, hchange, _, -, rfl⟩, rfl⟩,
    rfl⟩ := h
  exact ⟨bip32_length hsign, bip32_length hchange⟩

/-! ### The paths of a transaction -/

/-- The calls for a path, up to the one that uses it. -/
theorem visits_path {finish : Callback} {v : List (List UInt8)} {evs : List Callback}
    {tr : List (SignState × Callback)}
    (hv : Bip32Events (Callback.bip32Callbacks finish) v evs) (hlen : v.length ≤ maxBip32Path)
    (hroom : g.tempKey.components.length = maxBip32Path)
    (hle : g.tempKey.length.toNat ≤ maxBip32Path) (hs : Visits (SignState.Step env P) g tr g')
    (hls : tr.map Prod.snd = evs) :
    ∃ g₁, Collected (v.map molUnpackNumber) g₁ ∧ g₁.keys = g.keys ∧ g₁.Step env P finish g' ∧
      ∀ x ∈ tr, x.1.tempKey.length.toNat ≤ maxBip32Path := by
  have hok : Callback.initBip32Ok (UInt32.ofNat v.length * 4 + 4) = true := hv.accepted
  rw [hv.events] at hls
  simp only [Callback.bip32Callbacks, List.cons_append] at hls
  obtain ⟨g₀, tr', rfl, ⟨nd, io, io', -, hd⟩, hs', hls'⟩ := hs.uncons hls
  simp only [dispatch, Except.ok.injEq, Prod.mk.injEq, SignState.initBip32, if_pos hok] at hd
  obtain ⟨rfl, -⟩ := hd
  obtain ⟨tr₁, tr₂, g₁, rfl, hls₁, hls₂, hs₁, hs₂⟩ := hs'.split hls'
  obtain ⟨hcollected, hkeys, htr₁⟩ := Collected.visits hs₁ hls₁
    (show Collected [] _ from ⟨hroom, rfl, rfl⟩) (by simpa using hlen)
  obtain ⟨g₂, tr₃, rfl, hfinish, hs₃, hls₃⟩ := hs₂.uncons hls₂
  obtain ⟨rfl, rfl⟩ := hs₃.of_nil hls₃
  refine ⟨g₁, hcollected, hkeys, hfinish, ?_⟩
  simp only [List.forall_mem_cons, List.forall_mem_append]
  exact ⟨hle, htr₁, hcollected.length_le, List.forall_mem_nil _⟩

/-- Behind the paths, no call collects components. -/
theorem visits_behind {tr : List (SignState × Callback)}
    (hs : Visits (SignState.Step env P) g tr g')
    (hpart : ∀ e ∈ tr.map Prod.snd, e.part ≠ .path)
    (hle : g.tempKey.length.toNat ≤ maxBip32Path) :
    g'.keys = g.keys ∧ ∀ x ∈ tr, x.1.tempKey.length.toNat ≤ maxBip32Path := by
  have hinvariant := hs.invariant (I := fun s => s.keys = g.keys ∧
      s.tempKey.length.toNat ≤ maxBip32Path) ⟨rfl, hle⟩ <| by
    rintro s e s' he hstep ⟨hkeys, hle⟩
    have hframed := hstep.framed
    have hother := hpart e (List.mem_map.2 ⟨_, he, rfl⟩)
    refine ⟨(hframed.keys hother).trans hkeys, ?_⟩
    rcases hframed.tempKey hother with h | h
    · rwa [h]
    · rw [h]
      exact Nat.zero_le _
  exact ⟨hinvariant.1.1, fun x hx => (hinvariant.2 x hx).1.2⟩

/-- What `set_sign_path` keeps of the path is enough to put it together again. -/
theorem coinPath_append_drop {xs components : List UInt32} (hcoin : coinPath <+: xs)
    (hxs : components.take xs.length = xs) :
    (coinPath ++ components.drop 2).take xs.length = xs := by
  have htake : components.take 2 = coinPath := by
    rw [← hxs] at hcoin
    have := List.prefix_iff_eq_take.1 (hcoin.trans (List.take_prefix _ _))
    exact this.symm
  rw [← htake, List.take_append_drop]
  exact hxs

/-- The path kept is `xs`, and the lock argument shown is that of its key. -/
structure KeyOf (env : Env) (xs : List UInt32) (key : Bytes 32) (g : SignState) : Prop where
  path : g.signPath.used = xs
  lock : ∃ ext, env.derive xs = .ok (key, ext) ∧
    g.currentLockArg = generateLockArgForPubkey env ext.publicKey

theorem KeyOf.of_keys {xs : List UInt32} {key : Bytes 32} (h : KeyOf env xs key g)
    (hkeys : g'.keys = g.keys) : KeyOf env xs key g' := by
  simp only [SignState.keys, Prod.mk.injEq] at hkeys
  obtain ⟨hlock, -, hcomponents, hlength⟩ := hkeys
  refine ⟨?_, ?_⟩
  · rw [SignState.signPath, hcomponents, hlength]
    exact h.path
  · rw [hlock]
    exact h.lock

/-- `set_sign_path` keeps the path that has been collected. -/
theorem step_setSignPath (hderive : ∀ path, ¬ coinPath <+: path → ∃ x, env.derive path = .error x)
    {xs : List UInt32} (h : Collected xs g) (hs : g.Step env P .setSignPath g') :
    (∃ key, KeyOf env xs key g') ∧ g'.tempKey = g.tempKey := by
  obtain ⟨nd, io, io', -, hd⟩ := hs
  simp only [dispatch, map_eq_ok_iff, SignState.setSignPath, prepLockArg, bind_eq_ok_iff, pure,
    Except.pure, Except.ok.injEq, Prod.mk.injEq] at hd
  obtain ⟨g₁, ⟨lock, ⟨⟨key, ext⟩, hkey, rfl⟩, rfl⟩, rfl, -⟩ := hd
  rw [h.used] at hkey
  have hcoin : coinPath <+: xs := by
    by_contra hne
    obtain ⟨x, hx⟩ := hderive _ hne
    rw [hx] at hkey
    cases hkey
  refine ⟨⟨key, ?_, ext, hkey, rfl⟩, rfl⟩
  rw [SignState.signPath, Bip32Path.used, h.length]
  exact coinPath_append_drop hcoin h.components

/-- `set_change_path` leaves the key alone. -/
theorem step_setChangePath {xs : List UInt32} {key : Bytes 32} (h : KeyOf env xs key g)
    (hs : g.Step env P .setChangePath g') : KeyOf env xs key g' ∧ g'.tempKey = g.tempKey := by
  obtain ⟨nd, io, io', -, hd⟩ := hs
  simp only [dispatch, map_eq_ok_iff, SignState.setChangePath, bind_eq_ok_iff, pure, Except.pure,
    Except.ok.injEq, Prod.mk.injEq] at hd
  obtain ⟨g₁, ⟨lock, -, rfl⟩, rfl, -⟩ := hd
  exact ⟨⟨h.path, h.lock⟩, rfl⟩

/-- **The signing key.**  Let keys only be derived for paths that begin with `44'/309'`.  When a
session leads to the prompt, the path that is put together for the signature is the path of the
transaction, the key for it is the one that the lock argument shown belongs to, and this key
signs; at no time have there been more than five components in `temp_key`. -/
theorem signPath_shown (env : Env)
    (hderive : ∀ path, ¬ coinPath <+: path → ∃ x, env.derive path = .error x)
    (instruction : UInt8) (ps : List Packet) (prompt : Prompt) (g : SignState)
    (h : signSession env instruction ps = some (prompt, g)) :
    ∃ v rest tr g₁, (MolSpec.annotatedTransaction Callback.annotatedTransactionCallbacks).sem
        molNumMax (joined (ps.map Packet.chunk)) = .done v rest ∧
      Visits (SignState.Step env fun _ => True) {} tr g₁ ∧
      g = { g₁ with maybe.isValid := true } ∧
      (∀ x ∈ tr, x.1.tempKey.length.toNat ≤ maxBip32Path) ∧
      g.signPath.used = v.2.1.map molUnpackNumber ∧
      ∃ key ext, env.derive (v.2.1.map molUnpackNumber) = .ok (key, ext) ∧
        g.currentLockArg = generateLockArgForPubkey env ext.publicKey ∧
        ∀ sendHash, performSignature env sendHash g = .ok (finalizeSuccessfulSend .signature
          ((if sendHash then g.tx.finalHash.1 else []) ++ (sign env key g.tx.finalHash.1).1)) := by
  obtain ⟨v, rest, evs, hsem, htr, hend⟩ := signSession_steps (P := fun _ => True)
    (fun _ _ => trivial) h
  obtain ⟨hsignLen, hchangeLen⟩ := annotatedTransaction_paths hsem
  obtain ⟨g₁, hsteps, rfl⟩ := hend.steps
  obtain ⟨tr, hlabels, hvisits⟩ := Visits.of_runs hsteps
  obtain ⟨-, e₁, e₂, e₃, e₄, c₃, c₄, hsign, hchange, hraw, hwit, rfl⟩ :=
    events_annotatedTransaction htr
  simp only [List.append_assoc] at hlabels
  obtain ⟨tr₁, trs, gs, rfl, hls₁, hlabels₁, hv₁, hvs⟩ := hvisits.split hlabels
  obtain ⟨tr₂, tr₃, gc, rfl, hls₂, hls₃, hv₂, hv₃⟩ := hvs.split hlabels₁
  -- the paths
  obtain ⟨s₁, hcollected, -, hset, hle₁⟩ :=
    visits_path hsign hsignLen rfl (Nat.zero_le _) hv₁ hls₁
  obtain ⟨⟨key, hkey⟩, htemp⟩ := step_setSignPath hderive hcollected hset
  obtain ⟨s₂, hcollected₂, hkeys₂, hset₂, hle₂⟩ :=
    visits_path hchange hchangeLen (htemp ▸ hcollected.room) (htemp ▸ hcollected.length_le) hv₂
      hls₂
  obtain ⟨hkey₂, htemp₂⟩ := step_setChangePath (hkey.of_keys hkeys₂) hset₂
  -- nothing that follows is about the paths
  have hpart : ∀ e ∈ tr₃.map Prod.snd, e.part ≠ .path := by
    rw [hls₃]
    intro e he
    simp only [Callback.annotatedTransactionCallbacks, List.mem_append, List.mem_singleton] at he
    rcases he with rfl | he | he
    · exact Part.noConfusion
    · exact (Callback.emits_raw _ _ _ hraw e he).1
    · rw [Callback.emits_witnesses _ _ _ hwit e he]
      decide
  obtain ⟨hkeys₃, hle₃⟩ := visits_behind hv₃ hpart (htemp₂ ▸ hcollected₂.length_le)
  have hhashOnly : g₁.tx.hashOnly = false :=
    hsteps.invariant (I := fun s => s.tx.hashOnly = false) rfl
      fun s e s' _ hstep hs => hstep.framed.hashOnly hs
  obtain ⟨hpath, ext, hext, hlock⟩ := hkey₂.of_keys hkeys₃
  refine ⟨v, rest, _, g₁, hsem, hvisits, rfl, ?_, hpath, key, ext, hext, hlock, fun sendHash => ?_⟩
  · simp only [List.forall_mem_append]
    exact ⟨hle₁, hle₂, hle₃⟩
  · have hsigns : signWithPath env g₁.signPath g₁.tx.finalHash.1 =
        .ok (sign env key g₁.tx.finalHash.1) := by
      rw [signWithPath, hpath, hext]
      rfl
    change performSignature env sendHash g₁ = _
    rw [performSignature, if_neg (by simp [hhashOnly]), hsigns]
    rfl

/-! ### A payment -/

/-- Cut a byte string into packets of the greatest size. -/
def cutPackets : ℕ → List UInt8 → List Packet
  | 0, _ => []
  | n + 1, bs =>
    if bs.length ≤ maxApduSize then [{ cdata := bs }]
    else { cdata := bs.take maxApduSize } :: cutPackets n (bs.drop maxApduSize)

theorem joined_cutPackets (n : ℕ) {bs : List UInt8} (h : bs.length ≤ n * maxApduSize) :
    joined ((cutPackets n bs).map Packet.chunk) = bs := by
  induction n generalizing bs with
  | zero => exact (List.length_eq_zero_iff.1 (by omega)).symm
  | succ n ih =>
    unfold cutPackets
    split_ifs with hshort
    · exact List.append_nil bs
    · rw [List.map_cons, joined_cons, ih (by rw [List.length_drop]; unfold maxApduSize at *; omega)]
      exact List.take_append_drop _ _

/-- A lock script with the default code hash. -/
def sighashLock (args : List UInt8) : Script :=
  ⟨⟨defaultLockScript, length_defaultLockScript⟩, 1, args⟩

/-- The lock argument of the only key there is in `Env.reference`. -/
def referenceLockArg : List UInt8 :=
  [117, 23, 143, 52, 84, 156, 95, 233, 205, 26, 12, 87, 174, 189, 1, 231, 221, 249, 36, 158]

/-- A transaction with a single output. -/
def coinbase (output : CellOutput) (data : List UInt8) : RawTransaction where
  version := .zero 4
  cellDeps := []
  headerDeps := []
  inputs := []
  outputs := [output]
  outputsData := [data]

/-- A transfer of 600 with a fee of 400. -/
def payment : AnnotatedTransaction where
  signPath := [0x8000002C, 0x80000135, 0x80000000, 0, 0]
  changePath := [0x8000002C, 0x80000135, 0x80000000, 1, 0]
  inputCount := 1
  raw :=
    { version := .zero 4
      cellDeps := []
      headerDeps := []
      inputs := [⟨⟨.zero 8, ⟨.zero 32, 0⟩⟩, coinbase ⟨1000, sighashLock referenceLockArg, none⟩ []⟩]
      outputs := [⟨600, sighashLock (List.replicate 20 7), none⟩]
      outputsData := [[]] }
  witnesses := [[]]

/-- The device with keys for the coin of the application only. -/
def Env.loaded : Env :=
  { Env.reference with
    derive := fun path =>
      if coinPath <+: path then Env.reference.derive path else .error .security }

theorem signPath_shown_payment :
    ∃ prompt g, signSession Env.loaded 0x03 (cutPackets 3 payment.encode) = some (prompt, g) ∧
      ∃ v, g.signPath.used = v ∧ ∃ key ext, Env.loaded.derive v = .ok (key, ext) ∧
        g.currentLockArg = generateLockArgForPubkey Env.loaded ext.publicKey := by
  have hsome : (signSession Env.loaded 0x03 (cutPackets 3 payment.encode)).isSome = true := by
    decide +kernel
  obtain ⟨⟨prompt, g⟩, h⟩ := Option.isSome_iff_exists.1 hsome
  have hderive (path : List UInt32) (hpath : ¬ coinPath <+: path) :
      ∃ x, Env.loaded.derive path = .error x := ⟨.security, if_neg hpath⟩
  obtain ⟨v, -, -, -, -, -, -, -, hpath, key, ext, hkey, hlock, -⟩ :=
    signPath_shown Env.loaded hderive 0x03 _ prompt g h
  exact ⟨prompt, g, h, _, hpath, key, ext, hkey, hlock⟩

end LedgerNervos
