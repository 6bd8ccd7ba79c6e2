import LedgerNervos.Codes.Bursts
import LedgerNervos.Display.AddressReader

/-!
# Addresses that are copied wrongly

The checksum of an address is kept in a register with room for six symbols, so characters that are
changed within a window of six are always noticed: what comes out is not an address
(`address_typo`).  The window can be anywhere, also at the human-readable part, where a change of
the network changes one symbol.
-/

namespace LedgerNervos

/-! ### The form of an address -/

/-- A character with a symbol is the one that stands for it. -/
theorem bech32Char_of_symbol {c : Char} {v : ℕ} (h : bech32Symbol c = some v) :
    v < 2 ^ 5 ∧ bech32Char v = c := by
  obtain ⟨hlt, hchar, -⟩ := List.findIdx?_eq_some_iff_getElem.1 h
  refine ⟨hlt, ?_⟩
  rw [bech32Char, List.getD_eq_getElem _ _ hlt]
  exact eq_of_beq hchar

/-- The characters whose symbols have been read. -/
theorem eq_map_bech32Char {cs : List Char} {vs : List ℕ} (h : cs.mapM bech32Symbol = some vs) :
    cs = vs.map bech32Char ∧ ∀ v ∈ vs, v < 2 ^ 5 := by
  induction cs generalizing vs with
  | nil =>
    obtain rfl : [] = vs := Option.some.inj h
    exact ⟨rfl, List.forall_mem_nil _⟩
  | cons c cs ih =>
    rw [List.mapM_cons] at h
    cases hc : bech32Symbol c with
    | none =>
      rw [hc] at h
      cases h
    | some v =>
      cases hcs : cs.mapM bech32Symbol with
      | none =>
        rw [hc, hcs] at h
        cases h
      | some ws =>
        rw [hc, hcs] at h
        obtain rfl : v :: ws = vs := Option.some.inj h
        obtain ⟨hv, hchar⟩ := bech32Char_of_symbol hc
        obtain ⟨rest_eq, hrest⟩ := ih hcs
        exact ⟨by rw [List.map_cons, hchar, ← rest_eq], List.forall_mem_cons.2 ⟨hv, hrest⟩⟩

/-- The last character of the human-readable part, as a symbol. -/
def AddressType.symbol : AddressType → ℕ
  | mainnet => 2
  | testnet => 20

/-- The networks differ in one symbol of the human-readable part, the last one. -/
theorem AddressType.bech32HrpExpand_hrp (t : AddressType) :
    bech32HrpExpand t.hrp = [3, 3, 3, 0, 3, 11] ++ [t.symbol] := by
  cases t <;> rfl

/-- The text has the form of an address: behind the network and the separator there are the
characters of symbols which make the checksum right. -/
structure AddressForm (t : AddressType) (vs : List ℕ) (text : List Char) : Prop where
  text_eq : text = t.hrp ++ '1' :: vs.map bech32Char
  symbols_lt : ∀ v ∈ vs, v < 2 ^ 5
  checksum : bech32Register.feed (bech32Polymod [3, 3, 3, 0, 3, 11]) (t.symbol :: vs) = 1

/-- What is read has the form of an address. -/
theorem exists_addressForm {text : List Char} {s : LockScript} (h : readAddress text = some s) :
    ∃ t vs, AddressForm t vs text := by
  have htext :=
    (List.rdropWhile_append_rtakeWhile (p := fun c => decide (c ≠ '1')) (l := text)).symm
  unfold readAddress bech32Decode at h
  dsimp only at h
  cases hsymbols : (text.rtakeWhile (· ≠ '1')).mapM bech32Symbol with
  | none =>
    rw [hsymbols] at h
    cases h
  | some vs =>
    rw [hsymbols] at h
    dsimp only at h
    by_cases hvalid : (text.rdropWhile (· ≠ '1')).dropLast ≠ [] ∧ 6 ≤ vs.length ∧
        bech32Polymod (bech32HrpExpand (text.rdropWhile (· ≠ '1')).dropLast ++ vs) = 1
    · rw [if_pos hvalid] at h
      dsimp only at h
      split_ifs at h with hnetwork
      obtain ⟨hne, -, hchecksum⟩ := hvalid
      obtain ⟨t, ht⟩ : ∃ t : AddressType, (text.rdropWhile (· ≠ '1')).dropLast = t.hrp := by
        obtain hmainnet | htestnet := hnetwork
        · exact ⟨_, hmainnet⟩
        · exact ⟨_, htestnet⟩
      rw [ht] at hchecksum hne
      have hfront : text.rdropWhile (· ≠ '1') ≠ [] := by
        intro hnil
        rw [hnil] at ht
        exact hne ht.symm
      have hlast := List.rdropWhile_last_not (fun c => decide (c ≠ '1')) text hfront
      have hseparator : text.rdropWhile (· ≠ '1') = t.hrp ++ ['1'] := by
        rw [← ht]
        refine (List.dropLast_append_getLast hfront).symm.trans ?_
        simpa using hlast
      obtain ⟨hchars, hlt⟩ := eq_map_bech32Char hsymbols
      refine ⟨t, vs, ⟨?_, hlt, ?_⟩⟩
      · rw [hseparator, hchars, List.append_assoc] at htext
        exact htext
      · rwa [t.bech32HrpExpand_hrp, List.append_assoc, bech32Polymod,
          XorRegister.feed_append] at hchecksum
    · rw [if_neg hvalid] at h
      cases h

/-! ### Changed characters -/

theorem bech32Register_regular : bech32Register.Regular := by
  unfold XorRegister.Regular
  decide

theorem bech32Char_inj {v w : ℕ} (hv : v < 2 ^ 5) (hw : w < 2 ^ 5)
    (h : bech32Char v = bech32Char w) : v = w := by
  have hsymbol := (bech32Symbol_char hv).1
  rw [h, (bech32Symbol_char hw).1] at hsymbol
  exact (Option.some.inj hsymbol).symm

namespace AddressForm

variable {t t' : AddressType} {vs vs' : List ℕ} {text text' : List Char}

theorem length_eq (h : AddressForm t vs text) : text.length = vs.length + 4 := by
  rw [h.text_eq]
  cases t <;> simp [AddressType.hrp]

theorem getElem?_add (h : AddressForm t vs text) (j : ℕ) :
    text[j + 4]? = (vs[j]?).map bech32Char := by
  rw [h.text_eq, ← List.getElem?_map]
  cases t <;> rfl

/-- The networks are told apart by the last character of the human-readable part. -/
theorem symbol_eq (h : AddressForm t vs text) (h' : AddressForm t' vs' text')
    (hchar : text[2]? = text'[2]?) : t.symbol = t'.symbol := by
  rw [h.text_eq, h'.text_eq] at hchar
  cases t <;> cases t'
  · rfl
  · exact absurd (Option.some.inj hchar) (by decide)
  · exact absurd (Option.some.inj hchar) (by decide)
  · rfl

/-- Where the characters agree, so do the symbols. -/
theorem getElem?_eq (h : AddressForm t vs text) (h' : AddressForm t' vs' text') {j : ℕ}
    (hchar : text[j + 4]? = text'[j + 4]?) : vs[j]? = vs'[j]? := by
  rw [h.getElem?_add, h'.getElem?_add] at hchar
  cases hv : vs[j]? with
  | none =>
    rw [hv, Option.map_none, eq_comm, Option.map_eq_none_iff] at hchar
    exact hchar.symm
  | some v =>
    rw [hv, Option.map_some, eq_comm, Option.map_eq_some_iff] at hchar
    obtain ⟨w, hw, hsame⟩ := hchar
    rw [hw, bech32Char_inj (h.symbols_lt v (List.mem_of_getElem? hv))
      (h'.symbols_lt w (List.mem_of_getElem? hw)) hsame.symm]

/-- Characters that are changed within a window change the symbols within a window.  The separator
is no symbol, so a window around it becomes shorter. -/
theorem changedWithin (h : AddressForm t vs text) (h' : AddressForm t' vs' text') {n : ℕ}
    (hchanged : ChangedWithin n text text') :
    ChangedWithin n (t.symbol :: vs) (t'.symbol :: vs') := by
  obtain ⟨hlength, i, hwithin⟩ := hchanged
  rw [h.length_eq, h'.length_eq] at hlength
  refine ⟨by rw [List.length_cons, List.length_cons]; omega, i - 3, fun j hne => ?_⟩
  cases j with
  | zero =>
    have hchar : text[2]? ≠ text'[2]? := by
      intro hsame
      exact hne (congrArg some (h.symbol_eq h' hsame))
    have := hwithin 2 hchar
    omega
  | succ j =>
    have hchar : text[j + 4]? ≠ text'[j + 4]? := by
      intro hsame
      exact hne (h.getElem?_eq h' hsame)
    have := hwithin (j + 4) hchar
    omega

end AddressForm

/-- Two addresses that differ within a window of six characters only are the same. -/
theorem ChangedWithin.eq_of_readAddress {text text' : List Char} {s s' : LockScript}
    (h : ChangedWithin 6 text text') (hread : readAddress text = some s)
    (hread' : readAddress text' = some s') : text = text' := by
  obtain ⟨t, vs, hform⟩ := exists_addressForm hread
  obtain ⟨t', vs', hform'⟩ := exists_addressForm hread'
  have hsymbol (t : AddressType) : t.symbol < 2 ^ 5 := by cases t <;> decide
  have hsymbols := (hform.changedWithin hform' h).eq_of_feed bech32Register_regular
    (by decide) (by decide) (List.forall_mem_cons.2 ⟨hsymbol t, hform.symbols_lt⟩)
    (List.forall_mem_cons.2 ⟨hsymbol t', hform'.symbols_lt⟩)
    (hform.checksum.trans hform'.checksum.symm)
  obtain ⟨hnetwork, rfl⟩ := List.cons.inj hsymbols
  obtain rfl : t = t' := by
    cases t <;> cases t'
    · rfl
    · exact absurd hnetwork (by decide)
    · exact absurd hnetwork (by decide)
    · rfl
  rw [hform.text_eq, hform'.text_eq]

/-- **Copying errors.**  Every address that is shown names its lock script; when characters of it
are changed within a window of six, what comes out names none. -/
theorem address_typo (kind : AddressKind) (nd : NvramData) (a : LockArg) :
    ∃ text, kind.render nd a = .ok text ∧ readAddress text = some (kind.lockScript a) ∧
      ∀ text', ChangedWithin 6 text text' → text' ≠ text → readAddress text' = none := by
  obtain ⟨text, htext, hread⟩ := kind.readAddress_render nd a
  refine ⟨text, htext, hread, fun text' hchanged hne => ?_⟩
  cases hread' : readAddress text' with
  | none => rfl
  | some s' => exact absurd (hchanged.eq_of_readAddress hread hread').symm hne

end LedgerNervos
