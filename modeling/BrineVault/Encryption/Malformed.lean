import BrineVault.Encryption.Shares
import BrineVault.Lib.Move

/-!
# Shares that recover nothing

What `recoverSecret` refuses: it checks the number of the shares and their lengths, and two shares of one index end in the inverse of zero. No other
shares do, for the field has no divisors of zero.
-/

namespace BrineVault

open Move

/-! ## The product of the differences -/

/-- What `gfInv` is applied to at position `i`: the product of the differences between the index there and the others. -/
def denominator (shares : List ShamirShare) (i xi : Nat) : Nat :=
  (shares.eraseIdx i).foldl (fun denominator share => gfMul denominator (xi ^^^ share.index)) 1

variable {shares : List ShamirShare} {i xi : Nat}

/-- A denominator is 0 when another share has the index. -/
theorem denominator_eq_zero_iff (hindex : ∀ share ∈ shares, share.index < 256) (hxi : xi < 256) :
    denominator shares i xi = 0 ↔ ∃ other ∈ shares.eraseIdx i, other.index = xi := by
  obtain ⟨hlt, hprod⟩ := foldl_gfMul (fun other => xi ^^^ other.index) (shares.eraseIdx i) (a := 1) (by decide)
  have hzero : ∀ {n : Nat}, n < 256 → (gf n = 0 ↔ n = 0) := by
    intro n hn
    refine ⟨fun h => by_contra fun hne => gf_ne_zero hn hne h, ?_⟩
    rintro rfl
    exact Packed.residue_zero
  have hone : gf 1 = 1 := Packed.residue_one
  rw [hone, one_mul] at hprod
  unfold denominator
  rw [← hzero hlt, hprod, List.prod_eq_zero_iff, List.mem_map]
  refine exists_congr fun other => and_congr_right fun hother => ?_
  have hother256 := hindex other (List.mem_of_mem_eraseIdx hother)
  rw [hzero (Nat.xor_lt_two_pow (n := 8) hxi hother256), Nat.xor_eq_zero_iff]
  exact eq_comm

/-- The factor fails exactly on a denominator of 0. -/
theorem fails_lagrange_iff : Fails (lagrange shares i xi) ↔ denominator shares i xi = 0 := by
  have hreturn : ∀ inverse numerator : Nat, ¬ Fails (return gfMul numerator inverse : Except String Nat) := fun _ _ => not_fails_iff.2 ⟨_, rfl⟩
  have hlagrange : Fails (lagrange shares i xi) ↔ Fails (gfInv (denominator shares i xi)) := by
    rw [lagrange, fails_bind_iff]
    simp [hreturn, denominator]
  rw [hlagrange, gfInv]
  split
  · rename_i hzero
    exact iff_of_true ⟨_, rfl⟩ hzero
  · rename_i hne
    exact iff_of_false (not_fails_iff.2 ⟨_, rfl⟩) hne

/-- A byte is not recovered where `gfInv` is applied to zero at some position, whatever the byte is. -/
theorem fails_recoverByte_iff {byteIdx : Nat} :
    Fails (recoverByte shares byteIdx) ↔ ∃ i share, shares[i]? = some share ∧ denominator shares i share.index = 0 := by
  have hreturn : ∀ result : Nat, ¬ Fails (return result.toUInt8 : Except String UInt8) := fun _ => not_fails_iff.2 ⟨_, rfl⟩
  have hturn : ∀ (result : Nat) (entry : ShamirShare × Nat), Fails (do
      let factor ← lagrange shares entry.2 entry.1.index
      return result ^^^ gfMul (entry.1.data.getD byteIdx 0).toNat factor) ↔ denominator shares entry.2 entry.1.index = 0 := by
    intro result entry
    rw [fails_bind_iff, fails_lagrange_iff]
    exact or_iff_left fun ⟨_, _, hfails⟩ => not_fails_iff.2 ⟨_, rfl⟩ hfails
  rw [recoverByte, fails_bind_iff, fails_foldlM_iff hturn]
  simp only [hreturn, and_false, exists_false, or_false, Prod.exists, List.mem_zipIdx_iff_getElem?]
  exact exists_comm

/-! ## The two checks -/

/-- Enough shares of one length are recovered byte by byte. -/
theorem recoverSecret_eq_mapM {secretLen : Nat} (htwo : 2 ≤ shares.length) (hlength : ∀ share ∈ shares, share.data.length = secretLen) :
    recoverSecret shares = (List.range secretLen).mapM (recoverByte shares) := by
  match shares, htwo with
  | first :: second :: rest, _ =>
    have hsame : ((first :: second :: rest).any fun share => share.data.length ≠ first.data.length) = false := by
      rw [List.any_eq_false]
      intro share hshare
      simp [hlength share hshare, hlength first List.mem_cons_self]
    rw [recoverSecret, hsame, hlength first List.mem_cons_self]
    rfl

/-- With fewer than two shares it fails. -/
theorem recoverSecret_few (hfew : shares.length < 2) : Fails (recoverSecret shares) := by
  match shares, hfew with
  | [], _ => exact ⟨_, rfl⟩
  | [_], _ => exact ⟨_, rfl⟩
  | _ :: _ :: _, hfew => exact absurd hfew (by simp)

/-- With shares of two lengths it fails. -/
theorem recoverSecret_lengths {share other : ShamirShare} (hshare : share ∈ shares) (hother : other ∈ shares)
    (hdiffer : share.data.length ≠ other.data.length) : Fails (recoverSecret shares) := by
  by_cases htwo : 2 ≤ shares.length
  · match shares, htwo with
    | first :: second :: rest, _ =>
      have hany : ((first :: second :: rest).any fun share => share.data.length ≠ first.data.length) = true := by
        rw [List.any_eq_true]
        by_cases hfirst : share.data.length = first.data.length
        · exact ⟨other, hother, by simpa [← hfirst] using hdiffer.symm⟩
        · exact ⟨share, hshare, by simpa using hfirst⟩
      rw [recoverSecret, hany]
      exact ⟨_, rfl⟩
  · exact recoverSecret_few (not_le.1 htwo)

/-! ## What is refused -/

/-- Two shares, at different positions, have the same index. -/
def SameIndex (shares : List ShamirShare) : Prop :=
  ∃ (i j : Nat) (share other : ShamirShare), i ≠ j ∧ shares[i]? = some share ∧ shares[j]? = some other ∧ share.index = other.index

/-- There are fewer than two shares, or two lengths differ, or two shares have the same index. -/
def Malformed (shares : List ShamirShare) : Prop :=
  shares.length < 2 ∨ (∃ share ∈ shares, ∃ other ∈ shares, share.data.length ≠ other.data.length) ∨ SameIndex shares

/-- Some denominator is 0 exactly when two shares have one index. -/
theorem denominator_zero_iff_sameIndex (hindex : ∀ share ∈ shares, share.index < 256) :
    (∃ i share, shares[i]? = some share ∧ denominator shares i share.index = 0) ↔ SameIndex shares := by
  constructor
  · rintro ⟨i, share, hi, hzero⟩
    obtain ⟨other, hother, hsame⟩ := (denominator_eq_zero_iff hindex (hindex share (List.mem_of_getElem? hi))).1 hzero
    obtain ⟨j, hj, hget⟩ := List.mem_eraseIdx_iff_getElem?.1 hother
    exact ⟨i, j, share, other, hj.symm, hi, hget, hsame.symm⟩
  · rintro ⟨i, j, share, other, hij, hi, hj, hsame⟩
    have hother : other ∈ shares.eraseIdx i := List.mem_eraseIdx_iff_getElem?.2 ⟨j, hij.symm, hj⟩
    exact ⟨i, share, hi, (denominator_eq_zero_iff hindex (hindex share (List.mem_of_getElem? hi))).2 ⟨other, hother, hsame.symm⟩⟩

/-- Two or more shares of one length, which is not zero, are refused where `gfInv` is applied to zero. -/
theorem fails_recoverSecret_iff {secretLen : Nat} (htwo : 2 ≤ shares.length) (hlength : ∀ share ∈ shares, share.data.length = secretLen)
    (hne : secretLen ≠ 0) :
    Fails (recoverSecret shares) ↔ ∃ i share, shares[i]? = some share ∧ denominator shares i share.index = 0 := by
  rw [recoverSecret_eq_mapM htwo hlength, fails_mapM_iff]
  simp only [fails_recoverByte_iff]
  constructor
  · rintro ⟨_, -, hzero⟩
    exact hzero
  · intro hzero
    exact ⟨0, List.mem_range.2 (Nat.pos_of_ne_zero hne), hzero⟩

/-- Shares are refused exactly when they are malformed. Of others `gfInv` is applied to no zero, and the result has their length. -/
theorem recoverSecret_fails_iff (hindex : ∀ share ∈ shares, 1 ≤ share.index ∧ share.index ≤ 255) (hdata : ∀ share ∈ shares, share.data ≠ []) :
    ((∃ e, recoverSecret shares = .error e) ↔ Malformed shares) ∧
      (¬ Malformed shares →
        (∀ i share, shares[i]? = some share → denominator shares i share.index ≠ 0) ∧
        ∃ secret, recoverSecret shares = .ok secret ∧ ∀ share ∈ shares, secret.length = share.data.length) := by
  have h256 : ∀ share ∈ shares, share.index < 256 := fun share hshare => Nat.lt_succ_of_le (hindex share hshare).2
  by_cases htwo : 2 ≤ shares.length
  · obtain ⟨first, hfirst⟩ : ∃ first, first ∈ shares := List.exists_mem_of_length_pos (by omega)
    by_cases hlength : ∀ share ∈ shares, share.data.length = first.data.length
    · have hne : first.data.length ≠ 0 := fun hzero => hdata first hfirst (List.eq_nil_of_length_eq_zero hzero)
      have hmalformed : Malformed shares ↔ SameIndex shares := by
        constructor
        · rintro (hfew | ⟨share, hshare, other, hother, hdiffer⟩ | hsame)
          · omega
          · exact absurd ((hlength share hshare).trans (hlength other hother).symm) hdiffer
          · exact hsame
        · exact fun hsame => .inr (.inr hsame)
      have hfails : Fails (recoverSecret shares) ↔ Malformed shares := by
        rw [fails_recoverSecret_iff htwo hlength hne, denominator_zero_iff_sameIndex h256, hmalformed]
      refine ⟨hfails, fun hwell => ⟨fun i share hi hzero => ?_, ?_⟩⟩
      · exact hwell (hmalformed.2 ((denominator_zero_iff_sameIndex h256).1 ⟨i, share, hi, hzero⟩))
      · obtain ⟨secret, hsecret⟩ := not_fails_iff.1 (hfails.not.2 hwell)
        refine ⟨secret, hsecret, fun share hshare => ?_⟩
        rw [recoverSecret_eq_mapM htwo hlength] at hsecret
        rw [length_of_mapM hsecret, List.length_range, hlength share hshare]
    · obtain ⟨share, hshare, hdiffer⟩ : ∃ share ∈ shares, share.data.length ≠ first.data.length := by simpa using hlength
      have hmalformed : Malformed shares := .inr (.inl ⟨share, hshare, first, hfirst, hdiffer⟩)
      exact ⟨iff_of_true (recoverSecret_lengths hshare hfirst hdiffer) hmalformed, fun hwell => absurd hmalformed hwell⟩
  · have hmalformed : Malformed shares := .inl (not_le.1 htwo)
    exact ⟨iff_of_true (recoverSecret_few (not_le.1 htwo)) hmalformed, fun hwell => absurd hmalformed hwell⟩

/-- Two shares of index 3 are refused, and two of indices 1 and 2 give one byte. -/
theorem recoverSecret_fails_sample :
    (∃ e, recoverSecret [⟨3, [7]⟩, ⟨3, [9]⟩] = .error e) ∧ ∃ secret, recoverSecret [⟨1, [7]⟩, ⟨2, [9]⟩] = .ok secret ∧ secret.length = 1 := by
  refine ⟨(recoverSecret_fails_iff (by simp) (by simp)).1.2 (.inr (.inr ⟨0, 1, _, _, by decide, rfl, rfl, rfl⟩)), ?_⟩
  have hwell : ¬ Malformed [⟨1, [7]⟩, ⟨2, [9]⟩] := by
    rintro (hfew | ⟨share, hshare, other, hother, hdiffer⟩ | ⟨i, j, share, other, hij, hi, hj, hsame⟩)
    · simp at hfew
    · obtain rfl | rfl := List.mem_pair.1 hshare <;> obtain rfl | rfl := List.mem_pair.1 hother <;> exact hdiffer rfl
    · match i, j with
      | 0, 0 | 1, 1 => exact hij rfl
      | 0, 1 | 1, 0 =>
        cases hi
        cases hj
        cases hsame
      | _, _ + 2 => cases hj
      | _ + 2, _ => cases hi
  obtain ⟨secret, hsecret, hlength⟩ := ((recoverSecret_fails_iff (by simp) (by simp)).2 hwell).2
  exact ⟨secret, hsecret, hlength _ List.mem_cons_self⟩

end BrineVault
