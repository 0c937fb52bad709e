import BrineVault.Lib.Shamir
import BrineVault.Encryption.Arithmetic
import Mathlib.Data.FinEnum
import Mathlib.Data.Fintype.Pi

/-!
# What shares of a secret give back, and what they do not

Byte by byte a split is a dealer's polynomial over GF(2^8), whose values at the indices are the shares. As many shares as the threshold
recover the secret, and fewer say nothing about it.
-/

namespace BrineVault

/-! ## The dealer's polynomials -/

/-- A value of the polynomial is below 256. -/
theorem evaluate_lt (coefficients : List UInt8) (x : Nat) : evaluate coefficients x < 256 := by
  induction coefficients with
  | nil => exact Nat.zero_lt_succ 255
  | cons c coefficients ih => exact Nat.xor_lt_two_pow (n := 8) (gfMul_lt ih x) c.toNat_lt

/-- And it is the value in the field. -/
theorem gf_evaluate (coefficients : List UInt8) (x : Nat) :
    gf (evaluate coefficients x) = (coefficients.map byteEquiv).foldr (fun c y => y * gf x + c) 0 := by
  induction coefficients with
  | nil => exact Packed.residue_zero
  | cons c coefficients ih =>
    have hcons : evaluate (c :: coefficients) x = gfMul (evaluate coefficients x) x ^^^ c.toNat := rfl
    rw [hcons, gf, Packed.residue_xor, ← gf, gf_gfMul, ih]
    rfl

/-- The byte of a share is the value of the dealer's polynomial at the index. -/
theorem byteEquiv_evaluate {d : Nat} (s : UInt8) (drawn : Fin d → UInt8) (x : Nat) :
    byteEquiv (evaluate (s :: List.ofFn drawn) x).toUInt8 = (Shamir.dealer (byteEquiv s) fun k => byteEquiv (drawn k)).eval (gf x) := by
  rw [byteEquiv_toUInt8 (evaluate_lt _ x), gf_evaluate, Shamir.eval_dealer, List.map_cons, List.map_ofFn]
  rfl

/-- When a secret is split, and into which shares. -/
theorem splitSecret_eq_ok_iff {len n threshold : Nat} {secret : Vector UInt8 len} {draws : Draws len threshold} {shares : List ShamirShare} :
    splitSecret secret n threshold draws = .ok shares ↔
      (threshold ≤ n ∧ 2 ≤ threshold ∧ n ≤ 255 ∧ len ≠ 0) ∧ shares = (List.range n).map (shareOf secret draws) := by
  unfold splitSecret
  by_cases hn : threshold > n
  · simp [hn, throw, throwThe, MonadExceptOf.throw, bind, Except.bind]
  · by_cases h2 : threshold < 2
    · simp [hn, h2, throw, throwThe, MonadExceptOf.throw, bind, Except.bind]
    · by_cases h255 : n > 255
      · simp [hn, h2, h255, throw, throwThe, MonadExceptOf.throw, bind, Except.bind]
      · by_cases hlen : len = 0
        · simp [hn, h2, h255, hlen, throw, throwThe, MonadExceptOf.throw, bind, Except.bind]
        · simp [hn, h2, h255, hlen, pure, Except.pure, eq_comm]
          omega

/-! ## Recovery -/

/-- The points of the field at which shares give values. -/
noncomputable def points (shares : List ShamirShare) : Finset GF256 := (shares.map fun share => gf share.index).toFinset

/-- A product of factors is that in the field. -/
theorem foldl_gfMul (factor : ShamirShare → Nat) (shares : List ShamirShare) {a : Nat} (ha : a < 256) :
    shares.foldl (fun acc share => gfMul acc (factor share)) a < 256 ∧
      gf (shares.foldl (fun acc share => gfMul acc (factor share)) a) = gf a * (shares.map fun share => gf (factor share)).prod := by
  induction shares generalizing a with
  | nil => exact ⟨ha, by simp⟩
  | cons share shares ih =>
    obtain ⟨hlt, hprod⟩ := ih (gfMul_lt ha (factor share))
    refine ⟨hlt, ?_⟩
    rw [List.foldl_cons, hprod, gf_gfMul, List.map_cons, List.prod_cons, mul_assoc]

/-- The positions but one are the points but one. -/
theorem prod_eraseIdx {shares : List ShamirShare} (hnodup : (shares.map fun share => gf share.index).Nodup) {i : Nat}
    {share : ShamirShare} (hi : shares[i]? = some share) (f : GF256 → GF256) :
    ((shares.eraseIdx i).map fun other => f (gf other.index)).prod = ∏ x' ∈ (points shares).erase (gf share.index), f x' := by
  have hlt : i < (shares.map fun share => gf share.index).length := by
    rw [List.length_map]
    exact (List.getElem?_eq_some_iff.1 hi).1
  have hget : (shares.map fun share => gf share.index)[i] = gf share.index := by
    rw [List.getElem_map, (List.getElem?_eq_some_iff.1 hi).2]
  have herase := hnodup.erase_getElem i hlt
  rw [hget] at herase
  have hset : (points shares).erase (gf share.index) = ((shares.map fun share => gf share.index).erase (gf share.index)).toFinset := by
    ext x
    simp [points, hnodup.mem_erase_iff]
  rw [hset, List.prod_toFinset f (hnodup.erase _), herase, List.eraseIdx_map, List.map_map]
  rfl

/-- The factor of a share is its Lagrange factor at 0. -/
theorem lagrange_eq {shares : List ShamirShare} (hnodup : (shares.map fun share => gf share.index).Nodup) {i : Nat} {share : ShamirShare}
    (hi : shares[i]? = some share) :
    ∃ factor, lagrange shares i share.index = .ok factor ∧
      gf factor = ∏ x' ∈ (points shares).erase (gf share.index), x' / (x' - gf share.index) := by
  obtain ⟨hnum, hnumerator⟩ := foldl_gfMul (·.index) (shares.eraseIdx i) (a := 1) (by decide)
  obtain ⟨hden, hdenominator⟩ := foldl_gfMul (fun other => share.index ^^^ other.index) (shares.eraseIdx i) (a := 1) (by decide)
  have hxor : ∀ other : ShamirShare, gf (share.index ^^^ other.index) = gf other.index - gf share.index := by
    intro other
    rw [gf, Packed.residue_xor, sub_eq_add_neg, Packed.residue_neg, add_comm]
  have hone : gf 1 = 1 := Packed.residue_one
  rw [hone, one_mul, prod_eraseIdx hnodup hi fun x' => x'] at hnumerator
  simp only [hxor] at hdenominator
  rw [hone, one_mul, prod_eraseIdx hnodup hi fun x' => x' - gf share.index] at hdenominator
  have hne : gf (List.foldl (fun acc other => gfMul acc (share.index ^^^ other.index)) 1 (shares.eraseIdx i)) ≠ 0 := by
    rw [hdenominator, Finset.prod_ne_zero_iff]
    intro x' hx'
    exact sub_ne_zero.2 (Finset.ne_of_mem_erase hx')
  obtain ⟨inverse, _, hok, hinv⟩ := gfInv_eq hden hne
  refine ⟨_, by rw [lagrange, hok]; rfl, ?_⟩
  rw [gf_gfMul, hnumerator, hinv, hdenominator, Finset.prod_div_distrib, div_eq_mul_inv]

/-- The loop over the positions adds up what the shares weigh. -/
theorem foldlM_lagrange {shares : List ShamirShare} (byteIdx : Nat) (weight : ShamirShare → GF256) (entries : List (ShamirShare × Nat))
    (hweight : ∀ entry ∈ entries, ∃ factor, lagrange shares entry.2 entry.1.index = .ok factor ∧ gf factor = weight entry.1) {r : Nat}
    (hr : r < 256) :
    ∃ result < 256, entries.foldlM (fun result entry => do
        let factor ← lagrange shares entry.2 entry.1.index
        return result ^^^ gfMul (entry.1.data.getD byteIdx 0).toNat factor) r = .ok result ∧
      gf result = gf r + (entries.map fun entry => byteEquiv (entry.1.data.getD byteIdx 0) * weight entry.1).sum := by
  induction entries generalizing r with
  | nil => exact ⟨r, hr, rfl, by simp⟩
  | cons entry entries ih =>
    obtain ⟨factor, hfactor, hgf⟩ := hweight entry List.mem_cons_self
    have hstep : r ^^^ gfMul (entry.1.data.getD byteIdx 0).toNat factor < 256 :=
      Nat.xor_lt_two_pow (n := 8) hr (gfMul_lt (UInt8.toNat_lt _) factor)
    obtain ⟨result, hresult, hok, hsum⟩ := ih (fun other h => hweight other (List.mem_cons_of_mem _ h)) hstep
    refine ⟨result, hresult, ?_, ?_⟩
    · rw [List.foldlM_cons, hfactor]
      exact hok
    · rw [hsum, gf, Packed.residue_xor, ← gf, ← gf, gf_gfMul, hgf, List.map_cons, List.sum_cons, add_assoc]
      rfl

/-- The values of a polynomial of a degree below their number, at distinct indices, recover the byte at zero. -/
theorem recoverByte_eq {shares : List ShamirShare} (hnodup : (shares.map fun share => gf share.index).Nodup) {p : Polynomial GF256}
    (hp : p.degree < shares.length) {byteIdx : Nat}
    (hvalue : ∀ share ∈ shares, byteEquiv (share.data.getD byteIdx 0) = p.eval (gf share.index)) {s : UInt8} (hs : p.eval 0 = byteEquiv s) :
    recoverByte shares byteIdx = .ok s := by
  let weight : GF256 → GF256 := fun x => ∏ x' ∈ (points shares).erase x, x' / (x' - x)
  obtain ⟨result, hlt, hok, hsum⟩ := @foldlM_lagrange shares byteIdx (fun share => weight (gf share.index)) shares.zipIdx
    (fun entry hentry => lagrange_eq hnodup (List.mem_zipIdx_iff_getElem?.1 hentry)) (r := 0) (by decide)
  have hcard : p.degree < (points shares).card := by
    rwa [points, List.toFinset_card_of_nodup hnodup, List.length_map]
  have hlist : (shares.zipIdx.map fun entry => byteEquiv (entry.1.data.getD byteIdx 0) * weight (gf entry.1.index)) =
      (shares.map fun share => gf share.index).map fun x => p.eval x * weight x := by
    calc shares.zipIdx.map (fun entry => byteEquiv (entry.1.data.getD byteIdx 0) * weight (gf entry.1.index))
        = shares.zipIdx.map ((fun share => p.eval (gf share.index) * weight (gf share.index)) ∘ Prod.fst) := by
          apply List.map_congr_left
          intro entry hentry
          have hmem : entry.1 ∈ shares := List.mem_of_getElem? (List.mem_zipIdx_iff_getElem?.1 hentry)
          rw [hvalue entry.1 hmem]
          rfl
      _ = (shares.map fun share => gf share.index).map fun x => p.eval x * weight x := by
          rw [← List.map_map, List.zipIdx_map_fst, List.map_map]
          rfl
  have hresult : byteEquiv result.toUInt8 = byteEquiv s := by
    rw [byteEquiv_toUInt8 hlt, hsum, gf, Packed.residue_zero, zero_add, hlist, ← List.sum_toFinset _ hnodup, ← points, ← hs,
      Shamir.eval_zero_eq_sum hcard]
  unfold recoverByte
  rw [hok, ← byteEquiv.injective hresult]
  rfl

/-- Where every element succeeds the list does. -/
theorem mapM_eq_ok {α β ε : Type} {f : α → Except ε β} {g : α → β} {xs : List α} (h : ∀ x ∈ xs, f x = .ok (g x)) :
    xs.mapM f = .ok (xs.map g) := by
  induction xs with
  | nil => rfl
  | cons x xs ih =>
    have htail := ih fun y hy => h y (List.mem_cons_of_mem _ hy)
    rw [List.mapM_cons, h x List.mem_cons_self, htail]
    rfl

/-- Shares of the same length whose bytes are all recovered give the secret. -/
theorem recoverSecret_eq {shares : List ShamirShare} {secret : List UInt8} (htwo : 2 ≤ shares.length)
    (hlen : ∀ share ∈ shares, share.data.length = secret.length)
    (hbyte : ∀ byteIdx < secret.length, recoverByte shares byteIdx = .ok (secret.getD byteIdx 0)) : recoverSecret shares = .ok secret := by
  unfold recoverSecret
  rcases shares with _ | ⟨first, _ | ⟨second, rest⟩⟩
  · simp at htwo
  · simp at htwo
  · have hfirst : first.data.length = secret.length := hlen first List.mem_cons_self
    have hsame : ((first :: second :: rest).any fun share => share.data.length ≠ first.data.length) = false := by
      rw [List.any_eq_false]
      intro share hshare
      rw [hfirst, hlen share hshare]
      simp
    have hsecret : (List.range secret.length).map (fun byteIdx => secret.getD byteIdx 0) = secret := by
      apply List.ext_getElem
      · simp
      · intro i h1 h2
        simp [h2]
    have hbytes : ∀ byteIdx ∈ List.range secret.length,
        recoverByte (first :: second :: rest) byteIdx = .ok (secret.getD byteIdx 0) :=
      fun byteIdx h => hbyte byteIdx (List.mem_range.1 h)
    dsimp only
    rw [hsame, hfirst, mapM_eq_ok hbytes, hsecret]
    rfl

/-- As many shares of a split as the threshold, at distinct indices and in any order, recover the secret. -/
theorem recoverSecret_splitSecret {len n threshold : Nat} (secret : Vector UInt8 len) (draws : Draws len threshold) (hlen : len ≠ 0)
    (h2 : 2 ≤ threshold) (hn : threshold ≤ n) (h255 : n ≤ 255) :
    ∃ shares, splitSecret secret n threshold draws = .ok shares ∧
      ∀ list : List ShamirShare, (∀ share ∈ list, share ∈ shares) → threshold ≤ list.length → (list.map (·.index)).Nodup →
        recoverSecret list = .ok secret.toList := by
  refine ⟨_, splitSecret_eq_ok_iff.2 ⟨⟨hn, h2, h255, hlen⟩, rfl⟩, ?_⟩
  intro list hmem hcount hnodup
  have hshare : ∀ share ∈ list, ∃ i < n, shareOf secret draws i = share := by
    intro share h
    obtain ⟨i, hi, heq⟩ := List.mem_map.1 (hmem share h)
    exact ⟨i, List.mem_range.1 hi, heq⟩
  have hindex : ∀ share ∈ list, share.index < 256 := by
    intro share h
    obtain ⟨i, hi, rfl⟩ := hshare share h
    have : i + 1 < 256 := by omega
    exact this
  have hpoints : (list.map fun share => gf share.index).Nodup := by
    have hmap : (list.map fun share => gf share.index) = (list.map (·.index)).map gf := by
      rw [List.map_map]
      rfl
    rw [hmap]
    refine hnodup.map_on ?_
    intro x hx y hy hxy
    obtain ⟨share, hs, rfl⟩ := List.mem_map.1 hx
    obtain ⟨share', hs', rfl⟩ := List.mem_map.1 hy
    exact Packed.residue_injOn modulus_GF_POLY (hindex share hs) (hindex share' hs') hxy
  apply recoverSecret_eq (h2.trans hcount)
  · intro share h
    obtain ⟨i, _, rfl⟩ := hshare share h
    simp [shareOf]
  · intro byteIdx hbyte
    rw [Vector.length_toList] at hbyte
    let byte : Fin len := ⟨byteIdx, hbyte⟩
    have hdegree : (Shamir.dealer (byteEquiv (secret.get byte)) fun k => byteEquiv (draws byte k)).degree < list.length := by
      refine (Shamir.degree_dealer_lt _ _).trans_le ?_
      exact_mod_cast (show threshold - 1 + 1 ≤ list.length by omega)
    have hget : secret.toList.getD byteIdx 0 = secret.get byte := by
      simp [hbyte, byte, Vector.get]
    rw [hget]
    refine recoverByte_eq hpoints hdegree ?_ (Shamir.eval_dealer_zero _ _)
    intro share h
    obtain ⟨i, _, rfl⟩ := hshare share h
    have hdata : (shareOf secret draws i).data.getD byteIdx 0 =
        (evaluate (secret.get byte :: List.ofFn (draws byte)) (i + 1)).toUInt8 := by
      simp [shareOf, hbyte, byte]
    rw [hdata, byteEquiv_evaluate]
    rfl

/-- Two of the three shares of `[7, 200]`, the later one first. -/
theorem recoverSecret_splitSecret_sample :
    recoverSecret [{ index := 3, data := [162, 109] }, { index := 1, data := [100, 171] }] = .ok [7, 200] := by
  let secret : Vector UInt8 2 := ⟨#[7, 200], rfl⟩
  let shares : List ShamirShare := [⟨1, [100, 171]⟩, ⟨2, [193, 14]⟩, ⟨3, [162, 109]⟩]
  have hsplit : splitSecret secret 3 2 (fun _ _ => 99) = .ok shares := by decide +kernel
  obtain ⟨shares', hshares, hrecover⟩ := recoverSecret_splitSecret secret (n := 3) (fun _ _ => 99) (by decide) le_rfl (by decide) (by decide)
  have heq : shares = shares' := Except.ok.inj (hsplit.symm.trans hshares)
  subst heq
  exact hrecover _ (by decide) (by decide) (by decide)

/-! ## Secrecy -/

/-- The split hands out the values at the positions. -/
def Shows {len n : Nat} (secret : Vector UInt8 len) (threshold : Nat) (positions : Finset (Fin n)) (values : Fin n → List UInt8)
    (draws : Draws len threshold) : Prop :=
  ∃ shares ∈ (splitSecret secret n threshold draws).toOption, ∀ i ∈ positions, (shares[i.val]?).map (·.data) = some (values i)

instance {len n threshold : Nat} (secret : Vector UInt8 len) (positions : Finset (Fin n)) (values : Fin n → List UInt8) :
    DecidablePred (Shows secret threshold positions values) :=
  fun draws => inferInstanceAs (Decidable (∃ shares ∈ (splitSecret secret n threshold draws).toOption, _))

/-- What the shares at some positions show. -/
theorem shows_iff {len n threshold : Nat} {secret : Vector UInt8 len} {positions : Finset (Fin n)} {values : Fin n → List UInt8}
    {draws : Draws len threshold} :
    Shows secret threshold positions values draws ↔
      (threshold ≤ n ∧ 2 ≤ threshold ∧ n ≤ 255 ∧ len ≠ 0) ∧ ∀ i ∈ positions, (shareOf secret draws i).data = values i := by
  have hsome : ∀ shares, shares ∈ (splitSecret secret n threshold draws).toOption ↔ splitSecret secret n threshold draws = .ok shares := by
    intro shares
    cases splitSecret secret n threshold draws <;> simp [Except.toOption, eq_comm]
  have hat : ∀ i : Fin n, (((List.range n).map (shareOf secret draws))[i.val]?).map (·.data) = some (shareOf secret draws i).data := by
    intro i
    simp
  constructor
  · rintro ⟨shares, hshares, hvalues⟩
    obtain ⟨hok, rfl⟩ := splitSecret_eq_ok_iff.1 ((hsome shares).1 hshares)
    refine ⟨hok, ?_⟩
    intro i hi
    exact Option.some.inj ((hat i).symm.trans (hvalues i hi))
  · rintro ⟨hok, hvalues⟩
    refine ⟨_, (hsome _).2 (splitSecret_eq_ok_iff.2 ⟨hok, rfl⟩), ?_⟩
    intro i hi
    rw [hat i, hvalues i hi]

/-- The draws for one secret go over to those for another, one to one, with the same shares at the positions. -/
theorem exists_redraw {len n threshold : Nat} {positions : Finset (Fin n)} (h255 : n ≤ 255) (hfew : positions.card < threshold)
    (secret secret' : Vector UInt8 len) :
    ∃ redraw : Draws len threshold ≃ Draws len threshold,
      ∀ draws, ∀ i ∈ positions, shareOf secret' (redraw draws) i = shareOf secret draws i := by
  let observed : Finset GF256 := positions.image fun i : Fin n => gf (i + 1)
  have hzero : 0 ∉ observed := by
    intro h
    obtain ⟨i, _, hi⟩ := Finset.mem_image.1 h
    exact gf_ne_zero (by omega) (Nat.succ_ne_zero i.val) hi
  have hcard : observed.card ≤ threshold - 1 := by
    have himage : observed.card ≤ positions.card := Finset.card_image_le
    omega
  have hbyte : ∀ byte : Fin len, ∃ redraw : (Fin (threshold - 1) → GF256) ≃ (Fin (threshold - 1) → GF256), ∀ drawn, ∀ x ∈ observed,
      (Shamir.dealer (byteEquiv (secret'.get byte)) (redraw drawn)).eval x = (Shamir.dealer (byteEquiv (secret.get byte)) drawn).eval x :=
    fun byte => Shamir.exists_redraw hzero hcard _ _
  choose redraw hredraw using hbyte
  let bytes : (Fin (threshold - 1) → UInt8) ≃ (Fin (threshold - 1) → GF256) := Equiv.arrowCongr (Equiv.refl _) byteEquiv
  refine ⟨Equiv.piCongrRight fun byte => (bytes.trans (redraw byte)).trans bytes.symm, ?_⟩
  intro draws i hi
  unfold shareOf
  congr 2
  funext byte
  apply byteEquiv.injective
  have hpoint : gf (i + 1) ∈ observed := Finset.mem_image_of_mem (fun i : Fin n => gf (i + 1)) hi
  have hsame := hredraw byte (bytes (draws byte)) _ hpoint
  rw [byteEquiv_evaluate, byteEquiv_evaluate]
  refine Eq.trans ?_ hsame
  congr 2
  exact bytes.apply_symm_apply (redraw byte (bytes (draws byte)))

/-- Fewer shares than the threshold say nothing: whatever values they are given, as many choices of the coefficients produce them for
one secret as for another of the same length. -/
theorem card_shows {len n threshold : Nat} {positions : Finset (Fin n)} (hfew : positions.card < threshold)
    (values : Fin n → List UInt8) (secret secret' : Vector UInt8 len) :
    Fintype.card { draws : Draws len threshold // Shows secret threshold positions values draws } =
      Fintype.card { draws : Draws len threshold // Shows secret' threshold positions values draws } := by
  by_cases h255 : n ≤ 255
  · obtain ⟨redraw, hredraw⟩ := exists_redraw h255 hfew secret secret'
    refine Fintype.card_congr (Equiv.subtypeEquiv redraw ?_)
    intro draws
    rw [shows_iff, shows_iff]
    refine and_congr_right fun _ => forall₂_congr fun i hi => ?_
    rw [hredraw draws i hi]
  · have hnone : ∀ (s : Vector UInt8 len) draws, ¬ Shows s threshold positions values draws := by
      intro s draws h
      exact h255 (shows_iff.1 h).1.2.2.1
    simp [hnone]

/-- The first of three shares, at `[100]`: some draw shows it for `[7]`, and as many do for `[9]`. -/
theorem card_shows_sample :
    Shows (n := 3) ⟨#[7], rfl⟩ 2 {0} (fun _ => [100]) (fun _ _ => 99) ∧
      Fintype.card { draws : Draws 1 2 // Shows (n := 3) ⟨#[7], rfl⟩ 2 {0} (fun _ => [100]) draws } =
        Fintype.card { draws : Draws 1 2 // Shows (n := 3) ⟨#[9], rfl⟩ 2 {0} (fun _ => [100]) draws } :=
  ⟨by decide +kernel, card_shows (by decide) _ _ _⟩

end BrineVault
