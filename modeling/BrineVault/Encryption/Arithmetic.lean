import BrineVault.Encryption.Recovery

/-!
# The bytes as a field

`gfMul` and `gfInv` on the numbers below 256 are the product and the inverse of GF(2^8): the residue of a number modulo `GF_POLY`
carries one over into the other.
-/

namespace BrineVault

/-- The polynomial is of degree 8. -/
theorem modulus_GF_POLY : Packed.Modulus 8 GF_POLY where
  top := by decide
  bound := by decide

/-- GF(2^8). -/
abbrev GF256 := AdjoinRoot (Packed.poly GF_POLY)

/-- The element of the field that a number stands for. -/
noncomputable abbrev gf (n : Nat) : GF256 := Packed.residue GF_POLY n

/-! ## The product -/

/-- One doubling of `gfMul`. -/
theorem gfMul.double_lt (a : Nat) (ha : a < 256) :
    (if a <<< 1 &&& 0x100 ≠ 0 then a <<< 1 ^^^ GF_POLY else a <<< 1) < 256 := by
  have hall : ∀ a : Fin 256, (if a.val <<< 1 &&& 0x100 ≠ 0 then a.val <<< 1 ^^^ GF_POLY else a.val <<< 1) < 256 := by decide +kernel
  exact hall ⟨a, ha⟩

/-- Doubling multiplies by the root. -/
theorem gfMul.gf_double (a : Nat) :
    gf (if a <<< 1 &&& 0x100 ≠ 0 then a <<< 1 ^^^ GF_POLY else a <<< 1) = AdjoinRoot.root (Packed.poly GF_POLY) * gf a := by
  split
  · rw [gf, Packed.residue_xor, Packed.residue_self, add_zero, Packed.residue_shiftLeft_one]
  · exact Packed.residue_shiftLeft_one a

/-- The loop stays below 256. -/
theorem gfMul.loop_lt {fuel result a b : Nat} (hresult : result < 256) (ha : a < 256) : gfMul.loop fuel result a b < 256 := by
  induction fuel generalizing result a b with
  | zero => exact hresult
  | succ fuel ih =>
    unfold gfMul.loop
    split
    · refine ih ?_ (gfMul.double_lt a ha)
      split
      · exact Nat.xor_lt_two_pow (n := 8) hresult ha
      · exact hresult
    · exact hresult

/-- What the loop has taken up and what is left of the product add up to the same at every turn. -/
theorem gfMul.gf_loop {fuel result a b : Nat} (hb : b ≤ fuel) : gf (gfMul.loop fuel result a b) = gf result + gf a * gf b := by
  induction fuel generalizing result a b with
  | zero =>
    have hzero : b = 0 := by omega
    simp [hzero, gfMul.loop]
  | succ fuel ih =>
    unfold gfMul.loop
    by_cases hpos : b > 0
    · have hhalf : b >>> 1 ≤ fuel := by
        rw [Nat.shiftRight_one]
        omega
      have hbit : gf (if b &&& 1 ≠ 0 then result ^^^ a else result) = gf result + gf a * gf (b &&& 1) := by
        rcases Nat.mod_two_eq_zero_or_one b with h | h
        · simp [Nat.and_one_is_mod, h]
        · simp [Nat.and_one_is_mod, h, Packed.residue_xor]
      have hrest : gf b = gf (b &&& 1) + AdjoinRoot.root (Packed.poly GF_POLY) * gf (b >>> 1) := Packed.residue_eq_lowest_add b
      rw [if_pos hpos]
      dsimp only
      rw [ih hhalf, gfMul.gf_double, hbit, hrest]
      ring
    · have hzero : b = 0 := by omega
      simp [hzero]

/-- A product stays below 256. -/
theorem gfMul_lt {a : Nat} (ha : a < 256) (b : Nat) : gfMul a b < 256 := gfMul.loop_lt (by decide) ha

/-- The product of the code is that of the field. -/
theorem gf_gfMul (a b : Nat) : gf (gfMul a b) = gf a * gf b := by
  rw [gfMul, gfMul.gf_loop le_rfl, gf, Packed.residue_zero, zero_add]

/-! ## The inverse -/

/-- The 254th power of every number below 256 but zero is below 256 and inverts it. -/
theorem gfInv.loop_inverts {a : Nat} (ha : a < 256) (hne : a ≠ 0) :
    gfInv.loop 254 1 a 254 < 256 ∧ gfMul a (gfInv.loop 254 1 a 254) = 1 := by
  have hall : ∀ a : Fin 256, a ≠ 0 → gfInv.loop 254 1 a 254 < 256 ∧ gfMul a (gfInv.loop 254 1 a 254) = 1 := by decide +kernel
  exact hall ⟨a, ha⟩ fun h => hne (congrArg Fin.val h)

instance : Fact (Irreducible (Packed.poly GF_POLY)) where
  out := Packed.irreducible_of_inverses modulus_GF_POLY (by decide) fun a ha hne =>
    ⟨gfInv.loop 254 1 a 254, by rw [← gf, ← gf, ← gf_gfMul, (gfInv.loop_inverts ha hne).2, gf, Packed.residue_one]⟩

noncomputable instance : DecidableEq GF256 := Classical.decEq _

/-- Only 0 stands for 0. -/
theorem gf_ne_zero {a : Nat} (ha : a < 256) (hne : a ≠ 0) : gf a ≠ 0 := by
  intro h
  exact hne (Packed.residue_injOn modulus_GF_POLY ha (by decide) (by rw [Packed.residue_zero]; exact h))

/-- The inverse of the code is that of the field. -/
theorem gfInv_eq {a : Nat} (ha : a < 256) (hne : gf a ≠ 0) : ∃ b < 256, gfInv a = .ok b ∧ gf b = (gf a)⁻¹ := by
  have hzero : a ≠ 0 := by
    rintro rfl
    exact hne Packed.residue_zero
  obtain ⟨hlt, hmul⟩ := gfInv.loop_inverts ha hzero
  refine ⟨_, hlt, by rw [gfInv, if_neg hzero]; rfl, ?_⟩
  apply eq_inv_of_mul_eq_one_right
  rw [← gf_gfMul, hmul, gf, Packed.residue_one]

/-! ## A byte -/

/-- The bytes are the elements of the field. -/
noncomputable def byteEquiv : UInt8 ≃ GF256 := by
  refine Equiv.ofBijective (fun b => gf b.toNat) ⟨?_, ?_⟩
  · intro b b' h
    exact UInt8.toNat_inj.1 (Packed.residue_injOn modulus_GF_POLY b.toNat_lt b'.toNat_lt h)
  · intro r
    obtain ⟨n, hn, rfl⟩ := Packed.residue_surjOn modulus_GF_POLY r
    exact ⟨UInt8.ofNat n, by dsimp only; rw [UInt8.toNat_ofNat_of_lt' hn]⟩

theorem byteEquiv_apply (b : UInt8) : byteEquiv b = gf b.toNat := rfl

/-- A number that is written to a byte keeps the element it stands for. -/
theorem byteEquiv_toUInt8 {n : Nat} (hn : n < 256) : byteEquiv n.toUInt8 = gf n := by
  rw [byteEquiv_apply, Nat.toUInt8, UInt8.toNat_ofNat_of_lt' hn]

end BrineVault
