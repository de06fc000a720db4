/-
Lower bounds of binary64 numbers: what the operations of `Float` keep of them.

A bound is a power of two, and is held by everything that is not below it, so by what is not a number as well. It is
read off the mantissa and the exponent; rounding keeps every power of two that is a number of the format.

- `round_spec`: rounding keeps the bound, and gives the exponent that the format asks for.
- `notBelow_add`, `notBelow_mul_self`, `notBelow_div`: the bounds of sum, square and quotient.
- `apart_sub`: two numbers that are not below a bound and differ, differ by so much.
-/
import Mathlib

namespace NdnDash.Binary64

open Float.Model (Format UnpackedFloat totalExponent)
open Float.Model.UnpackedFloat

instance natCastFloat : NatCast Float := ⟨Float.ofNat⟩

/-! ## Binary logarithms -/

theorem log2_div (m k : ℕ) : (m / 2 ^ k).log2 = m.log2 - k := by
  simp only [Nat.log2_eq_log_two, Nat.log_div_base_pow]

theorem log2_mul_pow {m : ℕ} (hm : m ≠ 0) (k : ℕ) : (m * 2 ^ k).log2 = m.log2 + k := by
  have hpos : m * 2 ^ k ≠ 0 := by positivity
  refine (Nat.log2_eq_iff hpos).2 ⟨?_, ?_⟩
  · rw [pow_add]
    exact Nat.mul_le_mul_right _ (Nat.log2_self_le hm)
  · rw [add_right_comm, pow_add]
    exact Nat.mul_lt_mul_of_pos_right Nat.lt_log2_self (by positivity)

theorem log2_mono {m n : ℕ} (h : m ≤ n) : m.log2 ≤ n.log2 := by
  simp only [Nat.log2_eq_log_two]
  exact Nat.log_mono_right h

/-- a quotient has at most one digit less than the difference -/
theorem log2_le_div {m n : ℕ} (hn : n ≠ 0) (h : n.log2 < m.log2) :
    m / n ≠ 0 ∧ m.log2 ≤ (m / n).log2 + n.log2 + 1 := by
  have hm : m ≠ 0 := by
    rintro rfl
    simp at h
  have hquotient : 2 ^ (m.log2 - n.log2 - 1) ≤ m / n := by
    rw [Nat.le_div_iff_mul_le (Nat.pos_of_ne_zero hn)]
    calc 2 ^ (m.log2 - n.log2 - 1) * n ≤ 2 ^ (m.log2 - n.log2 - 1) * 2 ^ (n.log2 + 1) :=
          Nat.mul_le_mul_left _ Nat.lt_log2_self.le
      _ = 2 ^ m.log2 := by rw [← pow_add]; congr 1; omega
      _ ≤ m := Nat.log2_self_le hm
  have hne : m / n ≠ 0 := (lt_of_lt_of_le (by positivity) hquotient).ne'
  have hlog := (Nat.le_log2 hne).2 hquotient
  exact ⟨hne, by omega⟩

/-! ## Rounding -/

/-- the exponent is the one that the format asks for -/
def Canonical (m : ℕ) (e : ℤ) : Prop := e = max (totalExponent m e - 53) (-1074)

theorem targetExponent_eq (t : ℤ) : Format.binary64.targetExponent t = max (t - 53) (-1074) := rfl

theorem mantissa_shift (em : ExtendedMantissa) (k : ℕ) : (em >>> k).mantissa = em.mantissa / 2 ^ k := by
  change (Nat.repeat ExtendedMantissa.shiftRightOne k em).mantissa = _
  induction k with
  | zero => simp [Nat.repeat]
  | succ k ih =>
    rw [Nat.repeat, ExtendedMantissa.shiftRightOne, ih, Nat.div_div_eq_div_mul, pow_succ]

theorem mantissa_le_rounded (em : ExtendedMantissa) : em.mantissa ≤ em.roundedMantissa := by
  obtain ⟨m, roundBit, stickyBit⟩ := em
  cases roundBit <;> cases stickyBit <;>
    simp only [ExtendedMantissa.roundedMantissa, ExtendedMantissa.accuracy, Accuracy.roundToNearestEven] <;> omega

theorem mantissa_of (m : ℕ) (accuracy : Accuracy) :
    (ExtendedMantissa.ofMantissaAndAccuracy m accuracy).mantissa = m := by
  cases accuracy with
  | exact => rfl
  | inexact o => cases o <;> rfl

/-- the shift to the exponent of the format drops digits only, and not the first one -/
theorem shift_spec {m : ℕ} {e : ℤ} (accuracy : Accuracy) (hm : m ≠ 0) (he : e ≤ max (totalExponent m e - 53) (-1074))
    (hsize : -1074 < totalExponent m e) :
    let shifted := shiftToTargetExponent Format.binary64 m e accuracy
    shifted.2 = max (totalExponent m e - 53) (-1074) ∧ shifted.1.mantissa ≠ 0 ∧
      totalExponent shifted.1.mantissa shifted.2 = totalExponent m e := by
  simp only [shiftToTargetExponent, shiftToExponent, targetExponent_eq, mantissa_shift, mantissa_of]
  generalize htarget : max (totalExponent m e - 53) (-1074) = target at he ⊢
  unfold totalExponent at *
  have hdigits : (target - e).toNat ≤ m.log2 := by omega
  have hne : m / 2 ^ (target - e).toNat ≠ 0 := by
    have hle := (Nat.pow_le_pow_right two_pos hdigits).trans (Nat.log2_self_le hm)
    exact (Nat.div_pos hle (by positivity)).ne'
  refine ⟨by omega, hne, ?_⟩
  rw [log2_div]
  omega

/-- **Rounding.** What is at least the least number of the format keeps its magnitude, and has the exponent that the
format asks for. -/
theorem round_spec {m : ℕ} {e : ℤ} (s : Sign) (accuracy : Accuracy) (hm : m ≠ 0)
    (he : e ≤ max (totalExponent m e - 53) (-1074)) (hsize : -1074 < totalExponent m e) :
    ∃ m' e' h, roundWithAccuracy Format.binary64 s m e accuracy = .finite s m' e' h ∧ Canonical m' e' ∧
      totalExponent m e ≤ totalExponent m' e' := by
  obtain ⟨hexponent, hne, htotal⟩ := shift_spec accuracy hm he hsize
  generalize hfirst : shiftToTargetExponent Format.binary64 m e accuracy = first at hexponent hne htotal
  have hle := mantissa_le_rounded first.1
  have hlog := log2_mono hle
  have hne' : first.1.roundedMantissa ≠ 0 := by omega
  have hgrows : totalExponent m e ≤ totalExponent first.1.roundedMantissa first.2 := by
    rw [← htotal]
    unfold totalExponent
    omega
  have he' : first.2 ≤ max (totalExponent first.1.roundedMantissa first.2 - 53) (-1074) := by omega
  -- the second shift takes back the digit that rounding may have added
  obtain ⟨hexponent', hne'', htotal'⟩ := shift_spec .exact hne' he' (by omega)
  simp only [roundWithAccuracy, hfirst]
  rw [dif_neg hne'']
  refine ⟨_, _, Nat.pos_of_ne_zero hne'', rfl, ?_, ?_⟩
  · rw [Canonical, htotal']
    exact hexponent'
  · rw [htotal']
    exact hgrows

/-! ## Packing -/

/-- packed and unpacked again -/
def repack (x : UnpackedFloat) : UnpackedFloat := unpack Format.binary64 (pack Format.binary64 x)

theorem sign_components (s : Sign) (e : BitVec 11) (m : BitVec 52) :
    Sign.ofBitVec (unpackSign (packComponents Format.binary64 s e m)) = s := by
  have hsign : unpackSign (packComponents Format.binary64 s e m) = s.toBitVec := by
    ext i hi
    obtain rfl : i = 0 := by omega
    simp only [unpackSign, packComponents, ← BitVec.getLsbD_eq_getElem, BitVec.getLsbD_cast,
      BitVec.getLsbD_extractLsb, BitVec.getLsbD_append]
    rfl
  rw [hsign]
  cases s <;> rfl

/-- the leading digit is not packed -/
theorem toNat_leading (m : BitVec 52) : (1#1 ++ m).toNat = 2 ^ 52 + m.toNat := by
  rw [BitVec.toNat_append, ← Nat.shiftLeft_add_eq_or_of_lt m.isLt]
  rfl

theorem unpack_components (s : Sign) (e : BitVec 11) (m : BitVec 52) (he : e ≠ -1#11) :
    unpack Format.binary64 (packComponents Format.binary64 s e m) =
      if e = 0#11 then
        if h : m = 0#52 then .zero s
        else .finite s m.toNat (-1074) (by simpa [BitVec.toNat_pos, BitVec.pos_iff_ne_zero])
      else .finite s (2 ^ 52 + m.toNat) (e.toNat - 1075) (by omega) := by
  simp only [unpack, unpackExponent_packComponents, unpackMantissa_packComponents, sign_components, if_neg he]
  split_ifs with h h'
  · rfl
  · subst h
    rfl
  · simp only [toNat_leading]
    rfl

@[simp] theorem repack_infinity (s : Sign) : repack (.infinity s) = .infinity s := by
  cases s <;> rfl

@[simp] theorem repack_zero (s : Sign) : repack (.zero s) = .zero s := by
  cases s <;> rfl

@[simp] theorem repack_nan : repack .notANumber = .notANumber := rfl

/-- what is packed is read back, or is infinite -/
theorem repack_finite {s : Sign} {m : ℕ} {e : ℤ} (h : 0 < m) (hcanonical : Canonical m e) :
    repack (.finite s m e h) = .finite s m e h ∨ repack (.finite s m e h) = .infinity s := by
  have hlow := Nat.log2_self_le h.ne'
  have hhigh := Nat.lt_log2_self (n := m)
  unfold Canonical totalExponent at hcanonical
  have hbias : e + ((Format.binary64.exponentBias : ℕ) : ℤ) + ((Format.binary64.mantissaBitsWithoutImplicit : ℕ) : ℤ) =
    e + 1075 := add_assoc ..
  have hbits : Format.binary64.mantissaBits = 53 := rfl
  simp only [repack, pack, hbias, hbits]
  split_ifs with hinfinite hnormal
  · right
    exact repack_infinity s
  · left
    have hlog : m.log2 = 52 := by omega
    rw [hlog] at hlow hhigh
    have he : (BitVec.ofNat 11 (e + 1075).toNat).toNat = (e + 1075).toNat := by
      rw [BitVec.toNat_ofNat, Nat.mod_eq_of_lt (by omega)]
    have hm : (BitVec.ofNat 52 m).toNat = m - 2 ^ 52 := by
      rw [BitVec.toNat_ofNat, Nat.mod_eq_sub_mod hlow, Nat.mod_eq_of_lt (by omega)]
    have hones : BitVec.ofNat 11 (e + 1075).toNat ≠ -1#11 := by
      intro heq
      rw [heq] at he
      have : (-1#11).toNat = 2047 := rfl
      omega
    have hzeros : BitVec.ofNat 11 (e + 1075).toNat ≠ 0#11 := by
      intro heq
      rw [heq] at he
      have : (0#11).toNat = 0 := rfl
      omega
    rw [unpack_components _ _ _ hones, if_neg hzeros]
    have hm' : 2 ^ 52 + (m - 2 ^ 52) = m := by omega
    have he' : (((e + 1075).toNat : ℕ) : ℤ) - 1075 = e := by omega
    simp only [he, hm, hm', he']
  · left
    have he : e = -1074 := by omega
    have hm : (BitVec.ofNat 52 m).toNat = m := by
      have hsmall : m < 2 ^ 52 := hhigh.trans_le (Nat.pow_le_pow_right two_pos (by omega))
      rw [BitVec.toNat_ofNat, Nat.mod_eq_of_lt hsmall]
    have hne : BitVec.ofNat 52 m ≠ 0#52 := by
      intro heq
      rw [heq] at hm
      exact h.ne hm
    rw [unpack_components _ _ _ (by decide), if_pos rfl, dif_neg hne]
    simp only [hm, he]

/-- what is unpacked has the exponent of the format -/
theorem canonical_unpack (x : BitVec 64) {s : Sign} {m : ℕ} {e : ℤ} {h : 0 < m}
    (hx : unpack Format.binary64 x = .finite s m e h) : Canonical m e := by
  have hbias : ((Format.binary64.exponentBias : ℕ) : ℤ) + ((Format.binary64.mantissaBitsWithoutImplicit : ℕ) : ℤ) =
    1075 := rfl
  simp only [unpack, hbias] at hx
  unfold Canonical totalExponent
  split_ifs at hx with hones hzero hexponent hmantissa
  · obtain ⟨-, rfl, rfl⟩ := UnpackedFloat.finite.inj hx
    have hlt : (@unpackMantissa Format.binary64 x).toNat.log2 < 52 :=
      (Nat.log2_lt h.ne').2 (BitVec.isLt _)
    have hzero' : (0#11).toNat = 0 := rfl
    rw [hexponent, hzero']
    omega
  · obtain ⟨-, rfl, rfl⟩ := UnpackedFloat.finite.inj hx
    have hlog : (1#1 ++ @unpackMantissa Format.binary64 x).toNat.log2 = 52 := by
      have hlt : (@unpackMantissa Format.binary64 x).toNat < 2 ^ 52 := BitVec.isLt _
      rw [toNat_leading]
      exact (Nat.log2_eq_iff (by omega)).2 ⟨by omega, by omega⟩
    have hpos : 0 < (@unpackExponent Format.binary64 x).toNat := by
      rw [BitVec.toNat_pos, BitVec.pos_iff_ne_zero]
      exact hexponent
    rw [hlog]
    omega

theorem components_unpack (x : BitVec 64) :
    packComponents Format.binary64 (Sign.ofBitVec (@unpackSign Format.binary64 x))
      (@unpackExponent Format.binary64 x) (@unpackMantissa Format.binary64 x) = x := by
  have hsign : ∀ b : BitVec 1, (Sign.ofBitVec b).toBitVec = b := by decide
  simp only [packComponents, hsign, unpackSign, unpackExponent, unpackMantissa]
  ext i hi
  simp only [← BitVec.getLsbD_eq_getElem, BitVec.getLsbD_append, BitVec.getLsbD_cast, BitVec.getLsbD_extractLsb]
  grind

theorem unpack_ones (s : Sign) (m : BitVec 52) :
    unpack Format.binary64 (packComponents Format.binary64 s (-1#11) m) =
      if m = 0#52 then .infinity s else .notANumber := by
  have hones : unpackExponent (packComponents Format.binary64 s (-1#11) m) = -1#11 := unpackExponent_packComponents
  have hmantissa : unpackMantissa (packComponents Format.binary64 s (-1#11) m) = m := unpackMantissa_packComponents
  simp only [unpack, hones, hmantissa, sign_components]
  rfl

/-- two numbers, neither infinite -/
theorem components_injective {s s' : Sign} {e e' : BitVec 11} {m m' : BitVec 52} (he : e ≠ -1#11) (he' : e' ≠ -1#11)
    (h : unpack Format.binary64 (packComponents Format.binary64 s e m) =
      unpack Format.binary64 (packComponents Format.binary64 s' e' m')) : s = s' ∧ e = e' ∧ m = m' := by
  have hm := m.isLt
  have hm' := m'.isLt
  rw [unpack_components _ _ _ he, unpack_components _ _ _ he'] at h
  split_ifs at h with hzero hmzero hzero' hmzero' hzero' hmzero' hzero' hmzero'
  · exact ⟨UnpackedFloat.zero.inj h, hzero.trans hzero'.symm, hmzero.trans hmzero'.symm⟩
  · obtain ⟨hs, hmantissa, -⟩ := UnpackedFloat.finite.inj h
    exact ⟨hs, hzero.trans hzero'.symm, BitVec.eq_of_toNat_eq hmantissa⟩
  · obtain ⟨-, hmantissa, -⟩ := UnpackedFloat.finite.inj h
    omega
  · obtain ⟨-, hmantissa, -⟩ := UnpackedFloat.finite.inj h
    omega
  · obtain ⟨hs, hmantissa, hexponent⟩ := UnpackedFloat.finite.inj h
    exact ⟨hs, BitVec.eq_of_toNat_eq (by omega), BitVec.eq_of_toNat_eq (by omega)⟩

/-- all ones in the exponent: infinite, or the one bit pattern of what is not a number -/
theorem unpack_of_ones {x : BitVec 64} (hx : Format.binary64.Valid x)
    (hexponent : @unpackExponent Format.binary64 x = -1#11) :
    (∃ s, unpack Format.binary64 x = .infinity s ∧ x = packedInfinity Format.binary64 s) ∨
      unpack Format.binary64 x = .notANumber ∧ x = packedNaN Format.binary64 := by
  have hx' := components_unpack x
  rw [hexponent] at hx'
  have hview := unpack_ones (Sign.ofBitVec (@unpackSign Format.binary64 x))
    (@unpackMantissa Format.binary64 x)
  rw [hx'] at hview
  split_ifs at hview with hmantissa
  · left
    rw [hmantissa] at hx'
    exact ⟨_, hview, hx'.symm⟩
  · exact Or.inr ⟨hview, hx.eq_packedNaN hexponent hmantissa⟩

theorem isFinite_unpack {x : BitVec 64} (hexponent : @unpackExponent Format.binary64 x ≠ -1#11) :
    (unpack Format.binary64 x).isFinite = true := by
  rw [← components_unpack x, unpack_components _ _ _ hexponent]
  split_ifs <;> rfl

/-- what is valid is given by what is unpacked -/
theorem unpack_injective {x y : BitVec 64} (hx : Format.binary64.Valid x) (hy : Format.binary64.Valid y)
    (h : unpack Format.binary64 x = unpack Format.binary64 y) : x = y := by
  by_cases hones : @unpackExponent Format.binary64 x = -1#11
  · by_cases hones' : @unpackExponent Format.binary64 y = -1#11
    · rcases unpack_of_ones hx hones with ⟨s, hview, hx'⟩ | ⟨hview, hx'⟩ <;>
        rcases unpack_of_ones hy hones' with ⟨s', hview', hy'⟩ | ⟨hview', hy'⟩
      · rw [hview, hview'] at h
        rw [hx', hy', UnpackedFloat.infinity.inj h]
      · rw [hview, hview'] at h
        cases h
      · rw [hview, hview'] at h
        cases h
      · rw [hx', hy']
    · have hfinite := isFinite_unpack hones'
      rw [← h] at hfinite
      rcases unpack_of_ones hx hones with ⟨s, hview, -⟩ | ⟨hview, -⟩ <;>
        · rw [hview] at hfinite
          cases hfinite
  · have hones' : @unpackExponent Format.binary64 y ≠ -1#11 := by
      intro hones'
      have hfinite := isFinite_unpack hones
      rw [h] at hfinite
      rcases unpack_of_ones hy hones' with ⟨s, hview, -⟩ | ⟨hview, -⟩ <;>
        · rw [hview] at hfinite
          cases hfinite
    rw [← components_unpack x, ← components_unpack y] at h ⊢
    obtain ⟨hs, he, hm⟩ := components_injective hones hones' h
    rw [hs, he, hm]

/-! ## Bounds -/

/-- the sign, and a magnitude above a power of two -/
def Kept (s : Sign) (k : ℤ) : UnpackedFloat → Prop
  | .infinity s' => s' = s
  | .finite s' m e _ => s' = s ∧ k < totalExponent m e
  | _ => False

/-- it is not below a power of two -/
def NotBelow (k : ℤ) (x : UnpackedFloat) : Prop := x = .notANumber ∨ Kept .positive k x

instance (k : ℤ) (x : UnpackedFloat) : Decidable (NotBelow k x) :=
  match x with
  | .notANumber => isTrue (Or.inl rfl)
  | .zero _ => isFalse fun h => h.elim UnpackedFloat.noConfusion id
  | .infinity .positive => isTrue (Or.inr rfl)
  | .infinity .negative => isFalse fun h => h.elim UnpackedFloat.noConfusion Sign.noConfusion
  | .finite .positive m e _ =>
    decidable_of_iff (k < totalExponent m e) ⟨fun h => Or.inr ⟨rfl, h⟩, fun h => h.elim UnpackedFloat.noConfusion And.right⟩
  | .finite .negative _ _ _ => isFalse fun h => h.elim UnpackedFloat.noConfusion fun h => Sign.noConfusion h.1

/-- its magnitude is not below a power of two -/
def Apart (k : ℤ) (x : UnpackedFloat) : Prop := x = .notANumber ∨ ∃ s, Kept s k x

/-- it is not below zero -/
def NotNegative : UnpackedFloat → Prop
  | .notANumber | .zero _ => True
  | .infinity s | .finite s _ _ _ => s = .positive

/-- a finite number has the exponent of the format -/
def Proper : UnpackedFloat → Prop
  | .finite _ m e _ => Canonical m e
  | _ => True

variable {x y : UnpackedFloat} {k : ℤ}

theorem proper_unpack (x : BitVec 64) : Proper (unpack Format.binary64 x) := by
  generalize hx : unpack Format.binary64 x = u
  cases u with
  | finite s m e h => exact canonical_unpack x hx
  | _ => trivial

theorem repack_kept {s : Sign} (hx : Proper x) (h : Kept s k x) : Kept s k (repack x) := by
  cases x with
  | finite s' m e hm =>
    rcases repack_finite (s := s') hm hx with heq | heq
    · rw [heq]
      exact h
    · rw [heq]
      exact h.1
  | infinity s' => rwa [repack_infinity]
  | _ => exact h.elim

theorem kept_round {m : ℕ} {e : ℤ} (s : Sign) (accuracy : Accuracy) (hm : m ≠ 0)
    (he : e ≤ max (totalExponent m e - 53) (-1074)) (hk : k < totalExponent m e) (hmin : -1074 ≤ k) :
    Kept s k (repack (roundWithAccuracy Format.binary64 s m e accuracy)) := by
  obtain ⟨m', e', h, heq, hcanonical, htotal⟩ := round_spec s accuracy hm he (hmin.trans_lt hk)
  rw [heq]
  exact repack_kept (x := .finite s m' e' h) hcanonical ⟨rfl, hk.trans_le htotal⟩

/-- the number of digits does not change with the exponent -/
theorem kept_round' {m : ℕ} {e : ℤ} (s : Sign) (hm : m ≠ 0) (hk : k < totalExponent m e) (hmin : -1074 ≤ k) :
    Kept s k (repack (UnpackedFloat.round Format.binary64 s m e)) := by
  simp only [UnpackedFloat.round, decreaseExponent, targetExponent_eq, Nat.shiftLeft_eq]
  generalize htarget : max (totalExponent m e - 53) (-1074) = target
  have htotal : totalExponent (m * 2 ^ (e - target).toNat) (e - (e - target).toNat) = totalExponent m e := by
    unfold totalExponent
    rw [log2_mul_pow hm]
    push_cast
    ring
  refine kept_round s .exact (by positivity) ?_ ?_ hmin
  · rw [htotal, htarget]
    omega
  · rwa [htotal]

/-! ## Sums -/

theorem mantissa_decrease {m : ℕ} {e e' : ℤ} (he : e' ≤ e) (hm : m ≠ 0) :
    totalExponent (decreaseExponent m e e').1 e' = totalExponent m e ∧ (decreaseExponent m e e').1 ≠ 0 := by
  simp only [decreaseExponent, Nat.shiftLeft_eq, totalExponent]
  rw [log2_mul_pow hm]
  exact ⟨by omega, by positivity⟩

/-- two positive numbers -/
theorem kept_add {m₁ m₂ : ℕ} {e₁ e₂ : ℤ} {h₁ : 0 < m₁} {h₂ : 0 < m₂}
    (hk : k < totalExponent m₁ e₁ ∨ k < totalExponent m₂ e₂) (hmin : -1074 ≤ k) :
    Kept .positive k (repack (add Format.binary64 (.finite .positive m₁ e₁ h₁) (.finite .positive m₂ e₂ h₂))) := by
  obtain ⟨htotal₁, hne₁⟩ := mantissa_decrease (min_le_left e₁ e₂) h₁.ne'
  obtain ⟨htotal₂, hne₂⟩ := mantissa_decrease (min_le_right e₁ e₂) h₂.ne'
  simp only [add, Sign.apply]
  generalize (decreaseExponent m₁ e₁ (min e₁ e₂)).1 = n₁ at *
  generalize (decreaseExponent m₂ e₂ (min e₁ e₂)).1 = n₂ at *
  have hsum : compare ((n₁ : ℤ) + n₂) 0 = .gt := by
    rw [compare_gt_iff_gt]
    omega
  have hnat : ((n₁ : ℤ) + n₂).toNat = n₁ + n₂ := by omega
  simp only [UnpackedFloat.normalize, hsum, hnat]
  refine kept_round' .positive (by omega) ?_ hmin
  have hlog₁ := log2_mono (Nat.le_add_right n₁ n₂)
  have hlog₂ := log2_mono (Nat.le_add_left n₂ n₁)
  unfold totalExponent at *
  omega

theorem kept_infinity (s : Sign) (k : ℤ) : Kept s k (repack (.infinity s)) := by
  rw [repack_infinity]
  rfl

theorem add_nan (x : UnpackedFloat) : add Format.binary64 x .notANumber = .notANumber := by
  cases x <;> rfl

/-- the other summand may be smaller, but not negative -/
theorem notBelow_add (hx : Proper x) (hmin : -1074 ≤ k) (h : NotBelow k x) (hy : NotNegative y) :
    NotBelow k (repack (add Format.binary64 x y)) ∧ NotBelow k (repack (add Format.binary64 y x)) := by
  rcases h with rfl | h
  · rw [add_nan]
    exact ⟨Or.inl repack_nan, Or.inl repack_nan⟩
  cases y with
  | notANumber =>
    rw [add_nan]
    exact ⟨Or.inl repack_nan, Or.inl repack_nan⟩
  | zero s' =>
    cases x with
    | notANumber => exact h.elim
    | zero s => exact h.elim
    | _ => exact ⟨Or.inr (repack_kept hx h), Or.inr (repack_kept hx h)⟩
  | infinity s' =>
    obtain rfl : s' = .positive := hy
    cases x with
    | notANumber => exact h.elim
    | infinity s =>
      obtain rfl : s = .positive := h
      exact ⟨Or.inr (kept_infinity _ k), Or.inr (kept_infinity _ k)⟩
    | _ => exact ⟨Or.inr (kept_infinity _ k), Or.inr (kept_infinity _ k)⟩
  | finite s' m' e' hm' =>
    obtain rfl : s' = .positive := hy
    cases x with
    | notANumber => exact h.elim
    | zero s => exact h.elim
    | infinity s =>
      obtain rfl : s = .positive := h
      exact ⟨Or.inr (kept_infinity _ k), Or.inr (kept_infinity _ k)⟩
    | finite s m e hm =>
      obtain ⟨rfl, hk⟩ := h
      exact ⟨Or.inr (kept_add (Or.inl hk) hmin), Or.inr (kept_add (Or.inr hk) hmin)⟩

/-! ## Differences -/

theorem canonical_unique {m₁ m₂ : ℕ} {e₁ e₂ : ℤ} (h₁ : Canonical m₁ e₁) (h₂ : Canonical m₂ e₂)
    (htotal : totalExponent m₁ e₁ = totalExponent m₂ e₂) : e₁ = e₂ := by
  unfold Canonical at h₁ h₂
  omega

/-- two numbers that are not below a bound and differ -/
theorem apart_sub_finite {m₁ m₂ : ℕ} {e₁ e₂ : ℤ} (h₁ : 0 < m₁) (h₂ : 0 < m₂) (hcanonical₁ : Canonical m₁ e₁)
    (hcanonical₂ : Canonical m₂ e₂) (hmin : -1022 ≤ k) (hk₁ : k < totalExponent m₁ e₁) (hk₂ : k < totalExponent m₂ e₂) :
    m₁ = m₂ ∧ e₁ = e₂ ∨ ∃ s, Kept s (k - 52)
      (repack (sub Format.binary64 (.finite .positive m₁ e₁ h₁) (.finite .positive m₂ e₂ h₂))) := by
  obtain ⟨htotal₁, hne₁⟩ := mantissa_decrease (min_le_left e₁ e₂) h₁.ne'
  obtain ⟨htotal₂, hne₂⟩ := mantissa_decrease (min_le_right e₁ e₂) h₂.ne'
  -- the common exponent is not far below the bound
  have hexponent : k - 52 ≤ min e₁ e₂ := by
    unfold Canonical at hcanonical₁ hcanonical₂
    omega
  have hround : ∀ (s : Sign) {m : ℕ}, m ≠ 0 → Kept s (k - 52) (repack (UnpackedFloat.round Format.binary64 s m (min e₁ e₂))) := by
    intro s m hm
    refine kept_round' s hm ?_ (by omega)
    unfold totalExponent
    omega
  simp only [sub, Sign.apply, UnpackedFloat.normalize]
  rcases lt_trichotomy (((decreaseExponent m₁ e₁ (min e₁ e₂)).1 : ℤ) - (decreaseExponent m₂ e₂ (min e₁ e₂)).1) 0
    with hlt | heq | hgt
  · rw [compare_lt_iff_lt.2 hlt]
    exact Or.inr ⟨_, hround _ (by omega)⟩
  · left
    have hmantissa : (decreaseExponent m₁ e₁ (min e₁ e₂)).1 = (decreaseExponent m₂ e₂ (min e₁ e₂)).1 := by omega
    have he := canonical_unique hcanonical₁ hcanonical₂ (by rw [← htotal₁, ← htotal₂, hmantissa])
    subst he
    simp only [min_self, decreaseExponent, Int.sub_self, Int.toNat_zero, Nat.shiftLeft_zero] at hmantissa
    exact ⟨hmantissa, rfl⟩
  · rw [compare_gt_iff_gt.2 hgt]
    exact Or.inr ⟨_, hround _ (by omega)⟩

theorem sub_nan (x : UnpackedFloat) : sub Format.binary64 x .notANumber = .notANumber := by
  cases x <;> rfl

theorem apart_sub (hx : Proper x) (hy : Proper y) (hmin : -1022 ≤ k) (h : NotBelow k x) (h' : NotBelow k y) :
    x = y ∨ Apart (k - 52) (repack (sub Format.binary64 x y)) := by
  rcases h with rfl | h
  · exact Or.inr (Or.inl repack_nan)
  rcases h' with rfl | h'
  · rw [sub_nan]
    exact Or.inr (Or.inl repack_nan)
  cases x with
  | notANumber => exact h.elim
  | zero s => exact h.elim
  | infinity s =>
    cases y with
    | notANumber => exact h'.elim
    | zero s' => exact h'.elim
    | infinity s' =>
      obtain rfl : s = .positive := h
      obtain rfl : s' = .positive := h'
      exact Or.inl rfl
    | finite s' m' e' hm' => exact Or.inr (Or.inr ⟨s, kept_infinity s _⟩)
  | finite s m e hm =>
    cases y with
    | notANumber => exact h'.elim
    | zero s' => exact h'.elim
    | infinity s' => exact Or.inr (Or.inr ⟨-s', kept_infinity (-s') _⟩)
    | finite s' m' e' hm' =>
      obtain ⟨rfl, hk⟩ := h
      obtain ⟨rfl, hk'⟩ := h'
      rcases apart_sub_finite hm hm' hx hy hmin hk hk' with ⟨rfl, rfl⟩ | hkept
      · exact Or.inl rfl
      · exact Or.inr (Or.inr hkept)

/-! ## Squares and quotients -/

theorem sign_mul_self (s : Sign) : s * s = .positive := by
  cases s <;> rfl

/-- the square of a number whose magnitude is not below a bound -/
theorem notBelow_mul_self (hx : Proper x) (hmin : -537 ≤ k) (h : Apart k x) :
    NotBelow (2 * k) (repack (mul Format.binary64 x x)) := by
  rcases h with rfl | ⟨s, h⟩
  · exact Or.inl repack_nan
  cases x with
  | notANumber => exact h.elim
  | zero s' => exact h.elim
  | infinity s' =>
    right
    simp only [mul, sign_mul_self]
    exact kept_infinity _ _
  | finite s' m e hm =>
    right
    simp only [mul, sign_mul_self]
    have hk : k < totalExponent m e := h.2
    have hlog : 2 * m.log2 ≤ (m * m).log2 := by
      refine (Nat.le_log2 (by positivity)).2 ?_
      rw [two_mul, pow_add]
      exact Nat.mul_le_mul (Nat.log2_self_le hm.ne') (Nat.log2_self_le hm.ne')
    have hx : Canonical m e := hx
    unfold Canonical totalExponent at *
    refine kept_round .positive .exact (by positivity) ?_ ?_ (by omega)
    · unfold totalExponent
      omega
    · unfold totalExponent
      omega

/-- the quotient by a positive number below a bound -/
theorem notBelow_div {j : ℤ} {m' : ℕ} {e' : ℤ} {hm' : 0 < m'} (hj : totalExponent m' e' ≤ j) (hmin : -1074 ≤ k - j)
    (h : NotBelow k x) : NotBelow (k - j) (repack (div Format.binary64 x (.finite .positive m' e' hm'))) := by
  rcases h with rfl | h
  · exact Or.inl repack_nan
  cases x with
  | notANumber => exact h.elim
  | zero s => exact h.elim
  | infinity s =>
    obtain rfl : s = .positive := h
    exact Or.inr (kept_infinity _ _)
  | finite s m e hm =>
    obtain ⟨rfl, hk⟩ := h
    right
    simp only [div, divCore, targetExponent_eq, Nat.shiftLeft_eq]
    generalize htarget : min (e - e') (max (totalExponent m e - totalExponent m' e' - 53) (-1074)) = target
    have hlog := log2_mul_pow hm.ne' (e - e' - target).toNat
    unfold totalExponent at *
    have hdigits : m'.log2 < (m * 2 ^ (e - e' - target).toNat).log2 := by omega
    obtain ⟨hne, hquotient⟩ := log2_le_div hm'.ne' hdigits
    refine kept_round .positive _ hne ?_ ?_ hmin
    · unfold totalExponent
      omega
    · unfold totalExponent
      omega

/-! ## Roots -/

theorem log2_le_sqrt {m : ℕ} (hm : m ≠ 0) : m.sqrt ≠ 0 ∧ m.log2 ≤ 2 * m.sqrt.log2 + 1 := by
  have hroot : m.sqrt ≠ 0 := (Nat.sqrt_pos.2 (Nat.pos_of_ne_zero hm)).ne'
  refine ⟨hroot, Nat.lt_succ_iff.1 ((Nat.log2_lt hm).2 ?_)⟩
  calc m < (m.sqrt + 1) * (m.sqrt + 1) := Nat.lt_succ_sqrt m
    _ ≤ 2 ^ (m.sqrt.log2 + 1) * 2 ^ (m.sqrt.log2 + 1) := Nat.mul_le_mul Nat.lt_log2_self Nat.lt_log2_self
    _ = 2 ^ (2 * m.sqrt.log2 + 1 + 1) := by rw [← pow_add]; congr 1; omega

/-- the root of the least number is far from it -/
theorem kept_sqrt {m : ℕ} {e : ℤ} (hm : 0 < m) (hcanonical : Canonical m e) :
    Kept .positive (-1074) (repack (sqrt Format.binary64 (.finite .positive m e hm))) := by
  simp only [sqrt, sqrtCore, targetExponent_eq, Nat.shiftLeft_eq]
  generalize htarget : min (e.ediv 2) (max ((totalExponent m e + 1).ediv 2 - 53) (-1074)) = target
  have hlog := log2_mul_pow hm.ne' (e - 2 * target).toNat
  obtain ⟨hroot, hdigits⟩ := log2_le_sqrt (m := m * 2 ^ (e - 2 * target).toNat) (by positivity)
  have hhalf : e.ediv 2 * 2 ≤ e := Int.ediv_mul_le e two_ne_zero
  have hhalf' : (totalExponent m e + 1).ediv 2 * 2 ≤ totalExponent m e + 1 := Int.ediv_mul_le _ two_ne_zero
  unfold Canonical totalExponent at *
  refine kept_round .positive _ hroot ?_ ?_ le_rfl
  · unfold totalExponent
    omega
  · unfold totalExponent
    omega

/-! ## Signs -/

theorem notNegative_of_kept (h : Kept .positive k x) : NotNegative x := by
  cases x with
  | infinity s => exact h
  | finite s m e hm => exact h.1
  | _ => trivial

theorem notNegative_of_notBelow (h : NotBelow k x) : NotNegative x := by
  rcases h with rfl | h
  · trivial
  · exact notNegative_of_kept h

/-- a number of the format is zero or not below the least one -/
theorem notBelow_of_notNegative (hx : Proper x) (h : NotNegative x) : (∃ s, x = .zero s) ∨ NotBelow (-1074) x := by
  cases x with
  | notANumber => exact Or.inr (Or.inl rfl)
  | zero s => exact Or.inl ⟨s, rfl⟩
  | infinity s => exact Or.inr (Or.inr h)
  | finite s m e hm =>
    have hx : Canonical m e := hx
    refine Or.inr (Or.inr ⟨h, ?_⟩)
    unfold Canonical totalExponent at *
    omega

theorem notNegative_repack (h : NotNegative x) : NotNegative (repack x) := by
  cases x with
  | notANumber => trivial
  | zero s =>
    rw [repack_zero]
    trivial
  | infinity s => rwa [repack_infinity]
  | finite s m e hm =>
    obtain rfl : s = .positive := h
    have hones : ∀ n, ¬ 2 ^ 11 ≤ n + 1 → BitVec.ofNat 11 n ≠ -1#11 := by
      intro n hn heq
      have hn' := congrArg BitVec.toNat heq
      rw [BitVec.toNat_ofNat, Nat.mod_eq_of_lt (by omega)] at hn'
      have : (-1#11).toNat = 2047 := rfl
      omega
    simp only [repack, pack]
    split_ifs with hinfinite hnormal
    · exact notNegative_of_kept (kept_infinity .positive 0)
    · rw [unpack_components _ _ _ (hones _ hinfinite)]
      split_ifs <;> trivial
    · rw [unpack_components _ _ _ (by decide)]
      split_ifs <;> trivial

theorem notNegative_round (m : ℕ) (e : ℤ) (accuracy : Accuracy) :
    NotNegative (roundWithAccuracy Format.binary64 .positive m e accuracy) := by
  simp only [roundWithAccuracy]
  split_ifs <;> trivial

theorem notNegative_mul_self (x : UnpackedFloat) : NotNegative (repack (mul Format.binary64 x x)) := by
  apply notNegative_repack
  cases x with
  | notANumber => trivial
  | zero s => trivial
  | infinity s =>
    simp only [mul, sign_mul_self]
    trivial
  | finite s m e hm =>
    simp only [mul, sign_mul_self]
    exact notNegative_round _ _ _

theorem notNegative_add (hx : Proper x) (hy : Proper y) (h : NotNegative x) (h' : NotNegative y) :
    NotNegative (repack (add Format.binary64 x y)) := by
  rcases notBelow_of_notNegative hx h with ⟨s, rfl⟩ | hbound
  · rcases notBelow_of_notNegative hy h' with ⟨s', rfl⟩ | hbound'
    · apply notNegative_repack
      simp only [add]
      split_ifs <;> trivial
    · exact notNegative_of_notBelow (notBelow_add hy le_rfl hbound' h).2
  · exact notNegative_of_notBelow (notBelow_add hx le_rfl hbound h').1

/-! ## Numbers of type `Float` -/

section Numbers

/-- the number as sign, mantissa and exponent -/
def view (x : Float) : UnpackedFloat := x.toModel.unpack

/-- not below a power of two -/
def AtLeast (k : ℤ) (x : Float) : Prop := NotBelow k (view x)

instance (k : ℤ) (x : Float) : Decidable (AtLeast k x) := inferInstanceAs (Decidable (NotBelow k (view x)))

def Nonnegative (x : Float) : Prop := NotNegative (view x)

variable {x y c : Float}

theorem proper_view (x : Float) : Proper (view x) := proper_unpack _

theorem view_sub (x y : Float) : view (x - y) = repack (sub Format.binary64 (view x) (view y)) := rfl

theorem view_div (x y : Float) : view (x / y) = repack (div Format.binary64 (view x) (view y)) := rfl

theorem AtLeast.nonnegative (h : AtLeast k x) : Nonnegative x := notNegative_of_notBelow h

theorem AtLeast.mono {j : ℤ} (hj : j ≤ k) (h : AtLeast k x) : AtLeast j x := by
  unfold AtLeast at *
  generalize view x = u at *
  rcases h with rfl | h
  · exact Or.inl rfl
  right
  cases u with
  | finite s m e hm => exact ⟨h.1, hj.trans_lt h.2⟩
  | _ => exact h

theorem AtLeast.add_right (hmin : -1074 ≤ k) (h : AtLeast k x) (hy : Nonnegative y) : AtLeast k (x + y) :=
  (notBelow_add (proper_view x) hmin h hy).1

theorem AtLeast.add_left (hmin : -1074 ≤ k) (h : AtLeast k x) (hy : Nonnegative y) : AtLeast k (y + x) :=
  (notBelow_add (proper_view x) hmin h hy).2

theorem Nonnegative.add (h : Nonnegative x) (h' : Nonnegative y) : Nonnegative (x + y) :=
  notNegative_add (proper_view x) (proper_view y) h h'

theorem nonnegative_mul_self (x : Float) : Nonnegative (x * x) := notNegative_mul_self _

/-- a number is what it is unpacked to -/
theorem view_injective (h : view x = view y) : x = y := by
  have hbits : x.toModel.toBits.toBitVec = y.toModel.toBits.toBitVec :=
    unpack_injective x.toModel.valid y.toModel.valid h
  obtain ⟨⟨bits, hvalid⟩⟩ := x
  obtain ⟨⟨bits', hvalid'⟩⟩ := y
  obtain rfl : bits = bits' := UInt64.toBitVec_inj.1 hbits
  rfl

/-- **The square of a difference.** -/
theorem AtLeast.sq_sub (hmin : -485 ≤ k) (h : AtLeast k x) (h' : AtLeast k y) (hne : x ≠ y) :
    AtLeast (2 * (k - 52)) ((x - y) * (x - y)) := by
  rcases apart_sub (proper_view x) (proper_view y) (by omega) h h' with heq | hapart
  · exact absurd (view_injective heq) hne
  · exact notBelow_mul_self (proper_view (x - y)) (by omega) hapart

/-- a positive number below a power of two -/
def Below (j : ℤ) (x : Float) : Prop := ∃ m e h, view x = .finite .positive m e h ∧ totalExponent m e ≤ j

theorem AtLeast.div {j : ℤ} (hmin : -1074 ≤ k - j) (h : AtLeast k x) (hy : Below j y) : AtLeast (k - j) (x / y) := by
  obtain ⟨m, e, hm, hview, hj⟩ := hy
  rw [AtLeast, view_div, hview]
  exact notBelow_div hj hmin h

theorem beq_zero (x : Float) : (x == 0) = UnpackedFloat.beq (view x) (.zero .positive) := rfl

theorem AtLeast.ne_zero (h : AtLeast k x) : (x == 0) = false := by
  rw [beq_zero]
  unfold AtLeast at h
  generalize view x = u at h ⊢
  rcases h with rfl | h
  · rfl
  cases u with
  | notANumber => rfl
  | zero s => exact h.elim
  | infinity s => cases s <;> rfl
  | finite s m e hm => cases s <;> rfl

/-- **The root.** It is zero exactly at zero. -/
theorem sqrt_eq_zero_iff (x : Float) : x.sqrt == 0 ↔ x == 0 := by
  have hview : view x.sqrt = repack (sqrt Format.binary64 (view x)) := rfl
  have hproper := proper_view x
  rw [beq_zero, beq_zero, hview]
  generalize view x = u at *
  cases u with
  | notANumber => exact iff_of_false Bool.false_ne_true Bool.false_ne_true
  | zero s => cases s <;> exact iff_of_true rfl rfl
  | infinity s => cases s <;> exact iff_of_false Bool.false_ne_true Bool.false_ne_true
  | finite s m e hm =>
    cases s with
    | negative =>
      have hnan : repack (sqrt Format.binary64 (.finite .negative m e hm)) = .notANumber := repack_nan
      rw [hnan]
      exact iff_of_false Bool.false_ne_true Bool.false_ne_true
    | positive =>
      have hkept := kept_sqrt hm hproper
      refine iff_of_false ?_ Bool.false_ne_true
      generalize repack (sqrt Format.binary64 (.finite .positive m e hm)) = v at hkept
      cases v with
      | notANumber => exact hkept.elim
      | zero s => exact hkept.elim
      | infinity s => cases s <;> exact Bool.false_ne_true
      | finite s m' e' hm' => cases s <;> exact Bool.false_ne_true

/-- the magnitude grows with exponent and mantissa -/
theorem totalExponent_mono {m₁ m₂ : ℕ} {e₁ e₂ : ℤ} (h₁ : Canonical m₁ e₁) (h₂ : Canonical m₂ e₂)
    (h : e₁ < e₂ ∨ e₁ = e₂ ∧ m₁ ≤ m₂) : totalExponent m₁ e₁ ≤ totalExponent m₂ e₂ := by
  unfold Canonical at h₁ h₂
  rcases h with h | ⟨rfl, h⟩
  · omega
  · have hlog := log2_mono h
    unfold totalExponent
    omega

/-- what is not below another number has its bounds -/
theorem AtLeast.trans_le (hc : AtLeast k c) (hnumber : c == c) (h : c ≤ x) : AtLeast k x := by
  have hcanonical := proper_view c
  have hcanonical' := proper_view x
  change UnpackedFloat.beq (view c) (view c) = true at hnumber
  have h : UnpackedFloat.le (view c) (view x) = true := of_decide_eq_true h
  unfold AtLeast at *
  generalize view c = u at *
  generalize view x = v at *
  rcases hc with rfl | hc
  · cases hnumber
  right
  cases u with
  | notANumber => exact hc.elim
  | zero s => exact hc.elim
  | infinity s =>
    obtain rfl : s = .positive := hc
    cases v with
    | infinity s' =>
      cases s' with
      | negative => cases h
      | positive => rfl
    | _ => cases h
  | finite s m e hm =>
    obtain ⟨rfl, hk⟩ := hc
    cases v with
    | notANumber => cases h
    | zero s' => cases h
    | infinity s' =>
      cases s' with
      | negative => cases h
      | positive => rfl
    | finite s' m' e' hm' =>
      cases s' with
      | negative => cases h
      | positive =>
        have h : ((compare e e').then (compare m m')).isLE = true := h
        refine ⟨rfl, hk.trans_le (totalExponent_mono hcanonical hcanonical' ?_)⟩
        rcases lt_trichotomy e e' with hlt | heq | hgt
        · exact Or.inl hlt
        · rw [compare_eq_iff_eq.2 heq] at h
          exact Or.inr ⟨heq, compare_le_iff_le.1 (by simpa [Ordering.isLE_iff_ne_gt] using h)⟩
        · rw [compare_gt_iff_gt.2 hgt] at h
          cases h

theorem sub_self (h : x.isFinite = true) : x - x = 0 := by
  apply view_injective
  rw [view_sub]
  change (view x).isFinite = true at h
  generalize view x = v at *
  cases v with
  | notANumber => cases h
  | infinity s => cases h
  | zero s => cases s <;> rfl
  | finite s m e hm =>
    simp only [sub, Int.sub_self]
    rfl

end Numbers

end NdnDash.Binary64
