import Mathlib

/-!
# Rounding of floats

What becomes of a positive mantissa when it is rounded, packed into the bits of a float and read
back: it keeps its sign and its first digit, and never becomes zero.
-/
namespace Flowline.Market

open Float.Model Float.Model.UnpackedFloat

/-! ### Rounding -/

/-- The exponent below which no float has digits. -/
abbrev leastExponent : Int := -1074

theorem leastExponent_eq : leastExponent = -1074 := rfl

theorem targetExponent_eq (t : Int) :
    Format.binary64.targetExponent t = max (t - 53) leastExponent := by
  simp only [Format.targetExponent]
  rfl

theorem mantissa_shiftRight (em : ExtendedMantissa) (k : Nat) :
    (em >>> k).mantissa = em.mantissa / 2 ^ k := by
  induction k with
  | zero => simp [HShiftRight.hShiftRight, Nat.repeat]
  | succ k ih =>
    change (ExtendedMantissa.shiftRightOne (em >>> k)).mantissa = _
    rw [ExtendedMantissa.shiftRightOne, ih, Nat.div_div_eq_div_mul, Nat.pow_succ]

theorem mantissa_ofMantissaAndAccuracy (m : Nat) (acc : Accuracy) :
    (ExtendedMantissa.ofMantissaAndAccuracy m acc).mantissa = m := by
  cases acc with
  | exact => rfl
  | inexact o => cases o <;> rfl

theorem roundToNearestEven_bounds (m : Nat) (acc : Accuracy) :
    m ≤ acc.roundToNearestEven m ∧ acc.roundToNearestEven m ≤ m + 1 := by
  cases acc with
  | exact => simp [Accuracy.roundToNearestEven]
  | inexact o =>
    cases o <;> simp only [Accuracy.roundToNearestEven]
    all_goals omega

/-- Dropping binary digits lowers the logarithm by their number. -/
theorem log2_div_pow {m k : Nat} (h : k ≤ m.log2) (hm : 0 < m) :
    0 < m / 2 ^ k ∧ (m / 2 ^ k).log2 = m.log2 - k := by
  have hlow : 2 ^ m.log2 ≤ m := Nat.log2_self_le hm.ne'
  have hhigh : m < 2 ^ (m.log2 + 1) := Nat.lt_log2_self
  have hlog : 2 ^ (m.log2 - k) ≤ m / 2 ^ k ∧ m / 2 ^ k < 2 ^ (m.log2 - k + 1) := by
    rw [Nat.le_div_iff_mul_le (Nat.two_pow_pos k), Nat.div_lt_iff_lt_mul (Nat.two_pow_pos k),
      ← Nat.pow_add, ← Nat.pow_add]
    have h₁ : m.log2 - k + k = m.log2 := by omega
    have h₂ : m.log2 - k + 1 + k = m.log2 + 1 := by omega
    rw [h₁, h₂]
    exact ⟨hlow, hhigh⟩
  have hpos : 0 < m / 2 ^ k := Nat.lt_of_lt_of_le (Nat.two_pow_pos _) hlog.1
  exact ⟨hpos, (Nat.log2_eq_iff hpos.ne').mpr hlog⟩

theorem lt_totalExponent {m : Nat} {e : Int} (he : leastExponent ≤ e) :
    leastExponent < totalExponent m e := by
  unfold totalExponent
  omega

/-- A shift to the exponent that a float would have leaves the first digit where it is, if that
is one that a float can have. -/
theorem shift_spec {m : Nat} (hm : 0 < m) {e : Int} (he : leastExponent < totalExponent m e)
    (acc : Accuracy) :
    ∃ em e', shiftToTargetExponent Format.binary64 m e acc = (em, e') ∧ 0 < em.mantissa ∧
      em.mantissa.log2 ≤ 52 ∧ totalExponent em.mantissa e' = totalExponent m e ∧ e ≤ e' ∧
      leastExponent ≤ e' ∧
      (max e leastExponent + 53 ≤ totalExponent m e → em.mantissa.log2 = 52) := by
  unfold shiftToTargetExponent shiftToExponent
  refine ⟨_, _, rfl, ?_⟩
  rw [mantissa_shiftRight, mantissa_ofMantissaAndAccuracy, targetExponent_eq]
  unfold totalExponent at he ⊢
  generalize hk : (max ((m.log2 : Int) + 1 + e - 53) leastExponent - e).toNat = k
  have hkm : k ≤ m.log2 := by omega
  obtain ⟨hpos, hlog⟩ := log2_div_pow hkm hm
  rw [hlog]
  refine ⟨hpos, ?_, ?_, ?_, ?_, ?_⟩
  all_goals omega

/-- A positive mantissa rounds to a float of its sign, no smaller and at most one digit longer. -/
theorem roundWithAccuracy_spec (s : Sign) {m : Nat} (hm : 0 < m) {e : Int}
    (he : leastExponent < totalExponent m e) (acc : Accuracy) :
    ∃ m' e' h, roundWithAccuracy Format.binary64 s m e acc = finite s m' e' h ∧
      m'.log2 ≤ 52 ∧ leastExponent ≤ e' ∧ totalExponent m e ≤ totalExponent m' e' ∧
      totalExponent m' e' ≤ totalExponent m e + 1 ∧
      (max e leastExponent + 53 ≤ totalExponent m e → m'.log2 = 52) := by
  obtain ⟨em, e₁, h₁, hpos₁, -, htotal₁, hle₁, hleast₁, hfull₁⟩ := shift_spec hm he acc
  obtain ⟨hlow, hhigh⟩ := roundToNearestEven_bounds em.mantissa em.accuracy
  have hpos : 0 < em.roundedMantissa := Nat.lt_of_lt_of_le hpos₁ hlow
  obtain ⟨fm, e₂, h₂, hpos₂, hlog₂, htotal₂, hle₂, hleast₂, hfull₂⟩ :=
    shift_spec hpos (lt_totalExponent hleast₁) Accuracy.exact
  have hlog : em.mantissa.log2 ≤ em.roundedMantissa.log2 :=
    (Nat.le_log2 hpos.ne').mpr (le_trans (Nat.log2_self_le hpos₁.ne') hlow)
  have hlog' : em.roundedMantissa.log2 ≤ em.mantissa.log2 + 1 := by
    have hlt : em.mantissa < 2 ^ (em.mantissa.log2 + 1) := Nat.lt_log2_self
    have hle : em.roundedMantissa < 2 ^ (em.mantissa.log2 + 1 + 1) := by
      have hp : 2 ^ (em.mantissa.log2 + 1 + 1) = 2 * 2 ^ (em.mantissa.log2 + 1) := Nat.pow_succ'
      have hr : em.roundedMantissa ≤ em.mantissa + 1 := hhigh
      omega
    have := (Nat.log2_lt hpos.ne').mpr hle
    omega
  refine ⟨fm.mantissa, e₂, hpos₂, ?_, hlog₂, hleast₂, ?_, ?_, ?_⟩
  · unfold roundWithAccuracy
    simp only [h₁, h₂]
    rw [dif_neg hpos₂.ne']
  all_goals simp only [totalExponent] at *
  · omega
  · omega
  · intro hwide
    have := hfull₁ hwide
    apply hfull₂
    omega

theorem totalExponent_zero (n : Nat) : totalExponent n 0 = n.log2 + 1 := by
  unfold totalExponent
  omega

theorem totalExponent_shiftLeft {m : Nat} (hm : 0 < m) (e : Int) (k : Nat) :
    totalExponent (m <<< k) (e - k) = totalExponent m e := by
  have hlog : (m <<< k).log2 = m.log2 + k := by
    have hpos : 0 < m * 2 ^ k := Nat.mul_pos hm (Nat.two_pow_pos k)
    have hlow : 2 ^ m.log2 ≤ m := Nat.log2_self_le hm.ne'
    have hhigh : m < 2 ^ (m.log2 + 1) := Nat.lt_log2_self
    rw [Nat.shiftLeft_eq, Nat.log2_eq_iff hpos.ne', Nat.add_right_comm, Nat.pow_add, Nat.pow_add]
    exact ⟨Nat.mul_le_mul_right _ hlow, Nat.mul_lt_mul_of_pos_right hhigh (Nat.two_pow_pos k)⟩
  unfold totalExponent
  omega

/-- A positive mantissa rounds to digits that a float holds. -/
theorem round_spec (s : Sign) {m : Nat} (hm : 0 < m) {e : Int} (he : leastExponent ≤ e) :
    ∃ m' e' h, UnpackedFloat.round Format.binary64 s m e = finite s m' e' h ∧ m'.log2 ≤ 52 ∧
      leastExponent ≤ e' ∧ totalExponent m e ≤ totalExponent m' e' ∧
      (leastExponent + 53 ≤ totalExponent m e → m'.log2 = 52) := by
  unfold UnpackedFloat.round decreaseExponent
  simp only [targetExponent_eq]
  generalize hk : (e - max (totalExponent m e - 53) leastExponent).toNat = k
  have hpos : 0 < m <<< k := Nat.shiftLeft_pos_iff.mpr hm
  have he' : leastExponent ≤ e - (k : Int) := by omega
  obtain ⟨m', e', h, hround, hlog, hleast, hlow, -, hfull⟩ :=
    roundWithAccuracy_spec s hpos (lt_totalExponent he') Accuracy.exact
  rw [totalExponent_shiftLeft hm] at hlow hfull
  exact ⟨m', e', h, hround, hlog, hleast, hlow, fun hwide => hfull (by omega)⟩

theorem normalize_apply (s : Sign) {n : Nat} (hn : 0 < n) (e : Int) (z : Sign) :
    UnpackedFloat.normalize Format.binary64 (s.apply n) e z =
      UnpackedFloat.round Format.binary64 s n e := by
  unfold UnpackedFloat.normalize
  cases s with
  | positive =>
    have h : compare (Sign.positive.apply (n : Int)) 0 = .gt := by
      rw [compare_gt_iff_gt]
      simpa [Sign.apply] using hn
    simp only [h]
    rfl
  | negative =>
    have h : compare (Sign.negative.apply (n : Int)) 0 = .lt := by
      rw [compare_lt_iff_lt]
      simpa [Sign.apply] using hn
    simp only [h]
    simp [Sign.apply]

/-! ### Packing -/

theorem binary64_exponentBias : Format.binary64.exponentBias = 1023 := rfl

theorem unpack_normal (s : Sign) {b m : Nat} (hb : 0 < b) (hb' : b < 2047) (hm : 2 ^ 52 ≤ m)
    (hm' : m < 2 ^ 53) (hpos : 0 < m) :
    UnpackedFloat.unpack Format.binary64
      (packComponents Format.binary64 s (BitVec.ofNat 11 b) (BitVec.ofNat 52 m)) =
      finite s m (b - 1075) hpos := by
  have hexp : (BitVec.ofNat 11 b).toNat = b := by
    rw [BitVec.toNat_ofNat]
    omega
  have hone : BitVec.ofNat 11 b ≠ -1#11 := by
    intro h
    have := congrArg BitVec.toNat h
    rw [hexp] at this
    simp at this
    omega
  have hzero : BitVec.ofNat 11 b ≠ 0#11 := by
    intro h
    have := congrArg BitVec.toNat h
    rw [hexp] at this
    simp at this
    omega
  have hman : (1#1 ++ BitVec.ofNat 52 m).toNat = m := by
    rw [BitVec.toNat_append, BitVec.toNat_ofNat, BitVec.toNat_ofNat,
      ← Nat.shiftLeft_add_eq_or_of_lt (Nat.mod_lt _ (by decide)), Nat.shiftLeft_eq]
    omega
  unfold UnpackedFloat.unpack
  simp only [unpackSign_packComponents, unpackExponent_packComponents,
    unpackMantissa_packComponents, Sign.ofBitVec_toBitVec]
  rw [if_neg hone, if_neg hzero]
  simp only [hman, hexp, binary64_exponentBias]
  rfl

theorem unpack_subnormal (s : Sign) {m : Nat} (hm : m < 2 ^ 52) (hpos : 0 < m) :
    UnpackedFloat.unpack Format.binary64
      (packComponents Format.binary64 s (0#11) (BitVec.ofNat 52 m)) =
      finite s m leastExponent hpos := by
  have hman : (BitVec.ofNat 52 m).toNat = m := by
    rw [BitVec.toNat_ofNat]
    omega
  have hzero : BitVec.ofNat 52 m ≠ 0#52 := by
    intro h
    have := congrArg BitVec.toNat h
    rw [hman] at this
    simp at this
    omega
  unfold UnpackedFloat.unpack
  simp only [unpackSign_packComponents, unpackExponent_packComponents,
    unpackMantissa_packComponents, Sign.ofBitVec_toBitVec]
  rw [if_neg (by decide), if_pos trivial, dif_neg hzero]
  simp only [hman, binary64_exponentBias]
  rfl

theorem pack_finite (s : Sign) {m : Nat} (hm : 0 < m) (e : Int) :
    UnpackedFloat.pack Format.binary64 (finite s m e hm) =
      if 2048 ≤ (e + 1023 + 52).toNat + 1 then packedInfinity Format.binary64 s
      else if m.log2 + 1 = 53 then
        packComponents Format.binary64 s (BitVec.ofNat 11 (e + 1023 + 52).toNat) (BitVec.ofNat 52 m)
      else packComponents Format.binary64 s (0#11) (BitVec.ofNat 52 m) := rfl

theorem unpack_pack (u : UnpackedFloat) : (Float.Model.pack u).unpack =
    UnpackedFloat.unpack Format.binary64 (UnpackedFloat.pack Format.binary64 u) := rfl

/-- Packing keeps digits that a float holds, unless there are too many before the point. -/
theorem unpack_pack_finite (s : Sign) {m : Nat} (hm : 0 < m) {e : Int} (hlog : m.log2 ≤ 52)
    (he : leastExponent ≤ e) :
    972 ≤ e ∧ (Float.Model.pack (finite s m e hm)).unpack = infinity s ∨
      ∃ e', (Float.Model.pack (finite s m e hm)).unpack = finite s m e' hm ∧
        e' ≤ e ∧ (m.log2 = 52 → e' = e) := by
  have hleast := leastExponent_eq
  rw [unpack_pack, pack_finite]
  by_cases hlarge : 2048 ≤ (e + 1023 + 52).toNat + 1
  · left
    rw [if_pos hlarge]
    refine ⟨by omega, ?_⟩
    cases s <;> rfl
  right
  rw [if_neg hlarge]
  by_cases hwide : m.log2 + 1 = 53
  · have hlow : 2 ^ 52 ≤ m := by
      have := Nat.log2_self_le hm.ne'
      rwa [show m.log2 = 52 by omega] at this
    have hhigh : m < 2 ^ 53 := (Nat.log2_lt hm.ne').mp (by omega)
    rw [if_pos hwide]
    exact ⟨_, unpack_normal s (by omega) (by omega) hlow hhigh hm, by omega, by omega⟩
  · have hhigh : m < 2 ^ 52 := (Nat.log2_lt hm.ne').mp (by omega)
    rw [if_neg hwide]
    exact ⟨_, unpack_subnormal s hhigh hm, he, fun h => absurd h (by omega)⟩

/-- The digits that a float holds. -/
theorem unpack_finite {x : Float.Model} {s : Sign} {m : Nat} {e : Int} {h : 0 < m}
    (hx : x.unpack = finite s m e h) : m.log2 ≤ 52 ∧ leastExponent ≤ e ∧ e ≤ 971 := by
  have hman : (@unpackMantissa Format.binary64 x.toBits.toBitVec).toNat < 2 ^ 52 :=
    (@unpackMantissa Format.binary64 x.toBits.toBitVec).isLt
  have hexp : (@unpackExponent Format.binary64 x.toBits.toBitVec).toNat < 2 ^ 11 :=
    (@unpackExponent Format.binary64 x.toBits.toBitVec).isLt
  have hleast := leastExponent_eq
  unfold Float.Model.unpack UnpackedFloat.unpack at hx
  simp only [binary64_exponentBias] at hx
  split at hx
  · split at hx <;> cases hx
  next hlast =>
  have hlast' : (@unpackExponent Format.binary64 x.toBits.toBitVec).toNat ≠ 2047 := fun h =>
    hlast (BitVec.eq_of_toNat_eq h)
  split at hx
  · next hzero =>
    split at hx
    · cases hx
    · cases hx
      have := (Nat.log2_lt h.ne').mpr hman
      refine ⟨by omega, ?_, ?_⟩
      all_goals
        rw [hzero]
        decide
  · next hzero =>
    cases hx
    have hpos : 0 < (@unpackExponent Format.binary64 x.toBits.toBitVec).toNat :=
      Nat.pos_of_ne_zero fun h => hzero (BitVec.eq_of_toNat_eq h)
    have hwide : (1#1 ++ @unpackMantissa Format.binary64 x.toBits.toBitVec).toNat < 2 ^ 53 :=
      (1#1 ++ @unpackMantissa Format.binary64 x.toBits.toBitVec).isLt
    have := (Nat.log2_lt h.ne').mpr hwide
    refine ⟨by omega, ?_, ?_⟩
    all_goals
      push_cast
      omega

end Flowline.Market
