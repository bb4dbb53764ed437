import Flowline.Proofs.Market.Sign

/-!
# Sizes of numbers

A positive integer becomes a positive float of at least as many binary digits. So a fraction of it
has the size that it should have, and the weight that an exponential mean keeps is not negative. A
positive float times one that is not below one is not rounded to zero, so a price with something
added for slippage can be divided by.
-/
namespace Flowline.Market

open Float.Model Float.Model.UnpackedFloat Arithmetic

variable {s t : Sign} {u v : UnpackedFloat}

/-- A float from `2 ^ (t - 1)` on. -/
def Reaches (t : Int) : UnpackedFloat → Prop
  | .infinity s => s = .positive
  | .finite s m e _ => s = .positive ∧ m.log2 = 52 ∧ t ≤ totalExponent m e
  | _ => False

theorem reaches_pack {m : Nat} (hm : 0 < m) {e k : Int} (hlog : m.log2 = 52)
    (he : leastExponent ≤ e) (hk : k ≤ totalExponent m e) :
    Reaches k (Float.Model.pack (finite .positive m e hm)).unpack := by
  obtain ⟨-, hinf⟩ | ⟨e', hfin, -, heq⟩ := unpack_pack_finite .positive hm hlog.le he
  · rw [hinf]
    rfl
  · rw [hfin, heq hlog]
    exact ⟨rfl, hlog, hk⟩

theorem Reaches.hasSign {k : Int} (h : Reaches k u) : hasSign .positive u := by
  cases u with
  | infinity t | finite t _ _ _ => simp_all [Reaches, Market.hasSign]
  | _ => rfl

theorem Reaches.isNull {k : Int} (h : Reaches k u) : isNull u = false := by
  cases u with
  | zero t => cases h
  | _ => rfl

/-- Rounding keeps the first digit of what is large enough. -/
theorem reaches_roundWithAccuracy {m : Nat} (hm : 0 < m) {e k : Int} (he : leastExponent ≤ e)
    (hwide : e + 53 ≤ totalExponent m e) (hk : k ≤ totalExponent m e) (acc : Accuracy) :
    Reaches k (Float.Model.pack (roundWithAccuracy Format.binary64 .positive m e acc)).unpack := by
  obtain ⟨m', e', hm', hround, -, hleast, hlow, -, hfull⟩ :=
    roundWithAccuracy_spec .positive hm (lt_totalExponent he) acc
  rw [hround]
  exact reaches_pack hm' (hfull (by rwa [max_eq_left he])) hleast (hk.trans hlow)

theorem Reaches.mono {k l : Int} (h : Reaches l u) (hk : k ≤ l) : Reaches k u := by
  cases u with
  | finite t m e hm => exact ⟨h.1, h.2.1, hk.trans h.2.2⟩
  | _ => exact h

theorem reaches_ofNat {n : Nat} (hn : 0 < n) :
    Reaches (n.log2 + 1) (Float.Model.ofNat n).unpack := by
  obtain ⟨m, e, hm, hround, -, hleast, hlow, hfull⟩ :=
    round_spec .positive hn (show leastExponent ≤ 0 by decide)
  have htotal := totalExponent_zero n
  have hwide : leastExponent + 53 ≤ totalExponent n 0 := by
    have := leastExponent_eq
    omega
  have hpack : Float.Model.ofNat n = Float.Model.pack (finite .positive m e hm) := by
    rw [← hround, ← normalize_apply .positive hn 0 .positive]
    rfl
  rw [hpack]
  exact reaches_pack hm (hfull hwide) hleast (htotal ▸ hlow)

/-- A product with one. -/
theorem reaches_mul_one {x : Float.Model} {k : Int} (h : Reaches k x.unpack)
    (hk : leastExponent + 105 ≤ k) :
    Reaches k (Float.Model.pack (UnpackedFloat.mul Format.binary64 x.unpack
      (finite .positive (2 ^ 52) (-52) (by decide)))).unpack := by
  cases hx : x.unpack with
  | infinity t =>
    rw [hx] at h
    obtain rfl : t = .positive := h
    rfl
  | finite t m e hm =>
    rw [hx] at h
    obtain ⟨rfl, hlog, hk⟩ := h
    have htotal : totalExponent (m * 2 ^ 52) (e + -52) = totalExponent m e := by
      rw [← Nat.shiftLeft_eq]
      exact totalExponent_shiftLeft hm e 52
    have hpos : 0 < m * 2 ^ 52 := Nat.mul_pos hm (by decide)
    have hleast : leastExponent ≤ e + -52 := by
      unfold totalExponent at hk
      omega
    refine reaches_roundWithAccuracy hpos hleast ?_ (htotal ▸ hk) .exact
    rw [htotal]
    unfold totalExponent
    omega
  | notANumber | zero _ => simp [hx, Reaches] at h

theorem toModel_toFloat {n : Nat} (h : n < 2 ^ 53) :
    n.toUInt64.toFloat.toModel = Float.Model.ofNat n := by
  have hmod : n.toUInt64.toNat = n := by
    rw [Nat.toUInt64_eq, UInt64.toNat_ofNat']
    exact Nat.mod_eq_of_lt (by omega)
  change Float.Model.ofNat n.toUInt64.toNat = _
  rw [hmod]

theorem reaches_modelOfScientific {n : Nat} (hn : 0 < n) :
    Reaches (n.log2 + 1) (Float.Model.ofScientific n 0).unpack := by
  have hleast := leastExponent_eq
  have hlarge : ¬ (0 : Int) < -(2 ^ Format.binary64.exponentBits + (n.log2 : Int)) := by
    have hbits : (0 : Int) ≤ 2 ^ Format.binary64.exponentBits := by decide
    omega
  have hpack : Float.Model.ofScientific n 0 = Float.Model.pack
      (roundWithAccuracy Format.binary64 .positive ((n <<< 53) * 1) (-53) .exact) := by
    unfold Float.Model.ofScientific UnpackedFloat.ofScientific
    rw [dif_neg hn.ne', if_neg (by decide), if_neg hlarge, if_pos le_rfl]
    rfl
  have htotal : totalExponent (n <<< 53) (-53) = n.log2 + 1 :=
    (totalExponent_shiftLeft hn 0 53).trans (totalExponent_zero n)
  rw [hpack, Nat.mul_one]
  exact reaches_roundWithAccuracy (Nat.shiftLeft_pos_iff.mpr hn) (by omega) (by omega) (by omega)
    .exact

/-- A small integer is converted and multiplied by one, a large one is rounded. -/
theorem reaches_ofScientific {n : Nat} (hn : 0 < n) :
    Reaches (n.log2 + 1) (Float.ofScientific n false 0).toModel.unpack := by
  unfold Float.ofScientific
  split
  · next h =>
    have hone : (Float.exactlyRepresentablePowersOfTen[0]).toModel.unpack =
        finite .positive (2 ^ 52) (-52) (by decide) := by rfl
    have hwide : leastExponent + 105 ≤ (n.log2 : Int) + 1 := by
      have := leastExponent_eq
      omega
    have hreach := reaches_mul_one (reaches_ofNat hn) hwide
    rw [← toModel_toFloat h.1, ← hone] at hreach
    exact hreach
  · exact reaches_modelOfScientific hn

/-- The float of a positive integer. -/
theorem reaches_ofInt {n : Int} (hn : 0 < n) :
    Reaches (n.natAbs.log2 + 1) (Arithmetic.ofInt n : Float).toModel.unpack := by
  change Reaches _ (Value.floatOfInt n).toModel.unpack
  unfold Value.floatOfInt
  rw [if_neg (by omega)]
  exact reaches_ofScientific (by omega)

theorem ofInt_neg {n : Int} (hn : n < 0) :
    (Arithmetic.ofInt n : Float) = -Arithmetic.ofInt (-n) := by
  change Value.floatOfInt n = -Value.floatOfInt (-n)
  unfold Value.floatOfInt
  rw [if_pos hn, if_neg (by omega), Int.natAbs_neg]

theorem signed_ofInt {n : Int} (hn : 0 < n) : Signed .positive (Arithmetic.ofInt n) :=
  (reaches_ofInt hn).hasSign

theorem signed_ofInt_nonpos {n : Int} (hn : n ≤ 0) : Signed .negative (Arithmetic.ofInt n) := by
  obtain hneg | rfl := lt_or_eq_of_le hn
  · rw [ofInt_neg hneg]
    exact (signed_ofInt (by omega)).neg
  · rfl

/-- Only the float of a positive integer is positive. -/
theorem pos_of_ofInt_pos {n : Int} (h : (Arithmetic.ofInt n : Float) > 0) : 0 < n := by
  by_contra hn
  exact (signed_ofInt_nonpos (by omega)).not_pos h

theorem isZero_ofInt {n : Int} (hn : n ≠ 0) : isZero (Arithmetic.ofInt n : Float) = false := by
  obtain hneg | hpos := lt_or_gt_of_ne hn
  · rw [ofInt_neg hneg, isZero_neg, isZero_eq]
    exact (reaches_ofInt (by omega)).isNull
  · rw [isZero_eq]
    exact (reaches_ofInt hpos).isNull

/-! ### The weight that an exponential mean keeps -/

variable {x y : Float}

/-- A positive float is infinite or has digits. -/
theorem unpack_of_pos (h : x > 0) : x.toModel.unpack = infinity .positive ∨
    ∃ m e hm, x.toModel.unpack = finite .positive m e hm := by
  have hzero : (0 : Float).toModel.unpack = .zero .positive := by rfl
  have hlt : (0 : Float).toModel < x.toModel := of_decide_eq_true h
  have hless : (0 : Float).toModel.unpack.compare x.toModel.unpack = some .lt := eq_of_beq hlt
  rw [hzero] at hless
  generalize x.toModel.unpack = u at hless ⊢
  cases u with
  | infinity t =>
    cases t
    · cases hless
    · exact .inl rfl
  | finite t m e hm =>
    cases t
    · cases hless
    · exact .inr ⟨m, e, hm, rfl⟩
  | notANumber | zero _ => cases hless

theorem isZero_of_pos (h : x > 0) : isZero x = false := by
  rw [isZero_eq]
  obtain hinf | ⟨m, e, hm, hfin⟩ := unpack_of_pos h
  · rw [hinf]
    rfl
  · rw [hfin]
    rfl

/-- What is not below zero and a number: zero, infinite, or with digits. -/
theorem unpack_of_nonneg (h : x ≥ 0) : (∃ t, x.toModel.unpack = zero t) ∨
    x.toModel.unpack = infinity .positive ∨
    ∃ m e hm, x.toModel.unpack = finite .positive m e hm := by
  have hzero : (0 : Float).toModel.unpack = .zero .positive := by rfl
  have hle : (0 : Float).toModel.unpack.le x.toModel.unpack = true := of_decide_eq_true h
  rw [hzero] at hle
  generalize x.toModel.unpack = u at hle ⊢
  cases u with
  | infinity t =>
    cases t
    · cases hle
    · exact .inr (.inl rfl)
  | finite t m e hm =>
    cases t
    · cases hle
    · exact .inr (.inr ⟨m, e, hm, rfl⟩)
  | zero t => exact .inl ⟨t, rfl⟩
  | notANumber => cases hle

/-- One and more. -/
theorem reaches_one_add (h : x ≥ 0) : Reaches 1 (one + x : Float).toModel.unpack := by
  have hone : (one : Float).toModel.unpack = finite .positive (2 ^ 52) (-52) (by decide) := by rfl
  have hreach : Reaches 1 (Float.Model.pack (finite .positive (2 ^ 52) (-52) (by decide))).unpack :=
    reaches_pack (by decide) (by decide) (by decide) (by decide)
  change Reaches 1 (Float.Model.pack (UnpackedFloat.add Format.binary64 (one : Float).toModel.unpack
    x.toModel.unpack)).unpack
  obtain ⟨t, hx⟩ | hx | ⟨m, e, hm, hx⟩ := unpack_of_nonneg h
  · rw [hone, hx]
    exact hreach
  · rw [hone, hx]
    rfl
  · rw [hone, hx]
    obtain ⟨k, hk, hwide, hsum⟩ := add_finite .positive (m := 2 ^ 52) (by decide) hm (-52) e
    have htotal : (1 : Int) ≤ totalExponent k (min (-52) e) := le_trans (by decide) hwide
    have hfits : leastExponent ≤ -52 := by decide
    obtain ⟨m', e', hm', hround, hlog, hleast, hlow, hfull⟩ :=
      round_spec .positive hk (le_min hfits (unpack_finite hx).2.1)
    rw [hsum, hround]
    exact reaches_pack hm' (hfull (le_trans (by decide) htotal)) hleast (htotal.trans hlow)

theorem log2_add_log2_le {m n : Nat} (hm : 0 < m) (hn : 0 < n) :
    m.log2 + n.log2 ≤ (m * n).log2 := by
  refine (Nat.le_log2 (Nat.mul_pos hm hn).ne').mpr ?_
  rw [Nat.pow_add]
  exact Nat.mul_le_mul (Nat.log2_self_le hm.ne') (Nat.log2_self_le hn.ne')

/-- A positive number times one or more is not zero. -/
theorem isZero_mul (hx : x > 0) (hy : Reaches 1 y.toModel.unpack) : isZero (x * y) = false := by
  rw [isZero_eq]
  change isNull (Float.Model.pack (UnpackedFloat.mul Format.binary64 x.toModel.unpack
    y.toModel.unpack)).unpack = false
  cases hv : y.toModel.unpack with
  | infinity t =>
    obtain hu | ⟨m, e, hm, hu⟩ := unpack_of_pos hx
    · simp only [hu, UnpackedFloat.mul]
      exact isNull_pack trivial rfl
    · simp only [hu, UnpackedFloat.mul]
      exact isNull_pack trivial rfl
  | finite t n f hn =>
    rw [hv] at hy
    obtain ⟨rfl, -, htotal⟩ := hy
    obtain hu | ⟨m, e, hm, hu⟩ := unpack_of_pos hx
    · simp only [hu, UnpackedFloat.mul]
      exact isNull_pack trivial rfl
    · have hleast : leastExponent < totalExponent (m * n) (e + f) := by
        have he := (unpack_finite hu).2.1
        have hlog := log2_add_log2_le hm hn
        unfold totalExponent at htotal ⊢
        omega
      obtain ⟨m', e', hm', hround, hlog, hfits, -⟩ := roundWithAccuracy_spec
        (Sign.positive * Sign.positive) (Nat.mul_pos hm hn) hleast .exact
      rw [hu, UnpackedFloat.mul, hround]
      exact isNull_pack ⟨hlog, hfits⟩ rfl
  | notANumber | zero _ => simp [hv, Reaches] at hy

/-- A price with slippage is no zero. -/
theorem isZero_fill {price slippage : Float} (hprice : price > 0) (hslippage : slippage ≥ 0) :
    isZero (price * (one + slippage)) = false :=
  isZero_mul hprice (reaches_one_add hslippage)

end Flowline.Market
