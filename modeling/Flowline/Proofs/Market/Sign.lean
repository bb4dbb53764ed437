import Flowline.Market.Arithmetic
import Flowline.Proofs.Market.Rounding

/-!
# Signs of numbers

A sum of two floats of one sign has that sign, and is zero only if both are. Products and quotients
have the sign that the rules of signs say, though they may be rounded to zero. What is not a number
counts for either sign: nothing is known of it but that it is not zero.
-/
namespace Flowline.Market

open Float.Model Float.Model.UnpackedFloat

/-! ### Signs of unpacked floats -/

/-- The sign of what is not zero. What is not a number has every sign. -/
def hasSign (s : Sign) : UnpackedFloat → Bool
  | .infinity t | .finite t .. => t == s
  | _ => true

def isNull : UnpackedFloat → Bool
  | .zero _ => true
  | _ => false

/-- Digits that a float holds, if there are any. -/
def Fits : UnpackedFloat → Prop
  | .finite _ m e _ => m.log2 ≤ 52 ∧ leastExponent ≤ e
  | _ => True

theorem fits_unpack (x : Float.Model) : Fits x.unpack := by
  cases hx : x.unpack with
  | finite s m e h => exact ⟨(unpack_finite hx).1, (unpack_finite hx).2.1⟩
  | _ => trivial

theorem hasSign_packComponents (s : Sign) (e : BitVec 11) (m : BitVec 52) :
    hasSign s (UnpackedFloat.unpack Format.binary64 (packComponents Format.binary64 s e m)) := by
  unfold UnpackedFloat.unpack
  simp only [unpackSign_packComponents, Sign.ofBitVec_toBitVec]
  split
  · split <;> simp [hasSign]
  · split
    · split <;> simp [hasSign]
    · simp [hasSign]

/-- Packing keeps the sign. -/
theorem hasSign_pack {s : Sign} {u : UnpackedFloat} (h : hasSign s u) :
    hasSign s (Float.Model.pack u).unpack := by
  rw [unpack_pack]
  cases u with
  | notANumber => cases s <;> rfl
  | zero t => cases s <;> cases t <;> rfl
  | infinity t =>
    obtain rfl : t = s := eq_of_beq h
    exact hasSign_packComponents t _ _
  | finite t m e hm =>
    obtain rfl : t = s := eq_of_beq h
    rw [pack_finite]
    split
    · exact hasSign_packComponents t _ _
    · split <;> exact hasSign_packComponents t _ _

/-- Packing makes no zero of digits that a float holds. -/
theorem isNull_pack {u : UnpackedFloat} (hfits : Fits u) (h : isNull u = false) :
    isNull (Float.Model.pack u).unpack = false := by
  cases u with
  | notANumber => rfl
  | zero t => cases h
  | infinity t => cases t <;> rfl
  | finite t m e hm =>
    obtain ⟨-, hinf⟩ | ⟨e', hfin, -⟩ := unpack_pack_finite t hm hfits.1 hfits.2
    · rw [hinf]
      rfl
    · rw [hfin]
      rfl

theorem hasSign_roundWithAccuracy (s : Sign) (m : Nat) (e : Int) (acc : Accuracy) :
    hasSign s (roundWithAccuracy Format.binary64 s m e acc) := by
  unfold roundWithAccuracy
  dsimp only
  split <;> simp [hasSign]

theorem hasSign_round (s : Sign) (m : Nat) (e : Int) :
    hasSign s (UnpackedFloat.round Format.binary64 s m e) := by
  unfold UnpackedFloat.round
  exact hasSign_roundWithAccuracy s _ _ _

variable {s t : Sign} {u v : UnpackedFloat}

theorem decreaseExponent_pos {m : Nat} (hm : 0 < m) (e e' : Int) :
    0 < (decreaseExponent m e e').1 := by
  unfold decreaseExponent
  exact Nat.shiftLeft_pos_iff.mpr hm

theorem totalExponent_mono {m n : Nat} (hm : 0 < m) (h : m ≤ n) (e : Int) :
    totalExponent m e ≤ totalExponent n e := by
  have hlog : m.log2 ≤ n.log2 :=
    (Nat.le_log2 (hm.trans_le h).ne').mpr ((Nat.log2_self_le hm.ne').trans h)
  unfold totalExponent
  omega

theorem totalExponent_decreaseExponent {m : Nat} (hm : 0 < m) {e e' : Int} (h : e' ≤ e) :
    totalExponent (decreaseExponent m e e').1 e' = totalExponent m e := by
  have hshift := totalExponent_shiftLeft hm e (e - e').toNat
  rwa [Int.toNat_of_nonneg (by omega), Int.sub_sub_self] at hshift

/-- Floats of one sign add up like their digits. -/
theorem add_finite (s : Sign) {m n : Nat} (hm : 0 < m) (hn : 0 < n) (e f : Int) :
    ∃ k, 0 < k ∧ totalExponent m e ≤ totalExponent k (min e f) ∧
      UnpackedFloat.add Format.binary64 (finite s m e hm) (finite s n f hn) =
        UnpackedFloat.round Format.binary64 s k (min e f) := by
  refine ⟨(decreaseExponent m e (min e f)).1 + (decreaseExponent n f (min e f)).1, ?_, ?_, ?_⟩
  · exact Nat.add_pos_left (decreaseExponent_pos hm _ _) _
  · rw [← totalExponent_decreaseExponent hm (min_le_left e f)]
    exact totalExponent_mono (decreaseExponent_pos hm _ _) (Nat.le_add_right _ _) _
  · have hpos := Nat.add_pos_left (decreaseExponent_pos hm e (min e f))
      (decreaseExponent n f (min e f)).1
    rw [← normalize_apply s hpos (min e f) .positive]
    unfold UnpackedFloat.add
    dsimp only
    congr 1
    cases s <;> simp only [Sign.apply] <;> omega

theorem hasSign_add (hu : hasSign s u) (hv : hasSign s v) :
    hasSign s (UnpackedFloat.add Format.binary64 u v) := by
  cases u with
  | notANumber => simp [UnpackedFloat.add, hasSign]
  | infinity s' =>
    obtain rfl : s' = s := eq_of_beq hu
    cases v with
    | infinity t' =>
      obtain rfl : t' = s' := eq_of_beq hv
      simp [UnpackedFloat.add, hasSign]
    | _ => simp [UnpackedFloat.add, hasSign]
  | zero s' =>
    cases v with
    | zero t' =>
      unfold UnpackedFloat.add
      dsimp only
      split <;> rfl
    | notANumber => rfl
    | infinity _ | finite _ _ _ _ => exact hv
  | finite s' m e hm =>
    cases v with
    | finite t' n f hn =>
      obtain rfl : s' = s := eq_of_beq hu
      obtain rfl : t' = s' := eq_of_beq hv
      obtain ⟨k, -, -, h⟩ := add_finite t' hm hn e f
      rw [h]
      exact hasSign_round _ _ _
    | notANumber => rfl
    | zero _ => exact hu
    | infinity _ => exact hv

theorem sub_eq_add_neg (u v : UnpackedFloat) :
    UnpackedFloat.sub Format.binary64 u v = UnpackedFloat.add Format.binary64 u v.neg := by
  cases u <;> cases v <;> try rfl
  case finite.finite s m e hm t n f hn =>
    unfold UnpackedFloat.sub UnpackedFloat.add UnpackedFloat.neg
    dsimp only
    congr 1
    cases t
    · simp [Sign.apply]
    · simp [Sign.apply]
      rfl

theorem hasSign_neg (h : hasSign s u) : hasSign (-s) u.neg := by
  cases u with
  | infinity t | finite t _ _ _ =>
    obtain rfl : t = s := eq_of_beq h
    simp [UnpackedFloat.neg, hasSign]
  | _ => rfl

theorem hasSign_mul (hu : hasSign s u) (hv : hasSign t v) :
    hasSign (s * t) (UnpackedFloat.mul Format.binary64 u v) := by
  cases u <;> cases v <;> try rfl
  case infinity.infinity | infinity.finite | finite.infinity =>
    obtain rfl := eq_of_beq hu
    obtain rfl := eq_of_beq hv
    simp [UnpackedFloat.mul, hasSign]
  case finite.finite =>
    obtain rfl := eq_of_beq hu
    obtain rfl := eq_of_beq hv
    exact hasSign_roundWithAccuracy _ _ _ _

theorem hasSign_div (hu : hasSign s u) (hv : hasSign t v) (h : isNull v = false) :
    hasSign (s / t) (UnpackedFloat.div Format.binary64 u v) := by
  cases u <;> cases v <;> try first | rfl | cases h
  case infinity.finite =>
    obtain rfl := eq_of_beq hu
    obtain rfl := eq_of_beq hv
    simp [UnpackedFloat.div, hasSign]
  case finite.finite =>
    obtain rfl := eq_of_beq hu
    obtain rfl := eq_of_beq hv
    exact hasSign_roundWithAccuracy _ _ _ _

/-! ### Signs of floats -/

open Arithmetic

/-- A number that is zero or of the given sign, or not a number. -/
def Signed (s : Sign) (x : Float) : Prop := hasSign s x.toModel.unpack = true

theorem isZero_eq (x : Float) : isZero x = isNull x.toModel.unpack := by
  have hzero : (zero : Float).toModel.unpack = .zero .positive := by rfl
  change (x.toModel.unpack.compare (zero : Float).toModel.unpack == some .eq) = _
  rw [hzero]
  generalize x.toModel.unpack = u
  cases u with
  | infinity t | finite t _ _ _ => cases t <;> rfl
  | _ => rfl

variable {x y : Float}

theorem Signed.add (hx : Signed s x) (hy : Signed s y) : Signed s (x + y) :=
  hasSign_pack (hasSign_add hx hy)

theorem Signed.neg (hx : Signed s x) : Signed (-s) (-x) :=
  hasSign_pack (hasSign_neg hx)

theorem Signed.sub (hx : Signed s x) (hy : Signed (-s) y) : Signed s (x - y) := by
  refine hasSign_pack ?_
  rw [sub_eq_add_neg]
  have hneg := hasSign_neg hy
  have hs : - -s = s := by cases s <;> rfl
  rw [hs] at hneg
  exact hasSign_add hx hneg

theorem Signed.mul (hx : Signed s x) (hy : Signed t y) : Signed (s * t) (x * y) :=
  hasSign_pack (hasSign_mul hx hy)

theorem Signed.div (hx : Signed s x) (hy : Signed t y) (h : isZero y = false) :
    Signed (s / t) (x / y) :=
  hasSign_pack (hasSign_div hx hy (isZero_eq y ▸ h))

theorem Signed.not_pos (h : Signed .negative x) : ¬ x > 0 := by
  have hzero : (0 : Float).toModel.unpack = .zero .positive := by rfl
  intro hpos
  have hlt : (0 : Float).toModel < x.toModel := of_decide_eq_true hpos
  have hless : (0 : Float).toModel.unpack.compare x.toModel.unpack = some .lt := eq_of_beq hlt
  rw [hzero] at hless
  unfold Signed at h
  generalize x.toModel.unpack = u at h hless
  cases u with
  | infinity t | finite t _ _ _ =>
    obtain rfl := eq_of_beq h
    cases hless
  | _ => cases hless

theorem isZero_neg (x : Float) : isZero (-x) = isZero x := by
  rw [isZero_eq, isZero_eq]
  change isNull (Float.Model.pack x.toModel.unpack.neg).unpack = _
  have hfits := fits_unpack x.toModel
  generalize x.toModel.unpack = u at hfits
  cases u with
  | zero t => cases t <;> rfl
  | _ => exact isNull_pack hfits rfl

end Flowline.Market
