import Mathlib
import Flowline.Proofs.Data.Record

/-!
# Equality of values

Values are the same if their parts are, whatever the order of a mapping's fields. Two floats are the
same if they are one number, so the two zeros are. On sound values this is an equivalence: a value is
the same as itself since it holds nothing that is not a number, and equality of mappings goes both
ways since no key repeats.
-/
namespace Flowline

/-! ### Floats -/

variable {x y z : Float}

theorem float_beq_self (h : x.isFinite = true) : (x == x) = true := by
  have hnan : Float.nan.isFinite = false := by decide +kernel
  refine Float.beq_self_iff.mpr fun hx => ?_
  rw [hx, hnan] at h
  cases h

theorem float_beq_symm (h : (x == y) = true) : (y == x) = true := by
  rw [Float.beq_iff_ne_nan_and_eq] at *
  obtain ⟨hx, hy, heq | hzeros | hzeros⟩ := h
  · exact ⟨hy, hx, .inl heq.symm⟩
  · exact ⟨hy, hx, .inr (.inr hzeros.symm)⟩
  · exact ⟨hy, hx, .inr (.inl hzeros.symm)⟩

theorem float_beq_trans (hxy : (x == y) = true) (hyz : (y == z) = true) : (x == z) = true := by
  rw [Float.beq_iff_ne_nan_and_eq] at *
  obtain ⟨hx, -, heq | ⟨rfl, rfl⟩ | ⟨rfl, rfl⟩⟩ := hxy
  · exact heq ▸ hyz
  · grind
  · grind

/-! ### What a value is the same as -/

namespace Value

attribute [local simp] same sameItems sameFields

variable {v w : Value} {items : List Value} {fields : Fields}

theorem same_null_iff : same null w = true ↔ w = null := by cases w <;> simp

theorem same_bool_iff {b : Bool} : same (bool b) w = true ↔ w = bool b := by
  cases w <;> simp
  exact eq_comm

theorem same_int_iff {n : Int} : same (int n) w = true ↔ w = int n := by
  cases w <;> simp
  exact eq_comm

theorem same_str_iff {s : String} : same (str s) w = true ↔ w = str s := by
  cases w <;> simp
  exact eq_comm

theorem same_float_iff : same (float x) w = true ↔ ∃ y, w = float y ∧ (x == y) = true := by
  cases w <;> simp

theorem sameItems_iff {others : List Value} :
    sameItems items others = true ↔ List.Forall₂ (fun v w => same v w = true) items others := by
  induction items generalizing others with
  | nil => cases others <;> simp
  | cons v items ih => cases others <;> simp [ih]

theorem same_list_iff : same (list items) w = true ↔
    ∃ others, w = list others ∧ List.Forall₂ (fun v w => same v w = true) items others := by
  cases w <;> simp [sameItems_iff]

/-- Every field of the first mapping is in the second one. -/
def Covers (fields others : Fields) : Prop :=
  ∀ f ∈ fields, ∃ w, others.get? f.1 = some w ∧ same f.2 w = true

theorem sameFields_iff {others : Fields} :
    sameFields fields others = true ↔ Covers fields others := by
  induction fields with
  | nil => simp [Covers]
  | cons f fields ih =>
    obtain ⟨k, v⟩ := f
    unfold Covers at ih ⊢
    cases hk : Fields.get? others k <;> simp [ih, hk]

theorem same_map_iff : same (map fields) w = true ↔
    ∃ others, w = map others ∧ fields.length = others.length ∧ Covers fields others := by
  cases w <;> simp [sameFields_iff]

/-- Two mappings with as many fields have the same keys if the second has those of the first. -/
theorem Covers.mem_keys {others : Fields} (h : Covers fields others) (hnodup : fields.keys.Nodup)
    (hlength : fields.length = others.length) {key : String} (hkey : key ∈ others.keys) :
    key ∈ fields.keys := by
  have hsub : fields.keys ⊆ others.keys := by
    intro k hk
    obtain ⟨f, hf, rfl⟩ := List.mem_map.mp hk
    obtain ⟨w, hw, _⟩ := h f hf
    exact List.mem_map.mpr ⟨_, Fields.get?_mem hw, rfl⟩
  have hle : others.keys.length ≤ fields.keys.length := by simp [Fields.keys, hlength]
  exact ((hnodup.subperm hsub).perm_of_length_le hle).mem_iff.mpr hkey

/-! ### An equivalence -/

theorem Sound.same_self (h : v.Sound) : same v v = true := by
  induction h with
  | null => exact same_null_iff.mpr rfl
  | bool => exact same_bool_iff.mpr rfl
  | int => exact same_int_iff.mpr rfl
  | str => exact same_str_iff.mpr rfl
  | float hx => exact same_float_iff.mpr ⟨_, rfl, float_beq_self hx⟩
  | list _ ih => exact same_list_iff.mpr ⟨_, rfl, List.forall₂_same.mpr ih⟩
  | map hnodup _ ih =>
    refine same_map_iff.mpr ⟨_, rfl, rfl, fun f hf => ⟨f.2, ?_, ih f hf⟩⟩
    exact (Fields.get?_eq_some_iff hnodup).mpr hf

theorem forall₂_symm {others : List Value}
    (h : List.Forall₂ (fun v w => same v w = true) items others)
    (hsymm : ∀ v ∈ items, ∀ w ∈ others, same v w = true → same w v = true) :
    List.Forall₂ (fun v w => same v w = true) others items := by
  induction h with
  | nil => exact .nil
  | cons hvw _ ih =>
    simp only [List.forall_mem_cons] at hsymm
    exact .cons (hsymm.1.1 hvw) (ih fun v hv => (hsymm.2 v hv).2)

theorem Sound.same_symm (hv : v.Sound) (hw : w.Sound) (h : same v w = true) : same w v = true := by
  induction hv generalizing w with
  | null => exact same_null_iff.mp h ▸ h
  | bool => exact same_bool_iff.mp h ▸ h
  | int => exact same_int_iff.mp h ▸ h
  | str => exact same_str_iff.mp h ▸ h
  | float =>
    obtain ⟨y, rfl, hxy⟩ := same_float_iff.mp h
    exact same_float_iff.mpr ⟨_, rfl, float_beq_symm hxy⟩
  | list _ ih =>
    obtain ⟨others, rfl, hitems⟩ := same_list_iff.mp h
    refine same_list_iff.mpr ⟨_, rfl, forall₂_symm hitems fun v hv w hw' => ?_⟩
    exact ih v hv (hw.items w hw')
  | map hnodup _ ih =>
    obtain ⟨others, rfl, hlength, hcovers⟩ := same_map_iff.mp h
    refine same_map_iff.mpr ⟨_, rfl, hlength.symm, fun g hg => ?_⟩
    have hkey := hcovers.mem_keys hnodup hlength (List.mem_map.mpr ⟨g, hg, rfl⟩)
    obtain ⟨f, hf, hfg⟩ := List.mem_map.mp hkey
    obtain ⟨w, hget, hsame⟩ := hcovers f hf
    obtain rfl : g.2 = w := by
      rw [hfg, (Fields.get?_eq_some_iff hw.nodup).mpr hg] at hget
      exact Option.some.inj hget
    refine ⟨f.2, ?_, ih f hf (hw.fields g hg) hsame⟩
    exact hfg ▸ (Fields.get?_eq_some_iff hnodup).mpr hf

theorem forall₂_trans {others more : List Value}
    (h : List.Forall₂ (fun v w => same v w = true) items others)
    (hmore : List.Forall₂ (fun v w => same v w = true) others more)
    (htrans : ∀ u ∈ items, ∀ v w, same u v = true → same v w = true → same u w = true) :
    List.Forall₂ (fun v w => same v w = true) items more := by
  induction h generalizing more with
  | nil => exact hmore
  | cons huv _ ih =>
    cases hmore with
    | cons hvw hmore =>
      rw [List.forall_mem_cons] at htrans
      exact .cons (htrans.1 _ _ huv hvw) (ih hmore htrans.2)

theorem same_trans {u : Value} (huv : same u v = true) (hvw : same v w = true) :
    same u w = true := by
  induction u using Value.induct generalizing v w with
  | null => exact same_null_iff.mp huv ▸ hvw
  | bool => exact same_bool_iff.mp huv ▸ hvw
  | int => exact same_int_iff.mp huv ▸ hvw
  | str => exact same_str_iff.mp huv ▸ hvw
  | float =>
    obtain ⟨y, rfl, hxy⟩ := same_float_iff.mp huv
    obtain ⟨z, rfl, hyz⟩ := same_float_iff.mp hvw
    exact same_float_iff.mpr ⟨z, rfl, float_beq_trans hxy hyz⟩
  | list items ih =>
    obtain ⟨others, rfl, hitems⟩ := same_list_iff.mp huv
    obtain ⟨more, rfl, hothers⟩ := same_list_iff.mp hvw
    exact same_list_iff.mpr ⟨more, rfl, forall₂_trans hitems hothers fun u hu _ _ => ih u hu⟩
  | map fields ih =>
    obtain ⟨others, rfl, hlength, hcovers⟩ := same_map_iff.mp huv
    obtain ⟨more, rfl, hlength', hcovers'⟩ := same_map_iff.mp hvw
    refine same_map_iff.mpr ⟨more, rfl, hlength.trans hlength', fun f hf => ?_⟩
    obtain ⟨v, hv, hfv⟩ := hcovers f hf
    obtain ⟨w, hw, hvw⟩ := hcovers' _ (Fields.get?_mem hv)
    exact ⟨w, hw, ih f hf hfv hvw⟩

end Value
end Flowline
