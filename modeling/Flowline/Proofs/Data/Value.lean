import Flowline.Data.Value

/-!
# Data values

Induction on values, how deep a value nests, the floats in it, and the values that readers make: their
integers fit a word, their floats are finite, and no mapping repeats a key.
-/
namespace Flowline

namespace Fields

@[simp] theorem keys_nil : keys [] = [] := rfl

@[simp] theorem keys_cons (f : String × Value) (fs : Fields) : keys (f :: fs) = f.1 :: fs.keys := rfl

@[simp] theorem keys_append (fs gs : Fields) : keys (fs ++ gs) = fs.keys ++ gs.keys :=
  List.map_append

theorem has_iff {fs : Fields} {key : String} : fs.has key = true ↔ key ∈ fs.keys := by
  simp [has, keys]

/-- A new key goes to the end. -/
theorem insert_of_not_mem {fs : Fields} {key : String} (h : key ∉ fs.keys) (v : Value) :
    fs.insert key v = fs ++ [(key, v)] := by
  induction fs with
  | nil => rfl
  | cons f fs ih =>
    obtain ⟨k, w⟩ := f
    rw [keys_cons, List.mem_cons, not_or] at h
    rw [insert, if_neg (Ne.symm h.1), ih h.2, List.cons_append]

/-- A known key keeps its place. -/
theorem keys_insert (fs : Fields) (key : String) (v : Value) :
    (fs.insert key v).keys = if key ∈ fs.keys then fs.keys else fs.keys ++ [key] := by
  induction fs with
  | nil => rfl
  | cons f fs ih =>
    obtain ⟨k, w⟩ := f
    by_cases hk : k = key
    · simp [insert, hk]
    · rw [insert, if_neg hk, keys_cons, ih]
      by_cases hmem : key ∈ keys fs
      · simp [hmem]
      · simp [hmem, Ne.symm hk]

@[simp] theorem has_insert {fs : Fields} {key k : String} {v : Value} :
    (fs.insert k v).has key = true ↔ key = k ∨ fs.has key = true := by
  rw [has_iff, has_iff, keys_insert]
  by_cases hk : k ∈ fs.keys
  · rw [if_pos hk]
    exact ⟨Or.inr, fun h => h.elim (fun heq => heq ▸ hk) id⟩
  · rw [if_neg hk, List.mem_append, List.mem_singleton, or_comm]

theorem nodup_insert {fs : Fields} (h : fs.keys.Nodup) (key : String) (v : Value) :
    (fs.insert key v).keys.Nodup := by
  rw [keys_insert]
  split
  · exact h
  · rename_i hkey
    exact List.nodup_append.mpr ⟨h, by simp, by simpa using fun k hk => (ne_of_mem_of_not_mem hk hkey)⟩

theorem mem_insert {fs : Fields} {key : String} {v : Value} {f : String × Value}
    (h : f ∈ fs.insert key v) : f = (key, v) ∨ f ∈ fs := by
  induction fs with
  | nil => simpa [insert] using h
  | cons g fs ih =>
    obtain ⟨k, w⟩ := g
    by_cases hk : k = key
    · rw [insert, if_pos hk, hk, List.mem_cons] at h
      exact h.imp_right (List.mem_cons_of_mem _)
    · rw [insert, if_neg hk, List.mem_cons] at h
      obtain rfl | hmem := h
      · exact Or.inr List.mem_cons_self
      · exact (ih hmem).imp_right (List.mem_cons_of_mem _)

theorem get?_mem {fs : Fields} {key : String} {v : Value} (h : fs.get? key = some v) :
    (key, v) ∈ fs := by
  induction fs with
  | nil => cases h
  | cons p fs ih =>
    obtain ⟨k, w⟩ := p
    unfold get? at h
    split at h
    · rename_i hk
      rw [← hk, ← Option.some.inj h]
      exact List.mem_cons_self
    · exact List.mem_cons_of_mem _ (ih h)

theorem exists_get?_of_has {fs : Fields} {key : String} (h : fs.has key = true) :
    ∃ v, fs.get? key = some v := by
  induction fs with
  | nil => simp [has] at h
  | cons p fs ih =>
    obtain ⟨k, w⟩ := p
    unfold get?
    by_cases hk : k = key
    · exact ⟨w, if_pos hk⟩
    · rw [if_neg hk]
      exact ih (by simpa [has, hk] using h)

theorem get?_insert_of_ne {fs : Fields} {key k : String} (h : key ≠ k) (v : Value) :
    (fs.insert k v).get? key = fs.get? key := by
  induction fs with
  | nil => simp [insert, get?, h.symm]
  | cons p fs ih =>
    obtain ⟨l, w⟩ := p
    by_cases hl : l = k
    · subst hl
      simp [insert, get?, h.symm]
    · simp only [insert, hl, if_false, get?, ih]

theorem get?_insert_self (fs : Fields) (key : String) (v : Value) :
    (fs.insert key v).get? key = some v := by
  induction fs with
  | nil => simp [insert, get?]
  | cons p fs ih =>
    obtain ⟨k, w⟩ := p
    by_cases hk : k = key
    · simp [insert, get?, hk]
    · simp only [insert, hk, if_false, get?, ih]

theorem get?_insert (fs : Fields) (key k : String) (v : Value) :
    (fs.insert k v).get? key = if key = k then some v else fs.get? key := by
  by_cases h : key = k
  · rw [if_pos h, h, get?_insert_self]
  · rw [if_neg h, get?_insert_of_ne h]

end Fields

namespace Value

/-! ### Kinds -/

theorem asStr?_eq_some {v : Value} {s : String} : v.asStr? = some s ↔ v = str s := by
  cases v <;> simp [asStr?]

theorem asList?_eq_some {v : Value} {items : List Value} :
    v.asList? = some items ↔ v = list items := by
  cases v <;> simp [asList?]

theorem asMap?_eq_some {v : Value} {fs : Fields} : v.asMap? = some fs ↔ v = map fs := by
  cases v <;> simp [asMap?]

theorem asInt?_eq_some {v : Value} {k : Int} :
    v.asInt? = some k ↔ v = int k ∧ k ≤ maxSigned := by
  cases v with
  | int n =>
    simp only [asInt?, Option.ite_none_right_eq_some, Option.some.injEq, int.injEq]
    exact ⟨fun h => ⟨h.2, h.2 ▸ h.1⟩, fun h => ⟨h.1 ▸ h.2, h.1⟩⟩
  | _ => simp [asInt?]

theorem isStr_iff {v : Value} : v.isStr = true ↔ ∃ s, str s = v := by cases v <;> simp [isStr]

theorem isMap_iff {v : Value} : v.isMap = true ↔ ∃ fs, map fs = v := by cases v <;> simp [isMap]

/-! ### Induction -/

/-- Induction on a value through the items of lists and the fields of mappings. -/
@[elab_as_elim] theorem induct {P : Value → Prop} (null : P null) (bool : ∀ b, P (bool b))
    (int : ∀ n, P (int n)) (float : ∀ x, P (float x)) (str : ∀ s, P (str s))
    (list : ∀ items, (∀ v ∈ items, P v) → P (list items))
    (map : ∀ fields, (∀ f ∈ fields, P f.2) → P (map fields)) (v : Value) : P v :=
  @Value.rec P (fun items => ∀ v ∈ items, P v) (fun fields => ∀ f ∈ fields, P f.2) (fun f => P f.2)
    null bool int float str list map (List.forall_mem_nil _)
    (fun _ _ hv hrest => List.forall_mem_cons.mpr ⟨hv, hrest⟩) (List.forall_mem_nil _)
    (fun _ _ hf hrest => List.forall_mem_cons.mpr ⟨hf, hrest⟩) (fun _ _ hv => hv) v

/-! ### Nesting -/

mutual

/-- How many containers stand within one another. -/
def depth : Value → Nat
  | list items => itemsDepth items + 1
  | map fields => fieldsDepth fields + 1
  | _ => 0

def itemsDepth : List Value → Nat
  | [] => 0
  | v :: rest => max v.depth (itemsDepth rest)

def fieldsDepth : List (String × Value) → Nat
  | [] => 0
  | (_, v) :: rest => max v.depth (fieldsDepth rest)

end

theorem itemsDepth_le_iff {items : List Value} {n : Nat} :
    itemsDepth items ≤ n ↔ ∀ v ∈ items, v.depth ≤ n := by
  induction items with
  | nil => simp [itemsDepth]
  | cons v items ih => simp [itemsDepth, Nat.max_le, ih]

theorem fieldsDepth_le_iff {fields : Fields} {n : Nat} :
    fieldsDepth fields ≤ n ↔ ∀ f ∈ fields, f.2.depth ≤ n := by
  induction fields with
  | nil => simp [fieldsDepth]
  | cons f fields ih => simp [fieldsDepth, Nat.max_le, ih]

theorem depth_list_le_iff {items : List Value} {n : Nat} :
    (list items).depth ≤ n + 1 ↔ ∀ v ∈ items, v.depth ≤ n := by
  rw [depth, Nat.add_le_add_iff_right, itemsDepth_le_iff]

theorem depth_map_le_iff {fields : Fields} {n : Nat} :
    (map fields).depth ≤ n + 1 ↔ ∀ f ∈ fields, f.2.depth ≤ n := by
  rw [depth, Nat.add_le_add_iff_right, fieldsDepth_le_iff]

theorem depth_strs_le {ss : List String} {n : Nat} : (strs ss).depth ≤ n + 1 := by
  rw [strs, depth_list_le_iff, List.forall_mem_map]
  exact fun _ _ => Nat.zero_le n

/-! ### Floats -/

mutual

/-- The floats in a value. -/
def floats : Value → List Float
  | float x => [x]
  | list items => itemsFloats items
  | map fields => fieldsFloats fields
  | _ => []

def itemsFloats : List Value → List Float
  | [] => []
  | v :: rest => v.floats ++ itemsFloats rest

def fieldsFloats : List (String × Value) → List Float
  | [] => []
  | (_, v) :: rest => v.floats ++ fieldsFloats rest

end

theorem mem_itemsFloats {items : List Value} {x : Float} :
    x ∈ itemsFloats items ↔ ∃ v ∈ items, x ∈ v.floats := by
  induction items with
  | nil => simp [itemsFloats]
  | cons v items ih => simp [itemsFloats, ih]

theorem mem_fieldsFloats {fields : Fields} {x : Float} :
    x ∈ fieldsFloats fields ↔ ∃ f ∈ fields, x ∈ f.2.floats := by
  induction fields with
  | nil => simp [fieldsFloats]
  | cons f fields ih => simp [fieldsFloats, ih]

/-! ### Sound values -/

/-- An integer that a value can hold. -/
def IsWord (n : Int) : Prop := minInt ≤ n ∧ n ≤ maxUnsigned

theorem isWord_natCast {n : Nat} (h : n ≤ 0xFFFFFFFFFFFFFFFF) : IsWord n := by
  unfold IsWord minInt maxUnsigned
  omega

/-- A value as readers make it. -/
inductive Sound : Value → Prop
  | null : Sound null
  | bool (b : Bool) : Sound (bool b)
  | int {n : Int} : IsWord n → Sound (int n)
  | float {x : Float} : x.isFinite = true → Sound (float x)
  | str (s : String) : Sound (str s)
  | list {items : List Value} : (∀ v ∈ items, Sound v) → Sound (list items)
  | map {fields : Fields} : fields.keys.Nodup → (∀ f ∈ fields, Sound f.2) → Sound (map fields)

namespace Sound

theorem empty : Sound (.map []) := .map List.nodup_nil (List.forall_mem_nil _)

theorem isWord {n : Int} : Sound (.int n) → IsWord n
  | .int h => h

theorem items {items : List Value} : Sound (.list items) → ∀ v ∈ items, Sound v
  | .list h => h

theorem nodup {fields : Fields} : Sound (.map fields) → fields.keys.Nodup
  | .map h _ => h

theorem fields {fields : Fields} : Sound (.map fields) → ∀ f ∈ fields, Sound f.2
  | .map _ h => h

theorem get? {fields : Fields} (h : Sound (.map fields)) {key : String} {v : Value}
    (hv : Fields.get? fields key = some v) : Sound v := h.fields _ (Fields.get?_mem hv)

theorem insert {fields : Fields} (h : Sound (.map fields)) (key : String) {v : Value}
    (hv : Sound v) : Sound (.map (Fields.insert fields key v)) :=
  .map (Fields.nodup_insert h.nodup key v) fun f hf => by
    obtain rfl | hmem := Fields.mem_insert hf
    · exact hv
    · exact h.fields f hmem

theorem finite {v : Value} (h : Sound v) : ∀ x ∈ v.floats, x.isFinite = true := by
  induction h with
  | null | bool | int | str => exact List.forall_mem_nil _
  | float hx => simpa [floats] using hx
  | list _ ih =>
    intro x hx
    obtain ⟨v, hv, hmem⟩ := mem_itemsFloats.mp hx
    exact ih v hv x hmem
  | map _ _ ih =>
    intro x hx
    obtain ⟨f, hf, hmem⟩ := mem_fieldsFloats.mp hx
    exact ih f hf x hmem

end Sound

@[simp] theorem sound_null : Sound null := .null

@[simp] theorem sound_str (s : String) : Sound (str s) := .str s

@[simp] theorem sound_int_iff {n : Int} : Sound (int n) ↔ IsWord n := ⟨Sound.isWord, .int⟩

@[simp] theorem sound_list_iff {items : List Value} : Sound (list items) ↔ ∀ v ∈ items, Sound v :=
  ⟨Sound.items, .list⟩

@[simp] theorem sound_map_iff {fields : Fields} :
    Sound (map fields) ↔ fields.keys.Nodup ∧ ∀ f ∈ fields, Sound f.2 :=
  ⟨fun h => ⟨h.nodup, h.fields⟩, fun h => .map h.1 h.2⟩

/-! ### Merging repeated keys -/

theorem settleItems_eq_map (items : List Value) : settleItems items = items.map settle := by
  induction items with
  | nil => rfl
  | cons v items ih => rw [settleItems, ih, List.map_cons]

theorem settleFields_append (acc fields : Fields) (key : String) (v : Value) :
    settleFields acc (fields ++ [(key, v)]) = (settleFields acc fields).insert key v.settle := by
  induction fields generalizing acc with
  | nil => rfl
  | cons f fields ih => exact ih _

theorem settleFields_eq {acc fields : Fields} (hnodup : (acc ++ fields).keys.Nodup)
    (h : ∀ f ∈ fields, f.2.settle = f.2) : settleFields acc fields = acc ++ fields := by
  induction fields generalizing acc with
  | nil => rw [settleFields, List.append_nil]
  | cons f fields ih =>
    obtain ⟨k, v⟩ := f
    obtain ⟨hv, hrest⟩ := List.forall_mem_cons.mp h
    have hk : k ∉ acc.keys := by
      rw [Fields.keys_append, Fields.keys_cons] at hnodup
      exact fun hmem => (List.nodup_append.mp hnodup).2.2 k hmem k List.mem_cons_self rfl
    have happend : acc ++ (k, v) :: fields = (acc ++ [(k, v)]) ++ fields := by simp
    rw [settleFields, show v.settle = v from hv, Fields.insert_of_not_mem hk, happend]
    exact ih (happend ▸ hnodup) hrest

/-- Where no key repeats there is nothing to merge. -/
theorem Sound.settle_eq {v : Value} (h : Sound v) : v.settle = v := by
  induction h with
  | null | bool | int | str | float => rfl
  | list _ ih => rw [settle, settleItems_eq_map, List.map_congr_left ih, List.map_id']
  | @map fields hnodup _ ih =>
    rw [settle, settleFields_eq (by simpa using hnodup) ih, List.nil_append]

end Value
end Flowline
