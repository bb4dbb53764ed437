import Mathlib.Data.List.Forall2
import Flowline.Data.Record
import Flowline.Proofs.Data.Value

/-!
# Reading records back

A record with one name for each field and no field twice is taken apart into its fields, whatever
their order. The decoders undo what was written.
-/
namespace Flowline

/-- What stands beside a name in a list that pairs names with what belongs to them. -/
theorem lookup_paired {α : Type} (names : List String) (f : String → α) (key : String) :
    (names.map fun name => (name, f name)).lookup key =
      if key ∈ names then some (f key) else none := by
  induction names with
  | nil => rfl
  | cons name rest ih =>
    rw [List.map_cons, List.lookup_cons, ih]
    by_cases hkey : key = name
    · simp [hkey]
    · simp [hkey, beq_eq_false_iff_ne.mpr hkey]

@[simp] theorem field?_none (key : String) : field? key none = [] := rfl

@[simp] theorem field?_some (key : String) (v : Value) : field? key (some v) = [(key, v)] := rfl

namespace Fields

theorem get?_append (fs gs : Fields) (key : String) :
    get? (fs ++ gs) key = (get? fs key).or (get? gs key) := by
  induction fs with
  | nil => rfl
  | cons f fs ih =>
    obtain ⟨k, v⟩ := f
    by_cases hk : k = key
    · simp [get?, hk]
    · simp [get?, hk, ih]

theorem get?_eq_none {fs : Fields} {key : String} (h : key ∉ fs.keys) : get? fs key = none := by
  refine Option.eq_none_iff_forall_ne_some.mpr fun v hv => h ?_
  exact List.mem_map_of_mem (f := Prod.fst) (get?_mem hv)

theorem get?_of_mem {fs : Fields} (h : fs.keys.Nodup) {f : String × Value} (hf : f ∈ fs) :
    get? fs f.1 = some f.2 := by
  induction fs with
  | nil => cases hf
  | cons g fs ih =>
    obtain ⟨hg, hrest⟩ := List.nodup_cons.mp h
    unfold get?
    obtain rfl | hmem := List.mem_cons.mp hf
    · rw [if_pos rfl]
    · have hf' : f.1 ∈ fs.map Prod.fst := List.mem_map_of_mem hmem
      have hne : g.1 ≠ f.1 := (ne_of_mem_of_not_mem hf' hg).symm
      rw [if_neg hne, ih hrest hmem]

/-- Removing a field leaves the other fields, in some order. -/
theorem remove_perm (fs : Fields) (key : String) :
    (fs.remove key).Perm (fs.eraseP (·.1 == key)) := by
  unfold remove
  split
  · rename_i hnone
    rw [List.eraseP_of_forall_not (by simpa using hnone)]
  · rename_i i hi
    obtain ⟨hlt, hkey, _⟩ := List.findIdx?_eq_some_iff_getElem.mp hi
    obtain ⟨f, front, back, hfront, hf, hfs, herase⟩ :=
      List.exists_of_eraseP (p := (·.1 == key)) (List.getElem_mem hlt) hkey
    have hindex : i = front.length := by
      rw [hfs, List.findIdx?_append, List.findIdx?_eq_none_iff.mpr (by simpa using hfront)] at hi
      simpa [List.findIdx?_cons, hf] using hi.symm
    rw [herase, hfs, hindex]
    obtain rfl | ⟨middle, last, rfl⟩ := List.eq_nil_or_concat back
    · simp
    · -- the last field takes the place of the removed one
      have hmoved : (last :: (middle ++ [last])).dropLast = last :: middle := by
        rw [← List.cons_append, List.dropLast_concat]
      simpa [List.getLast?_cons, hmoved] using
        (List.perm_append_singleton last middle).symm.append_left front

theorem nodup_remove {fs : Fields} (h : fs.keys.Nodup) (key : String) :
    (fs.remove key).keys.Nodup :=
  ((remove_perm fs key).map _).nodup_iff.mpr ((List.eraseP_sublist.map _).nodup h)

theorem get?_eq_some_iff {fs : Fields} (h : fs.keys.Nodup) {key : String} {v : Value} :
    fs.get? key = some v ↔ (key, v) ∈ fs :=
  ⟨get?_mem, get?_of_mem h⟩

theorem get?_remove_of_ne {fs : Fields} (h : fs.keys.Nodup) {key k : String} (hne : key ≠ k) :
    (fs.remove k).get? key = fs.get? key := by
  refine Option.ext fun v => ?_
  rw [get?_eq_some_iff (nodup_remove h k), get?_eq_some_iff h, (remove_perm fs k).mem_iff]
  exact List.mem_eraseP_of_neg (by simpa using hne)

theorem get?_remove_self {fs : Fields} (h : fs.keys.Nodup) (key : String) :
    (fs.remove key).get? key = none := by
  refine get?_eq_none fun hmem => ?_
  obtain ⟨f, hf, rfl⟩ := List.mem_map.mp hmem
  -- A field that is left under the key would be a second one with it.
  have hleft := (remove_perm fs f.1).mem_iff.mp hf
  obtain ⟨g, front, back, hfront, hg, hfs, herase⟩ :=
    List.exists_of_eraseP (p := (·.1 == f.1)) (List.mem_of_mem_eraseP hleft) (by simp)
  rw [herase, List.mem_append] at hleft
  rw [hfs, keys_append, keys_cons, List.nodup_append, List.nodup_cons] at h
  rcases hleft with hleft | hleft
  · exact hfront f hleft (by simp)
  · rw [show g.1 = f.1 by simpa using hg] at h
    exact h.2.1.1 (List.mem_map_of_mem hleft)

theorem get?_remove {fs : Fields} (h : fs.keys.Nodup) (key k : String) :
    (fs.remove k).get? key = if key = k then none else fs.get? key := by
  by_cases heq : key = k
  · rw [if_pos heq, heq, get?_remove_self h]
  · rw [if_neg heq, get?_remove_of_ne h heq]

@[simp] theorem get?_field? (name : String) (v : Option Value) (key : String) :
    get? (field? name v) key = if name = key then v else none := by
  cases v with
  | none => simp [field?, get?]
  | some v => simp [field?, get?]

theorem keys_field? (name : String) (v : Option Value) :
    keys (field? name v) = if v.isSome then [name] else [] := by
  cases v <;> rfl

/-- What a record is searched for under one name. -/
theorem filter_eq {fs : Fields} (h : fs.keys.Nodup) (key : String) :
    (fs.filter fun f => [key].contains f.1) = field? key (get? fs key) := by
  induction fs with
  | nil => rfl
  | cons f fs ih =>
    obtain ⟨k, v⟩ := f
    obtain ⟨hk, hrest⟩ := List.nodup_cons.mp h
    by_cases hkey : k = key
    · subst hkey
      rw [List.filter_cons, ih hrest, get?_eq_none hk]
      simp [get?, field?]
    · rw [List.filter_cons, ih hrest]
      simp [get?, hkey]

theorem has_eq_isSome (fs : Fields) (key : String) : fs.has key = (fs.get? key).isSome := by
  induction fs with
  | nil => rfl
  | cons f fs ih =>
    obtain ⟨k, v⟩ := f
    by_cases hk : k = key
    · simp [has, get?, hk]
    · have hne : (k == key) = false := beq_false_of_ne hk
      rw [has, List.any_cons, hne, Bool.false_or, get?, if_neg hk]
      exact ih

/-- One field at most has a name. -/
theorem countP_eq {fs : Fields} (h : fs.keys.Nodup) (key : String) (q : Value → Bool) :
    fs.countP (fun f => f.1 == key && q f.2) = ((get? fs key).any q).toNat := by
  have hfilter : fs.countP (fun f => f.1 == key && q f.2) =
      (fs.filter fun f => [key].contains f.1).countP fun f => q f.2 := by
    rw [List.countP_filter]
    exact List.countP_congr fun f _ => by simp [and_comm]
  rw [hfilter, filter_eq h]
  cases get? fs key with
  | none => rfl
  | some v => cases hv : q v <;> simp [hv]

/-- The fields that have a value. -/
def present (parts : List (String × Option Value)) : Fields :=
  parts.flatMap fun p => field? p.1 p.2

theorem present_cons (p : String × Option Value) (parts : List (String × Option Value)) :
    present (p :: parts) = field? p.1 p.2 ++ present parts := List.flatMap_cons

theorem mem_present {parts : List (String × Option Value)} {f : String × Value} :
    f ∈ present parts ↔ (f.1, some f.2) ∈ parts := by
  obtain ⟨key, v⟩ := f
  rw [present, List.mem_flatMap]
  constructor
  · rintro ⟨⟨name, w⟩, hp, hf⟩
    cases w with
    | none => cases hf
    | some w =>
      cases List.mem_singleton.mp hf
      exact hp
  · exact fun hp => ⟨(key, some v), hp, List.mem_singleton_self _⟩

theorem forall_mem_present {parts : List (String × Option Value)} {P : Value → Prop} :
    (∀ f ∈ present parts, P f.2) ↔ ∀ p ∈ parts, ∀ v ∈ p.2, P v := by
  constructor
  · rintro h ⟨key, _⟩ hp v rfl
    exact h (key, v) (mem_present.mpr hp)
  · exact fun h f hf => h _ (mem_present.mp hf) f.2 rfl

theorem depth_present_le_iff {parts : List (String × Option Value)} {n : Nat} :
    (Value.map (present parts)).depth ≤ n + 1 ↔ ∀ p ∈ parts, ∀ v ∈ p.2, v.depth ≤ n :=
  Value.depth_map_le_iff.trans (forall_mem_present (P := fun v => v.depth ≤ n))

/-- What holds of a value holds of the field that it may be left out of. -/
theorem forall_mem_unless {c : Prop} [Decidable c] {v : Value} {P : Value → Prop} (h : P v) :
    ∀ w ∈ (if c then none else some v), P w := by
  split
  · exact nofun
  · intro w hw
    exact Option.some.inj hw ▸ h

theorem keys_present_sublist (parts : List (String × Option Value)) :
    (present parts).keys.Sublist (parts.map (·.1)) := by
  induction parts with
  | nil => exact .slnil
  | cons p parts ih =>
    rw [present_cons, keys_append, keys_field?, List.map_cons]
    split
    · exact ih.cons_cons p.1
    · exact ih.cons p.1

theorem get?_present {parts : List (String × Option Value)} (h : (parts.map (·.1)).Nodup)
    {p : String × Option Value} (hp : p ∈ parts) : get? (present parts) p.1 = p.2 := by
  induction parts with
  | nil => cases hp
  | cons q parts ih =>
    rw [List.map_cons, List.nodup_cons] at h
    obtain ⟨hq, hparts⟩ := h
    rw [present_cons, get?_append, get?_field?]
    obtain rfl | hmem := List.mem_cons.mp hp
    · have hnone : get? (present parts) p.1 = none :=
        get?_eq_none fun hkey => hq ((keys_present_sublist parts).subset hkey)
      rw [if_pos rfl, hnone, Option.or_none]
    · have hne : q.1 ≠ p.1 := fun heq => hq (heq ▸ List.mem_map_of_mem hmem)
      rw [if_neg hne, Option.none_or, ih hparts hmem]

end Fields

theorem mapM_eq_pure {m : Type → Type} [Monad m] [LawfulMonad m] {l : List α} {f : α → m β}
    {g : α → β} (h : ∀ a ∈ l, f a = pure (g a)) : l.mapM f = pure (l.map g) := by
  induction l with
  | nil => exact List.mapM_nil
  | cons a l ih =>
    obtain ⟨ha, hl⟩ := List.forall_mem_cons.mp h
    rw [List.mapM_cons, ha, ih hl, pure_bind, pure_bind, List.map_cons]

/-- What is read from each written item is the item. -/
theorem mapM_map_eq_pure {m : Type → Type} [Monad m] [LawfulMonad m] {l : List α} {f : β → m α}
    {g : α → β} (h : ∀ a ∈ l, f (g a) = pure a) : (l.map g).mapM f = pure l := by
  rw [List.mapM_map]
  exact (mapM_eq_pure (g := id) h).trans (congrArg pure (List.map_id l))

theorem filterAuxM_map_eq_pure {m : Type → Type} [Monad m] [LawfulMonad m] {α β : Type}
    {p : β → m Bool} {g : α → β} {q : α → Bool} {l : List α} (h : ∀ a ∈ l, p (g a) = pure (q a))
    (acc : List β) :
    List.filterAuxM p (l.map g) acc = pure (((l.filter q).map g).reverse ++ acc) := by
  induction l generalizing acc with
  | nil => rfl
  | cons a l ih =>
    obtain ⟨ha, hl⟩ := List.forall_mem_cons.mp h
    rw [List.map_cons, List.filterAuxM, ha, pure_bind, ih hl, List.filter_cons]
    cases q a <;> simp

/-- The written items that pass a test are those whose items pass it. -/
theorem filterM_map_eq_pure {m : Type → Type} [Monad m] [LawfulMonad m] {α β : Type}
    {p : β → m Bool} {g : α → β} {q : α → Bool} {l : List α}
    (h : ∀ a ∈ l, p (g a) = pure (q a)) : (l.map g).filterM p = pure ((l.filter q).map g) := by
  rw [List.filterM, filterAuxM_map_eq_pure h, pure_bind, List.append_nil, List.reverse_reverse]

theorem ok_bind {ε α β : Type} (a : α) (f : α → Except ε β) : (Except.ok a >>= f) = f a := rfl

theorem exists_of_bind_eq_ok {ε α β : Type} {x : Except ε α} {f : α → Except ε β} {b : β}
    (h : x >>= f = .ok b) : ∃ a, x = .ok a ∧ f a = .ok b := by
  cases x with
  | error e => cases h
  | ok a => exact ⟨a, rfl, h⟩

theorem exists_of_map_eq_ok {ε α β : Type} {x : Except ε α} {f : α → β} {b : β}
    (h : x.map f = .ok b) : ∃ a, x = .ok a ∧ f a = b := by
  cases x with
  | error e => cases h
  | ok a => exact ⟨a, rfl, Except.ok.inj h⟩

theorem forall₂_of_mapM {ε α β : Type} {f : α → Except ε β} {l : List α} {bs : List β}
    (h : l.mapM f = .ok bs) : List.Forall₂ (fun a b => f a = .ok b) l bs := by
  induction l generalizing bs with
  | nil =>
    obtain rfl := Except.ok.inj h
    exact .nil
  | cons a l ih =>
    rw [List.mapM_cons] at h
    obtain ⟨b, hb, h⟩ := exists_of_bind_eq_ok h
    obtain ⟨rest, hrest, h⟩ := exists_of_bind_eq_ok h
    obtain rfl := Except.ok.inj h
    exact .cons hb (ih hrest)

theorem mapM_forall₂ {ε α β : Type} {f : α → Except ε β} {p : α → β → Prop} {l : List α}
    (h : ∀ a ∈ l, ∃ b, f a = .ok b ∧ p a b) : ∃ bs, l.mapM f = .ok bs ∧ List.Forall₂ p l bs := by
  induction l with
  | nil => exact ⟨[], rfl, .nil⟩
  | cons a l ih =>
    obtain ⟨b, hb, hpb⟩ := h a List.mem_cons_self
    obtain ⟨bs, hbs, hall⟩ := ih fun c hc => h c (List.mem_cons_of_mem _ hc)
    refine ⟨b :: bs, ?_, .cons hpb hall⟩
    rw [List.mapM_cons, hb, hbs]
    rfl

/-- The slots of a record are its fields by their names. -/
theorem slots_map {fs : Fields} (h : fs.keys.Nodup) (names : List String) :
    slots (names.map ([·])) (.map fs) = some (names.map fun name => ⟨fs.get? name, false⟩) := by
  rw [slots, List.mapM_map]
  refine mapM_eq_pure fun name _ => ?_
  simp only [Function.comp_apply, Fields.filter_eq h]
  cases fs.get? name <;> rfl

/-- The slots of a record with all its fields are the fields in turn. -/
theorem slots_record (names : List String) {fs : Fields} (hkeys : fs.keys = names)
    (h : names.Nodup) :
    slots (names.map ([·])) (.map fs) = some (fs.map fun f => ⟨some f.2, false⟩) := by
  subst hkeys
  rw [slots_map h, Fields.keys, List.map_map]
  refine congrArg some (List.map_congr_left fun f hf => ?_)
  rw [Function.comp_apply, Fields.get?_of_mem h hf]

/-- The slots of a record that leaves out the fields without a value. -/
theorem slots_present (names : List String) {parts : List (String × Option Value)}
    (hnames : parts.map (·.1) = names) (h : names.Nodup) :
    slots (names.map ([·])) (.map (Fields.present parts)) =
      some (parts.map fun p => ⟨p.2, false⟩) := by
  subst hnames
  rw [slots_map ((Fields.keys_present_sublist parts).nodup h), List.map_map]
  refine congrArg some (List.map_congr_left fun p hp => ?_)
  rw [Function.comp_apply, Fields.get?_present h hp]

/-! ### Decoders -/

namespace Decode

@[simp] theorem text_str (s : String) : text (.str s) = some s := rfl

@[simp] theorem bool_bool (b : Bool) : bool (.bool b) = some b := rfl

theorem word64_ofNat {n : Nat} (h : n ≤ 0xFFFFFFFFFFFFFFFF) : word64 (.ofNat n) = some n := by
  have hn : (0 : Int) ≤ n ∧ (n : Int) ≤ (0xFFFFFFFFFFFFFFFF : Nat) := ⟨by omega, by omega⟩
  simp only [word64, natUpTo, Value.ofNat, if_pos hn, Int.toNat_natCast]

theorem le_of_word64 {v : Value} {n : Nat} (h : word64 v = some n) :
    n ≤ 0xFFFFFFFFFFFFFFFF := by
  cases v with
  | int i =>
    rw [word64, natUpTo] at h
    split at h
    · rename_i hi
      obtain rfl := Option.some.inj h
      omega
    · cases h
  | _ => cases h

theorem list_map {d : Decoder α} {encode : α → Value} {as : List α}
    (h : ∀ a ∈ as, d (encode a) = some a) : list d (.list (as.map encode)) = some as :=
  mapM_map_eq_pure h

theorem list_strs (ss : List String) : list text (.strs ss) = some ss :=
  list_map fun _ _ => rfl

theorem mapOf_map {d : Decoder α} {encode : α → Value} {fs : List (String × α)}
    (h : ∀ f ∈ fs, d (encode f.2) = some f.2) :
    mapOf d (.map (fs.map fun (key, a) => (key, encode a))) = some fs :=
  mapM_map_eq_pure fun f hf => congrArg (Option.map (f.1, ·)) (h f hf)

/-- A sound mapping is taken as it is. -/
theorem fields_map {fs : Fields} (h : Value.Sound (.map fs)) : fields (.map fs) = some fs := by
  rw [fields, h.settle_eq]
  rfl

end Decode

namespace Slot

@[simp] theorem required_some (d : Decoder α) (v : Value) (p : Bool) :
    required d ⟨some v, p⟩ = d v := rfl

@[simp] theorem withDefault_some (a : α) (d : Decoder α) (v : Value) (p : Bool) :
    withDefault a d ⟨some v, p⟩ = d v := rfl

@[simp] theorem nullable_null (d : Decoder α) : nullable d .null = some none := rfl

@[simp] theorem nullable_ofNat (d : Decoder α) (n : Nat) :
    nullable d (.ofNat n) = (d (.ofNat n)).map some := rfl

@[simp] theorem nullable_str (d : Decoder α) (s : String) :
    nullable d (.str s) = (d (.str s)).map some := rfl

theorem nullable_of_ne {d : Decoder α} {v : Value} (h : v ≠ .null) :
    nullable d v = (d v).map some := by
  cases v with
  | null => exact absurd rfl h
  | _ => rfl

/-- A field that may be left out is read back if what is written for it is never null. -/
theorem optionalDefault_map {d : Decoder α} {encode : α → Value} {a? : Option α}
    (h : ∀ a ∈ a?, d (encode a) = some a) (hnull : ∀ a ∈ a?, encode a ≠ .null) (p : Bool) :
    optionalDefault d ⟨a?.map encode, p⟩ = some a? := by
  cases a? with
  | none => rfl
  | some a =>
    rw [optionalDefault, Option.map_some, withDefault_some, nullable_of_ne (hnull a rfl), h a rfl]
    rfl

theorem of_required {d : Decoder α} {P : α → Prop} (hd : ∀ v a, d v = some a → P a)
    {s : Slot} {a : α} (h : s.required d = some a) : P a := by
  obtain ⟨v, _, hv⟩ := Option.bind_eq_some_iff.mp h
  exact hd v a hv

theorem of_withDefault {d : Decoder α} {P : α → Prop} (hd : ∀ v a, d v = some a → P a)
    {b : α} (hb : P b) {s : Slot} {a : α} (h : s.withDefault b d = some a) : P a := by
  unfold withDefault at h
  split at h
  · exact Option.some.inj h ▸ hb
  · exact hd _ a h

end Slot
end Flowline
