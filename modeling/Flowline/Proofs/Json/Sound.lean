import Flowline.Proofs.Json.Reading

/-!
# Values read from JSON

Whatever the text, a value that is read from it is sound. A record keeps the repeated keys that a
document merges; the two readers differ in nothing else, so that what is proved of records holds of
documents whose values are sound.
-/
namespace Flowline.Json

open Value (Sound)

theorem numeral?_sound {neg : Bool} {whole : List Char} {frac : Option (List Char)}
    {exp : Option Int} {v : Value} (h : numeral? neg whole frac exp = some v) : Sound v := by
  unfold numeral? at h
  dsimp only at h
  generalize (if neg = true then -(Decimal.natOfDigits whole : Int)
    else Decimal.natOfDigits whole) = signed at h
  split at h
  · rename_i hword
    cases h
    simp only [Bool.and_eq_true, decide_eq_true_eq] at hword
    exact .int ⟨hword.1.2, hword.2⟩
  · split at h
    · rename_i hfinite
      cases h
      exact .float hfinite
    · cases h

theorem number?_sound {s rest : List Char} {v : Value} (h : number? s = some (v, rest)) :
    Sound v := by
  simp only [number?, Option.bind_eq_bind, Option.pure_def, Option.bind_eq_some_iff] at h
  obtain ⟨_, _, _, _, _, _, w, hw, heq⟩ := h
  cases heq
  exact numeral?_sound hw

/-- Every value that a reader finds is sound. -/
def ReadsSound (one : Reader Value) : Prop := ∀ ⦃s v rest⦄, one s = some (v, rest) → Sound v

theorem items_sound {one : Reader Value} (hone : ReadsSound one) {fuel : Nat} {acc : List Value}
    (hacc : ∀ v ∈ acc, Sound v) {s rest : List Char} {vs : List Value}
    (h : items one fuel acc s = some (vs, rest)) : ∀ v ∈ vs, Sound v := by
  induction fuel generalizing acc s with
  | zero => cases h
  | succ fuel ih =>
    unfold items at h
    split at h
    · cases h
    · rename_i v _ hv
      have hmore : ∀ w ∈ v :: acc, Sound w := List.forall_mem_cons.mpr ⟨hone hv, hacc⟩
      split at h
      · exact ih hmore h
      · cases h
        exact fun w hw => hmore w (List.mem_reverse.mp hw)
      · cases h

theorem fields_sound {one : Reader Value} (hone : ReadsSound one) {fuel : Nat} {acc : Fields}
    (hacc : Sound (.map acc)) {s rest : List Char} {fs : Fields}
    (h : fields Fields.insert one fuel acc s = some (fs, rest)) : Sound (.map fs) := by
  induction fuel generalizing acc s with
  | zero => cases h
  | succ fuel ih =>
    unfold fields at h
    split at h
    · split at h
      · cases h
      rename_i key _ _
      split at h
      · split at h
        · cases h
        rename_i v _ hv
        have hmore := hacc.insert (String.ofList key) (hone hv)
        dsimp only at h
        split at h
        · exact ih hmore h
        · cases h
          exact hmore
        · cases h
      · cases h
    · cases h

theorem value_sound (n : Nat) : ReadsSound (value Fields.insert n) := by
  induction n using Nat.strongRecOn with
  | ind n ih =>
    intro s v rest h
    unfold value at h
    split at h
    · cases h; exact .null
    · cases h; exact .bool true
    · cases h; exact .bool false
    · obtain ⟨p, _, heq⟩ := Option.map_eq_some_iff.mp h
      cases heq
      exact .str _
    · rename_i m _
      split at h
      · cases h
        exact .list (List.forall_mem_nil _)
      · obtain ⟨p, hp, heq⟩ := Option.map_eq_some_iff.mp h
        cases heq
        exact .list (items_sound (ih m (Nat.lt_succ_self m)) (List.forall_mem_nil _) hp)
    · rename_i m _
      split at h
      · cases h
        exact .empty
      · obtain ⟨p, hp, heq⟩ := Option.map_eq_some_iff.mp h
        cases heq
        exact fields_sound (ih m (Nat.lt_succ_self m)) .empty hp
    · exact number?_sound h

/-- What is read is sound. -/
theorem read_sound {source : String} {v : Value} (h : read source = some v) : Sound v := by
  unfold read readChars at h
  split at h
  · rename_i w rest hw
    split at h
    · cases h
      exact value_sound _ hw
    · cases h
  · cases h

/-! ### Repeated keys -/

/-- A reader that merges repeated keys in what another one finds. -/
def settling (one : Reader Value) : Reader Value := fun s => (one s).map fun (v, r) => (v.settle, r)

theorem items_settling (one : Reader Value) (fuel : Nat) (acc : List Value) (s : List Char) :
    items (settling one) fuel (acc.map Value.settle) s =
      (items one fuel acc s).map fun (vs, r) => (vs.map Value.settle, r) := by
  induction fuel generalizing acc s with
  | zero => rfl
  | succ fuel ih =>
    unfold items settling
    cases one (skipBlanks s) with
    | none => rfl
    | some p =>
      obtain ⟨v, rest⟩ := p
      dsimp only [Option.map_some]
      split
      · exact ih (v :: acc) _
      · simp
      · rfl

theorem fields_settling (one : Reader Value) (fuel : Nat) (acc : Fields) (s : List Char) :
    fields Fields.insert (settling one) fuel (Value.settleFields [] acc) s =
      (fields appendField one fuel acc s).map fun (fs, r) => (Value.settleFields [] fs, r) := by
  induction fuel generalizing acc s with
  | zero => rfl
  | succ fuel ih =>
    unfold fields settling
    split
    · split
      · rfl
      · split
        · rename_i rest _
          cases one (skipBlanks rest) with
          | none => rfl
          | some p =>
            obtain ⟨v, rest⟩ := p
            dsimp only [Option.map_some, appendField]
            rw [← Value.settleFields_append]
            split
            · exact ih _ _
            · rfl
            · rfl
        · rfl
    · rfl

theorem number?_settle (s : List Char) :
    number? s = (number? s).map fun (v, r) => (v.settle, r) := by
  cases h : number? s with
  | none => rfl
  | some p => exact congrArg (fun v => some (v, p.2)) (number?_sound h).settle_eq.symm

theorem value_insert (n : Nat) : value Fields.insert n = settling (value appendField n) := by
  induction n using Nat.strongRecOn with
  | ind n ih =>
    funext s
    unfold settling value
    split
    · rfl
    · rfl
    · rfl
    · rw [Option.map_map]
      rfl
    · rename_i m _
      split
      · rfl
      · have hitems := fun fuel => items_settling (value appendField m) fuel []
        rw [List.map_nil] at hitems
        simp [ih m (Nat.lt_succ_self m), hitems, Function.comp_def, Value.settle,
          Value.settleItems_eq_map]
    · rename_i m _
      split
      · rfl
      · have hfields := fun fuel => fields_settling (value appendField m) fuel []
        rw [Value.settleFields] at hfields
        simp [ih m (Nat.lt_succ_self m), hfields, Function.comp_def, Value.settle]
    · exact number?_settle _

/-- A document is a record with its repeated keys merged. -/
theorem read_eq_settle (s : String) : read s = (readRecord s).map Value.settle := by
  rw [read, readRecord, readChars, readChars, value_insert, settling]
  cases value appendField depthLimit (skipBlanks s.toList) with
  | none => rfl
  | some p =>
    dsimp only [Option.map_some]
    split <;> rfl

theorem read_compact {v : Value} (h : Sound v) (hfloats : ∀ x ∈ v.floats, ReadsBack x) :
    read (compact v) = if v.depth ≤ depthLimit then some v else none := by
  rw [read_eq_settle, readRecord_compact (printable_of_sound h hfloats)]
  split
  · exact congrArg some h.settle_eq
  · rfl

end Flowline.Json
