import Flowline.Proofs.Json.Layout

/-!
# Reading printed values

A text in any layout is read back to its value exactly if the reader's limit leaves room for the
value's containers.
-/
namespace Flowline.Json

/-- A float whose text is read as the float. -/
def ReadsBack (x : Float) : Prop := number? (number x).toList = some (.float x, [])

/-- The float that is read from the text of a float. -/
def readBack? (x : Float) : Option Float :=
  match number? (number x).toList with
  | some (.float y, []) => some y
  | _ => none

theorem readsBack_iff {x : Float} : readBack? x = some x ↔ ReadsBack x := by
  unfold readBack? ReadsBack
  constructor
  · intro h
    split at h
    · rename_i y hy
      rw [hy, Option.some.inj h]
    · cases h
  · intro h
    rw [h]

instance (x : Float) : Decidable (ReadsBack x) := decidable_of_iff _ readsBack_iff

/-- A value whose integers fit a word and whose floats are read back. -/
inductive Printable : Value → Prop
  | null : Printable .null
  | bool (b : Bool) : Printable (.bool b)
  | int {n : Int} : Value.IsWord n → Printable (.int n)
  | float {x : Float} : ReadsBack x → Printable (.float x)
  | str (s : String) : Printable (.str s)
  | list {items : List Value} : (∀ v ∈ items, Printable v) → Printable (.list items)
  | map {fields : Fields} : (∀ f ∈ fields, Printable f.2) → Printable (.map fields)

theorem printable_of_sound {v : Value} (h : v.Sound) (hfloats : ∀ x ∈ v.floats, ReadsBack x) :
    Printable v := by
  induction h with
  | null => exact .null
  | bool b => exact .bool b
  | int hn => exact .int hn
  | float _ => exact .float (hfloats _ List.mem_cons_self)
  | str s => exact .str s
  | list _ ih =>
    exact .list fun v hv => ih v hv fun x hx => hfloats x (Value.mem_itemsFloats.mpr ⟨v, hv, hx⟩)
  | map _ _ ih =>
    exact .map fun f hf => ih f hf fun x hx => hfloats x (Value.mem_fieldsFloats.mpr ⟨f, hf, hx⟩)

theorem printable_ofNat {n : Nat} (h : n ≤ 0xFFFFFFFFFFFFFFFF) : Printable (.ofNat n) :=
  .int (Value.isWord_natCast h)

theorem printable_list_map {as : List α} {encode : α → Value} (h : ∀ a ∈ as, Printable (encode a)) :
    Printable (.list (as.map encode)) :=
  .list (List.forall_mem_map.mpr h)

theorem printable_strs (ss : List String) : Printable (.strs ss) :=
  printable_list_map fun s _ => .str s

/-! ### Blanks -/

theorem skipBlanks_append {s : List Char} (h : ∀ c ∈ s, isJsonBlank c = true) (rest : List Char) :
    skipBlanks (s ++ rest) = skipBlanks rest := List.dropWhile_append_of_pos h

theorem skipBlanks_cons {c : Char} (h : isJsonBlank c = false) (rest : List Char) :
    skipBlanks (c :: rest) = c :: rest := by
  simp [skipBlanks, h]

/-! ### Beginnings -/

theorem number?_head {s : List Char} {p : Value × List Char} (h : number? s = some p) :
    ∃ c r, s = c :: r ∧ (c.isDigit = true ∨ c = '-') := by
  cases s with
  | nil => cases h
  | cons c r =>
    refine ⟨c, r, rfl, ?_⟩
    by_cases hc : c = '-'
    · exact Or.inr hc
    · refine Or.inl ?_
      have hsign : sign (c :: r) = (false, c :: r) := sign.eq_2 _ fun _ ht => hc (List.cons.inj ht).1
      simp only [number?, hsign, Option.bind_eq_bind, Option.bind_eq_some_iff] at h
      obtain ⟨w, hw, -⟩ := h
      by_contra hdigit
      have hspan : Decimal.spanDigits (c :: r) = ([], c :: r) := by
        simp [Decimal.spanDigits, List.span_eq_takeWhile_dropWhile, hdigit]
      have hzero : c ≠ '0' := by
        rintro rfl
        exact hdigit rfl
      rw [whole?, hspan] at hw
      · cases hw
      · exact fun _ ht => hzero (List.cons.inj ht).1

theorem value_number {add : AddField} {n : Nat} {c : Char} {r : List Char}
    (h : c.isDigit = true ∨ c = '-') : value add n (c :: r) = number? (c :: r) := by
  have hne : ∀ d : Char, d.isDigit = false → d ≠ '-' → c ≠ d := by
    rintro d hd hm rfl
    obtain h | h := h
    · exact Bool.false_ne_true (hd.symm.trans h)
    · exact hm h
  rw [value] <;> simp [hne 'n', hne 't', hne 'f', hne '"', hne '[', hne '\x7b']

/-! ### Lists and mappings -/

theorem value_list {add : AddField} {n : Nat} {s rest : List Char} (hs : skipBlanks s = rest)
    (hrest : ∀ r, rest = ']' :: r → False) : value add (n + 1) ('[' :: s) =
      (items (value add n) (rest.length + 1) [] rest).map fun (xs, r) => (.list xs, r) := by
  rw [value, hs]
  split
  · exact absurd rfl (hrest _)
  · rfl

theorem value_map {add : AddField} {n : Nat} {s rest : List Char} (hs : skipBlanks s = rest)
    (hrest : ∀ r, rest = '\x7d' :: r → False) : value add (n + 1) ('\x7b' :: s) =
      (fields add (value add n) (rest.length + 1) [] rest).map fun (fs, r) => (.map fs, r) := by
  rw [value, hs]
  split
  · exact absurd rfl (hrest _)
  · rfl

theorem number?_none {c : Char} (hdigit : c.isDigit = false) (hminus : c ≠ '-') (s : List Char) :
    number? (c :: s) = none := by
  refine Option.eq_none_iff_forall_ne_some.mpr fun p hp => ?_
  obtain ⟨d, r, heq, hd⟩ := number?_head hp
  obtain ⟨rfl, rfl⟩ := List.cons.inj heq
  obtain hd | hd := hd
  · exact Bool.false_ne_true (hdigit.symm.trans hd)
  · exact hminus hd

theorem value_list_limit (add : AddField) (s : List Char) : value add 0 ('[' :: s) = none := by
  rw [value]
  · exact number?_none rfl (by decide) s
  all_goals simp

theorem value_map_limit (add : AddField) (s : List Char) : value add 0 ('\x7b' :: s) = none := by
  rw [value]
  · exact number?_none rfl (by decide) s
  all_goals simp

/-! ### Texts in a layout -/

theorem ends_append {s rest : List Char} (h : ∀ c ∈ s, isJsonBlank c = true) (hrest : Ends rest) :
    Ends (s ++ rest) := by
  cases s with
  | nil => exact hrest
  | cons c s =>
    have hblank : isJsonBlank c = true := h c List.mem_cons_self
    exact ends_cons (by simp [endsValue, hblank])

namespace Layout

variable (layout : Layout) (level : Nat)

theorem ends_moreItems (items : List Value) (tail : List Char) :
    Ends (layout.moreItems level items ++ tail) := by
  cases items with
  | nil =>
    rw [moreItems, List.append_assoc]
    exact ends_append (layout.gap_blank level) (ends_cons rfl)
  | cons v items => exact ends_cons rfl

theorem ends_moreFields (fields : Fields) (tail : List Char) :
    Ends (layout.moreFields level fields ++ tail) := by
  cases fields with
  | nil =>
    rw [moreFields, List.append_assoc]
    exact ends_append (layout.gap_blank level) (ends_cons rfl)
  | cons f fields => exact ends_cons rfl

theorem length_moreItems (items : List Value) :
    items.length ≤ (layout.moreItems level items).length := by
  induction items with
  | nil => exact Nat.zero_le _
  | cons v items ih =>
    simp only [moreItems, List.length_cons, List.length_append]
    omega

theorem length_moreFields (fields : Fields) :
    fields.length ≤ (layout.moreFields level fields).length := by
  induction fields with
  | nil => exact Nat.zero_le _
  | cons f fields ih =>
    simp only [moreFields, List.length_cons, List.length_append]
    omega

/-- No text begins with a blank or a closing bracket. -/
theorem text_head {v : Value} (h : Printable v) :
    ∃ c r, layout.text level v = c :: r ∧ isJsonBlank c = false ∧ c ≠ ']' := by
  have hnumber : ∀ {s : List Char} {p : Value × List Char}, number? s = some p →
      ∃ c r, s = c :: r ∧ isJsonBlank c = false ∧ c ≠ ']' := by
    intro s p hp
    obtain ⟨c, r, rfl, hc⟩ := number?_head hp
    refine ⟨c, r, rfl, ?_, ?_⟩
    · by_contra hblank
      simp only [isJsonBlank, Bool.not_eq_false, Bool.or_eq_true, decide_eq_true_eq] at hblank
      obtain ((rfl | rfl) | rfl) | rfl := hblank <;> revert hc <;> decide
    · rintro rfl
      revert hc
      decide
  cases h with
  | null => exact ⟨'n', _, rfl, rfl, by decide⟩
  | bool b =>
    cases b with
    | false => exact ⟨'f', _, rfl, rfl, by decide⟩
    | true => exact ⟨'t', _, rfl, rfl, by decide⟩
  | int hn => exact hnumber (number?_int hn)
  | float hx => exact hnumber hx
  | str s => exact ⟨'"', _, rfl, rfl, by decide⟩
  | @list items _ =>
    cases items with
    | nil => exact ⟨'[', _, rfl, rfl, by decide⟩
    | cons v rest => exact ⟨'[', _, rfl, rfl, by decide⟩
  | @map fields _ =>
    cases fields with
    | nil => exact ⟨'\x7b', _, rfl, rfl, by decide⟩
    | cons f rest => exact ⟨'\x7b', _, rfl, rfl, by decide⟩

theorem skipBlanks_text {v : Value} (h : Printable v) {s : List Char}
    (hs : ∀ c ∈ s, isJsonBlank c = true) (tail : List Char) :
    skipBlanks (s ++ (layout.text level v ++ tail)) = layout.text level v ++ tail := by
  obtain ⟨c, r, htext, hblank, -⟩ := layout.text_head level h
  rw [skipBlanks_append hs, htext, List.cons_append, skipBlanks_cons hblank]

theorem quoteChars_append (s tail : List Char) :
    quoteChars s ++ tail = '"' :: (s.flatMap escapeChar ++ '"' :: tail) := by
  simp [quoteChars]

/-- A reader of values in a layout that leaves room for some number of containers. -/
def ReadsText (one : Reader Value) (n : Nat) (v : Value) : Prop :=
  ∀ rest, Ends rest →
    one (layout.text level v ++ rest) = if v.depth ≤ n then some (v, rest) else none

variable {layout level} {one : Reader Value} {n : Nat}

theorem items_first {v : Value} (h : ReadsText layout (level + 1) one n v) {more : List Char}
    (hmore : Ends more) (fuel : Nat) (acc : List Value) {s : List Char}
    (hs : skipBlanks s = layout.text (level + 1) v ++ more) : items one (fuel + 1) acc s =
      if v.depth ≤ n then
        match skipBlanks more with
        | ',' :: r => items one fuel (v :: acc) r
        | ']' :: r => some ((v :: acc).reverse, r)
        | _ => none
      else none := by
  by_cases hdepth : v.depth ≤ n
  · rw [items, hs, (h more hmore).trans (if_pos hdepth)]
    exact (if_pos hdepth).symm
  · rw [items, hs, (h more hmore).trans (if_neg hdepth)]
    exact (if_neg hdepth).symm

theorem items_text {v : Value} {rest : List Value} (hprint : ∀ w ∈ v :: rest, Printable w)
    (hone : ∀ w ∈ v :: rest, ReadsText layout (level + 1) one n w) {fuel : Nat}
    (hfuel : rest.length < fuel) (acc : List Value) {s tail : List Char}
    (hs : skipBlanks s =
      layout.text (level + 1) v ++ (layout.moreItems level rest ++ tail)) :
    items one fuel acc s =
      if Value.itemsDepth (v :: rest) ≤ n then some (acc.reverse ++ v :: rest, tail) else none := by
  obtain ⟨fuel, rfl⟩ := Nat.exists_eq_succ_of_ne_zero (Nat.ne_zero_of_lt hfuel)
  induction rest generalizing v fuel acc s with
  | nil =>
    have hclose : skipBlanks (layout.moreItems level [] ++ tail) = ']' :: tail := by
      rw [moreItems, List.append_assoc, skipBlanks_append (layout.gap_blank level)]
      rfl
    rw [items_first (hone v List.mem_cons_self) (layout.ends_moreItems level [] tail) _ _ hs,
      hclose]
    simp [Value.itemsDepth]
  | cons w rest ih =>
    have hcomma : skipBlanks (layout.moreItems level (w :: rest) ++ tail) =
        ',' :: (layout.gap (level + 1) ++
          (layout.text (level + 1) w ++ (layout.moreItems level rest ++ tail))) := by
      simp only [moreItems, List.cons_append, List.append_assoc]
      exact skipBlanks_cons rfl _
    have hw := skipBlanks_text layout (level + 1) (hprint w (by simp)) (layout.gap_blank (level + 1))
      (layout.moreItems level rest ++ tail)
    obtain ⟨fuel, rfl⟩ := Nat.exists_eq_succ_of_ne_zero
      (Nat.ne_zero_of_lt (Nat.lt_of_succ_lt_succ hfuel))
    have hrest := ih (fun u hu => hprint u (List.mem_cons_of_mem _ hu))
      (fun u hu => hone u (List.mem_cons_of_mem _ hu)) (v :: acc) hw fuel
      (Nat.lt_of_succ_lt_succ hfuel)
    rw [items_first (hone v List.mem_cons_self) (layout.ends_moreItems level _ tail) _ _ hs,
      hcomma]
    by_cases hdepth : v.depth ≤ n
    · simp [hrest, hdepth, Value.itemsDepth, Nat.max_le]
    · simp [hdepth, Value.itemsDepth, Nat.max_le]

theorem fields_first {key : String} {v : Value} (hprint : Printable v)
    (h : ReadsText layout (level + 1) one n v) {more : List Char} (hmore : Ends more) (fuel : Nat)
    (acc : Fields) {s : List Char} (hs : skipBlanks s = quoteChars key.toList ++
      ':' :: (layout.beforeValue ++ (layout.text (level + 1) v ++ more))) :
    fields appendField one (fuel + 1) acc s =
      if v.depth ≤ n then
        match skipBlanks more with
        | ',' :: r => fields appendField one fuel (acc ++ [(key, v)]) r
        | '\x7d' :: r => some (acc ++ [(key, v)], r)
        | _ => none
      else none := by
  have hcolon := fun t => skipBlanks_cons (c := ':') rfl t
  have hvalue := skipBlanks_text layout (level + 1) hprint layout.beforeValue_blank more
  rw [quoteChars_append] at hs
  by_cases hdepth : v.depth ≤ n
  · simp only [fields, hs, textBody_quoted, hcolon, hvalue, (h more hmore).trans (if_pos hdepth),
      String.ofList_toList, appendField]
    exact (if_pos hdepth).symm
  · simp only [fields, hs, textBody_quoted, hcolon, hvalue, (h more hmore).trans (if_neg hdepth)]
    exact (if_neg hdepth).symm

theorem fields_text {f : String × Value} {rest : Fields}
    (hprint : ∀ g ∈ f :: rest, Printable g.2)
    (hone : ∀ g ∈ f :: rest, ReadsText layout (level + 1) one n g.2) {fuel : Nat}
    (hfuel : rest.length < fuel) (acc : Fields) {s tail : List Char}
    (hs : skipBlanks s = quoteChars f.1.toList ++ ':' :: (layout.beforeValue ++
      (layout.text (level + 1) f.2 ++ (layout.moreFields level rest ++ tail)))) :
    fields appendField one fuel acc s =
      if Value.fieldsDepth (f :: rest) ≤ n then some (acc ++ f :: rest, tail) else none := by
  obtain ⟨fuel, rfl⟩ := Nat.exists_eq_succ_of_ne_zero (Nat.ne_zero_of_lt hfuel)
  induction rest generalizing f fuel acc s with
  | nil =>
    have hclose : skipBlanks (layout.moreFields level [] ++ tail) = '\x7d' :: tail := by
      rw [moreFields, List.append_assoc, skipBlanks_append (layout.gap_blank level)]
      rfl
    rw [fields_first (hprint f List.mem_cons_self) (hone f List.mem_cons_self)
      (layout.ends_moreFields level [] tail) _ _ hs, hclose]
    simp [Value.fieldsDepth]
  | cons g rest ih =>
    have hcomma : skipBlanks (layout.moreFields level (g :: rest) ++ tail) =
        ',' :: (layout.gap (level + 1) ++ (quoteChars g.1.toList ++ ':' :: (layout.beforeValue ++
          (layout.text (level + 1) g.2 ++ (layout.moreFields level rest ++ tail))))) := by
      simp only [moreFields, List.cons_append, List.append_assoc]
      exact skipBlanks_cons rfl _
    have hg : skipBlanks (layout.gap (level + 1) ++ (quoteChars g.1.toList ++
        ':' :: (layout.beforeValue ++ (layout.text (level + 1) g.2 ++
          (layout.moreFields level rest ++ tail))))) =
        quoteChars g.1.toList ++ ':' :: (layout.beforeValue ++ (layout.text (level + 1) g.2 ++
          (layout.moreFields level rest ++ tail))) := by
      rw [skipBlanks_append (layout.gap_blank (level + 1)), quoteChars_append]
      exact skipBlanks_cons rfl _
    obtain ⟨fuel, rfl⟩ := Nat.exists_eq_succ_of_ne_zero
      (Nat.ne_zero_of_lt (Nat.lt_of_succ_lt_succ hfuel))
    have hrest := ih (fun u hu => hprint u (List.mem_cons_of_mem _ hu))
      (fun u hu => hone u (List.mem_cons_of_mem _ hu)) (acc ++ [f]) hg fuel
      (Nat.lt_of_succ_lt_succ hfuel)
    rw [fields_first (hprint f List.mem_cons_self) (hone f List.mem_cons_self)
      (layout.ends_moreFields level _ tail) _ _ hs, hcomma]
    by_cases hdepth : f.2.depth ≤ n
    · simp [hrest, hdepth, Value.fieldsDepth, Nat.max_le]
    · simp [hdepth, Value.fieldsDepth, Nat.max_le]

theorem value_numeral {n : Nat} {s rest : List Char} {v : Value} (h : number? s = some (v, []))
    (hrest : Ends rest) : value appendField n (s ++ rest) = some (v, rest) := by
  obtain ⟨c, r, rfl, hc⟩ := number?_head h
  rw [List.cons_append, value_number hc, ← List.cons_append]
  exact number?_prolongs h hrest

theorem readsText_scalar {v : Value} (hdepth : v.depth = 0)
    (h : ∀ rest, Ends rest → one (layout.text level v ++ rest) = some (v, rest)) :
    ReadsText layout level one n v := by
  intro rest hrest
  rw [h rest hrest, hdepth, if_pos (Nat.zero_le n)]

theorem readsText_items {v : Value} {items : List Value} (hprint : ∀ w ∈ v :: items, Printable w)
    (h : ∀ w ∈ v :: items, ReadsText layout (level + 1) (value appendField n) n w) :
    ReadsText layout level (value appendField (n + 1)) (n + 1) (.list (v :: items)) := by
  intro rest _
  have hskip := fun {s} hs => skipBlanks_text layout (level + 1) (hprint v List.mem_cons_self)
    (s := s) hs (layout.moreItems level items ++ rest)
  have hopen : ∀ r, layout.text (level + 1) v ++ (layout.moreItems level items ++ rest) = ']' :: r →
      False := by
    obtain ⟨c, s, htext, -, hc⟩ := layout.text_head (level + 1) (hprint v List.mem_cons_self)
    rw [htext]
    exact fun r hr => hc (List.cons.inj hr).1
  have hfuel : items.length <
      (layout.text (level + 1) v ++ (layout.moreItems level items ++ rest)).length + 1 := by
    have hmore := layout.length_moreItems level items
    simp only [List.length_append]
    omega
  have hitems := items_text hprint h hfuel []
    (s := layout.text (level + 1) v ++ (layout.moreItems level items ++ rest))
    (hskip (List.forall_mem_nil _))
  rw [text, List.cons_append, List.append_assoc, List.append_assoc,
    value_list (hskip (layout.gap_blank (level + 1))) hopen, hitems]
  by_cases hdepth : Value.itemsDepth (v :: items) ≤ n
  · simp [hdepth, Value.depth]
  · simp [hdepth, Value.depth]

theorem readsText_fields {f : String × Value} {fields : Fields}
    (hprint : ∀ g ∈ f :: fields, Printable g.2)
    (h : ∀ g ∈ f :: fields, ReadsText layout (level + 1) (value appendField n) n g.2) :
    ReadsText layout level (value appendField (n + 1)) (n + 1) (.map (f :: fields)) := by
  intro rest _
  have hskip : ∀ {s : List Char}, (∀ c ∈ s, isJsonBlank c = true) →
      ∀ tail, skipBlanks (s ++ (quoteChars f.1.toList ++ tail)) = quoteChars f.1.toList ++ tail := by
    intro s hs tail
    rw [skipBlanks_append hs, quoteChars_append, skipBlanks_cons rfl]
  have hopen : ∀ tail r, quoteChars f.1.toList ++ tail = '\x7d' :: r → False := by
    intro tail r hr
    rw [quoteChars_append] at hr
    exact absurd (List.cons.inj hr).1 (by decide)
  have hfuel : fields.length < (quoteChars f.1.toList ++ ':' :: (layout.beforeValue ++
      (layout.text (level + 1) f.2 ++ (layout.moreFields level fields ++ rest)))).length + 1 := by
    have hmore := layout.length_moreFields level fields
    simp only [List.length_append, List.length_cons]
    omega
  have hfields := fields_text hprint h hfuel [] (s := quoteChars f.1.toList ++
    ':' :: (layout.beforeValue ++
      (layout.text (level + 1) f.2 ++ (layout.moreFields level fields ++ rest))))
    (hskip (List.forall_mem_nil _) _)
  rw [text]
  simp only [List.cons_append, List.append_assoc]
  rw [value_map (hskip (layout.gap_blank (level + 1)) _) (hopen _), hfields]
  by_cases hdepth : Value.fieldsDepth (f :: fields) ≤ n
  · simp [hdepth, Value.depth]
  · simp [hdepth, Value.depth]

/-- A printed value is read back if there is room for its containers. -/
theorem readsText {v : Value} (h : Printable v) (level n : Nat) :
    ReadsText layout level (value appendField n) n v := by
  induction h generalizing level n with
  | null => exact readsText_scalar rfl fun rest _ => value.eq_1 ..
  | bool b =>
    cases b with
    | false => exact readsText_scalar rfl fun rest _ => value.eq_3 ..
    | true => exact readsText_scalar rfl fun rest _ => value.eq_2 ..
  | int hn => exact readsText_scalar rfl fun rest hrest => value_numeral (number?_int hn) hrest
  | float hx => exact readsText_scalar rfl fun rest hrest => value_numeral hx hrest
  | str s =>
    refine readsText_scalar rfl fun rest _ => ?_
    rw [text, quoteChars_append, value, textBody_quoted]
    simp
  | @list items hitems ih =>
    cases n with
    | zero =>
      intro rest _
      obtain ⟨s, hs⟩ : ∃ s, layout.text level (.list items) ++ rest = '[' :: s := by
        cases items <;> exact ⟨_, rfl⟩
      rw [hs, value_list_limit, Value.depth, if_neg (Nat.not_succ_le_zero _)]
    | succ n =>
      cases items with
      | nil =>
        intro rest _
        rw [Value.depth, Value.itemsDepth, if_pos (show 0 + 1 ≤ n + 1 from Nat.le_add_left 1 n)]
        rfl
      | cons v items => exact readsText_items hitems fun w hw => ih w hw (level + 1) n
  | @map fields hfields ih =>
    cases n with
    | zero =>
      intro rest _
      obtain ⟨s, hs⟩ : ∃ s, layout.text level (.map fields) ++ rest = '\x7b' :: s := by
        cases fields <;> exact ⟨_, rfl⟩
      rw [hs, value_map_limit, Value.depth, if_neg (Nat.not_succ_le_zero _)]
    | succ n =>
      cases fields with
      | nil =>
        intro rest _
        rw [Value.depth, Value.fieldsDepth, if_pos (show 0 + 1 ≤ n + 1 from Nat.le_add_left 1 n)]
        rfl
      | cons f fields => exact readsText_fields hfields fun g hg => ih g hg (level + 1) n

end Layout

/-- A value in a text of its own. -/
theorem readChars_text {v : Value} (h : Printable v) (layout : Layout) (level : Nat) :
    readChars appendField (layout.text level v) =
      if v.depth ≤ depthLimit then some v else none := by
  have hskip := Layout.skipBlanks_text layout level h (List.forall_mem_nil _) []
  have htext : Layout.ReadsText layout level (value appendField depthLimit) depthLimit v :=
    Layout.readsText h level depthLimit
  have hread := htext [] ends_nil
  rw [List.append_nil] at hread hskip
  rw [readChars, ← List.nil_append (layout.text level v), hskip, hread]
  by_cases hdepth : v.depth ≤ depthLimit
  · simp [hdepth, skipBlanks]
  · simp [hdepth]

theorem readRecord_pretty {v : Value} (h : Printable v) :
    readRecord (pretty v) = if v.depth ≤ depthLimit then some v else none := by
  rw [readRecord, pretty, Layout.toList_prettyAt, readChars_text h]

theorem readRecord_compact {v : Value} (h : Printable v) :
    readRecord (compact v) = if v.depth ≤ depthLimit then some v else none := by
  rw [readRecord, Layout.toList_compact v 0, readChars_text h]

/-- The value is read from the text that is printed for it. -/
def Restored (print : Value → String) (v : Value) : Prop := readRecord (print v) = some v

theorem restored_pretty {v : Value} (h : Printable v) (hdepth : v.depth ≤ depthLimit) :
    Restored pretty v := (readRecord_pretty h).trans (if_pos hdepth)

theorem restored_compact {v : Value} (h : Printable v) (hdepth : v.depth ≤ depthLimit) :
    Restored compact v := (readRecord_compact h).trans (if_pos hdepth)

end Flowline.Json
