import Flowline.Market.Label
import Flowline.Proofs.Market.Account
import Flowline.Proofs.Market.Column
import Flowline.Proofs.Validation.Parameters

/-!
# Classes of returns

The known returns are cut into classes at points between them that ascend, and a row belongs to the
class of as many points as its return has reached. So the classes rise with the returns and none
lies outside its range. What validation lets pass names as many classes as there are.
-/
namespace Flowline.Market

/-! ### Parameters that pass -/

namespace Label

open Builtin

variable {n : Declaration}

/-- The rules of labels on classes and periods. -/
theorem labelingRules_noErrors (h : Parametrized labeling n) :
    NoErrors (Rule.intAtLeast n "num_classes" 2) ∧ NoErrors (forwardRules n) ∧
      NoErrors (classRules n) := by
  have hrules := h.rules labelingRules List.mem_cons_self
  obtain ⟨hrules, hclass⟩ := noErrors_append.mp hrules
  obtain ⟨hrules, -⟩ := noErrors_append.mp hrules
  obtain ⟨hrules, -⟩ := noErrors_append.mp hrules
  obtain ⟨hrules, hforward⟩ := noErrors_append.mp hrules
  obtain ⟨hrules, -⟩ := noErrors_append.mp hrules
  obtain ⟨hrules, -⟩ := noErrors_append.mp hrules
  exact ⟨(noErrors_append.mp hrules).2, hforward, hclass⟩

/-- The number of classes among the signed words is two or more, three if none is given. -/
theorem classes_given (h : Parametrized labeling n)
    (hfits : ∀ v, n.params.get? "num_classes" = some v → fits v = true) :
    param n.params "num_classes" (.int 3) = .int ((n.int? "num_classes").getD 3) ∧
      2 ≤ (n.int? "num_classes").getD 3 := by
  cases hv : n.params.get? "num_classes" with
  | none =>
    rw [Declaration.int?, Declaration.param?, hv, param, hv]
    exact ⟨rfl, by decide⟩
  | some v =>
    have hkind := h.kinds "num_classes" v ⟨"num_classes", .integer⟩ hv (by decide)
    cases v with
    | int k =>
      have hint := int?_of_le hv (of_decide_eq_true (hfits _ hv))
      have hrule := Rule.whenGiven_noErrors (labelingRules_noErrors h).1 hint
      rw [param, hv, hint]
      exact ⟨rfl, of_decide_eq_true hrule⟩
    | _ => cases hkind

/-- As many classes are named as there are, if any are named. -/
theorem class_names_given (h : Parametrized labeling n)
    (hgiven : isTruthy (field n.params "class_names") = true) :
    ∃ names, field n.params "class_names" = .list names ∧
      (names.length : Int) = (n.int? "num_classes").getD 3 := by
  cases hv : n.params.get? "class_names" with
  | none =>
    rw [field, hv] at hgiven
    cases hgiven
  | some v =>
    have hkind := h.kinds "class_names" v ⟨"class_names", .array⟩ hv (by decide)
    cases v with
    | list names =>
      refine ⟨names, by rw [field, hv]; rfl, ?_⟩
      have hrule := (labelingRules_noErrors h).2.2
      rw [classRules, Declaration.param?, hv] at hrule
      by_contra hne
      simp only [hne, if_false] at hrule
      cases hrule _ (List.mem_singleton_self _)
    | _ => cases hkind

/-- The first period leads to rows to come. -/
theorem period_given (h : Parametrized labeling n) :
    ∃ period, periods n.params >>= firstPeriod = .ok period ∧ 1 ≤ period := by
  have hrule := (labelingRules_noErrors h).2.1
  cases hv : n.params.get? "forward_periods" with
  | none =>
    refine ⟨1, ?_, le_rfl⟩
    rw [periods, param, hv]
    rfl
  | some v =>
    have hkind := h.kinds "forward_periods" v ⟨"forward_periods", .integerOrArray⟩ hv (by decide)
    rw [forwardRules, Declaration.param?, hv] at hrule
    cases v with
    | int k =>
      refine ⟨k, by rw [periods, param, hv]; rfl, ?_⟩
      by_cases hk : k ≤ Value.maxSigned
      · exact of_decide_eq_true (Rule.whenGiven_noErrors hrule (int?_of_le hv hk))
      · have hmax : (1 : Int) ≤ Value.maxSigned := by decide
        omega
    | list vs =>
      obtain ⟨hne, heach⟩ := noErrors_append.mp hrule
      have hints : ∀ v ∈ vs, ∃ k : { k : Int // 1 ≤ k }, Value.int k = v := by
        intro v hv
        have hpasses := Rule.eachItem_noErrors heach hv
        cases hk : v.asInt? with
        | none =>
          rw [hk] at hpasses
          cases hpasses
        | some k =>
          rw [hk] at hpasses
          exact ⟨⟨k, of_decide_eq_true hpasses⟩, (Value.asInt?_eq_some.mp hk).1.symm⟩
      obtain ⟨ks, rfl⟩ := exists_map_eq hints
      cases ks with
      | nil =>
        rw [Rule.nonEmptyList, Declaration.param?, hv] at hne
        cases hne _ (List.mem_singleton_self _)
      | cons k rest =>
        have hperiods : periods n.params = .ok ((k :: rest).map Subtype.val) := by
          rw [periods, param, hv]
          change ((k :: rest).map _).mapM toInt = _
          rw [List.mapM_map]
          exact mapM_eq_pure fun _ _ => rfl
        rw [hperiods]
        exact ⟨k, rfl, k.2⟩
    | _ => cases hkind

end Label

/-! ### Points between ascending numbers -/

theorem getD_le_getD {xs : List ℚ} (h : xs.Pairwise (· ≤ ·)) {i j : Nat} (hij : i ≤ j)
    (hj : j < xs.length) : xs.getD i 0 ≤ xs.getD j 0 := by
  have hi : i < xs.length := by omega
  rw [List.getD_eq_getElem?_getD, List.getD_eq_getElem?_getD, List.getElem?_eq_getElem hi,
    List.getElem?_eq_getElem hj]
  rcases hij.lt_or_eq with hlt | rfl
  · exact List.pairwise_iff_getElem.mp h i j hi hj hlt
  · exact le_rfl

/-- The point at a place among ascending numbers, between two neighbours if need be. -/
def pointAt (xs : List ℚ) (place : ℚ) : ℚ :=
  let below := ⌊place⌋₊
  let a := xs.getD below 0
  a + (xs.getD (min (below + 1) (xs.length - 1)) 0 - a) * (place - below)

section
variable {xs : List ℚ} (h : xs.Pairwise (· ≤ ·)) {p q : ℚ} (hp : 0 ≤ p)
include h hp

/-- The point lies between its neighbours. -/
theorem pointAt_between (hlast : ⌊p⌋₊ < xs.length) :
    xs.getD ⌊p⌋₊ 0 ≤ pointAt xs p ∧
      pointAt xs p ≤ xs.getD (min (⌊p⌋₊ + 1) (xs.length - 1)) 0 := by
  have hab : xs.getD ⌊p⌋₊ 0 ≤ xs.getD (min (⌊p⌋₊ + 1) (xs.length - 1)) 0 :=
    getD_le_getD h (by omega) (by omega)
  have hlow : 0 ≤ p - ⌊p⌋₊ := sub_nonneg.mpr (Nat.floor_le hp)
  have hhigh : p - ⌊p⌋₊ ≤ 1 := by linarith [Nat.lt_floor_add_one p]
  unfold pointAt
  dsimp only
  generalize xs.getD ⌊p⌋₊ 0 = a at hab ⊢
  generalize xs.getD (min (⌊p⌋₊ + 1) (xs.length - 1)) 0 = b at hab ⊢
  have hwidth : 0 ≤ b - a := sub_nonneg.mpr hab
  constructor
  · linarith [mul_nonneg hwidth hlow]
  · linarith [mul_le_of_le_one_right hwidth hhigh]

/-- Points ascend with their places. -/
theorem pointAt_mono (hpq : p ≤ q) (hq : ⌊q⌋₊ < xs.length) : pointAt xs p ≤ pointAt xs q := by
  have hfloor : ⌊p⌋₊ ≤ ⌊q⌋₊ := Nat.floor_mono hpq
  have hbelow := pointAt_between h hp (by omega)
  have habove := pointAt_between h (hp.trans hpq) hq
  rcases hfloor.lt_or_eq with hlt | heq
  · calc pointAt xs p ≤ xs.getD (min (⌊p⌋₊ + 1) (xs.length - 1)) 0 := hbelow.2
      _ ≤ xs.getD ⌊q⌋₊ 0 := getD_le_getD h (by omega) hq
      _ ≤ pointAt xs q := habove.1
  · have hwidth : 0 ≤ xs.getD (min (⌊q⌋₊ + 1) (xs.length - 1)) 0 - xs.getD ⌊q⌋₊ 0 :=
      sub_nonneg.mpr (getD_le_getD h (by omega) (by omega))
    unfold pointAt
    rw [heq]
    dsimp only
    gcongr

end

/-- The place of a fraction of a range is within the range. -/
theorem floor_place_lt {n : Nat} (hn : 0 < n) {q : ℚ} (hq : q ≤ 1) :
    ⌊((n - 1 : Nat) : ℚ) * q⌋₊ < n := by
  have hle : ((n - 1 : Nat) : ℚ) * q ≤ (n - 1 : Nat) := mul_le_of_le_one_right (Nat.cast_nonneg _) hq
  have := Nat.floor_le_of_le hle
  omega

/-! ### Cuts -/

section
variable [Roots] {classes : Int} {known : List ℚ}
open Arithmetic Account

theorem atMost_eq (a b : ℚ) : atMost a b = decide (a ≤ b) := by
  unfold atMost less equal rational
  rw [← Bool.decide_or, decide_eq_decide, le_iff_lt_or_eq]

theorem mergeSort_ascending (known : List ℚ) : (known.mergeSort atMost).Pairwise (· ≤ ·) := by
  have htrans : ∀ a b c : ℚ, atMost a b = true → atMost b c = true → atMost a c = true := by
    simp only [atMost_eq, decide_eq_true_eq]
    exact fun _ _ _ => le_trans
  have htotal : ∀ a b : ℚ, (atMost a b || atMost b a) = true := by
    simp only [atMost_eq, Bool.or_eq_true, decide_eq_true_eq]
    exact le_total
  exact (List.pairwise_mergeSort htrans htotal known).imp fun hle => by
    rwa [atMost_eq, decide_eq_true_eq] at hle

/-- No index of a quantile is out of range. -/
theorem quantile_eq {xs : List ℚ} (hne : xs ≠ []) {q : ℚ} (hq : q ≤ 1) :
    quantile xs q = .ok (pointAt xs (((xs.length - 1 : Nat) : ℚ) * q)) := by
  have hlen : 0 < xs.length := List.length_pos_iff.mpr hne
  have hbelow := floor_place_lt hlen hq
  have habove : min (⌊((xs.length - 1 : Nat) : ℚ) * q⌋₊ + 1) (xs.length - 1) < xs.length := by omega
  have hofInt (n : Nat) : (ofInt (n : Int) : ℚ) = n := Int.cast_natCast n
  have hfloor (x : ℚ) : floor x = ⌊x⌋₊ := rfl
  unfold quantile
  simp only [hofInt, hfloor, List.getElem?_eq_getElem hbelow, List.getElem?_eq_getElem habove]
  rw [pointAt, List.getD_eq_getElem?_getD, List.getD_eq_getElem?_getD,
    List.getElem?_eq_getElem hbelow, List.getElem?_eq_getElem habove]
  rfl

/-- The points between the classes ascend, and there is one less than there are classes, or none. -/
theorem cuts_ascending (hclasses : 1 ≤ classes) (known : List ℚ) :
    ∃ points, cuts classes known = .ok points ∧ points.Pairwise (· ≤ ·) ∧
      (points.length : Int) < classes := by
  let xs := known.mergeSort atMost
  unfold cuts
  dsimp only
  split
  · exact ⟨[], rfl, List.Pairwise.nil, by rw [List.length_nil]; omega⟩
  · rename_i hempty
    have hne : xs ≠ [] := by simpa using hempty
    have hpos : (0 : ℚ) < classes := by exact_mod_cast hclasses
    have hfraction : ∀ k ∈ List.range (classes - 1).toNat,
        ((k + 1 : Int) : ℚ) / classes ≤ 1 := by
      intro k hk
      rw [List.mem_range] at hk
      rw [div_le_one hpos]
      exact_mod_cast (by omega : (k + 1 : Int) ≤ classes)
    refine ⟨_, mapM_eq_pure (g := fun k : Nat => pointAt xs
      (((xs.length - 1 : Nat) : ℚ) * (((k + 1 : Int) : ℚ) / classes))) fun k hk =>
        quantile_eq hne (hfraction k hk), ?_, ?_⟩
    · rw [List.pairwise_map]
      refine List.pairwise_lt_range.imp_of_mem fun {j k} hj hk hjk => ?_
      have hlast : (0 : ℚ) ≤ ((xs.length - 1 : Nat) : ℚ) := Nat.cast_nonneg _
      have hle : ((j + 1 : Int) : ℚ) / classes ≤ ((k + 1 : Int) : ℚ) / classes := by
        gcongr
      refine pointAt_mono (mergeSort_ascending known) (by positivity)
        (mul_le_mul_of_nonneg_left hle hlast)
        (floor_place_lt (List.length_pos_iff.mpr hne) (hfraction k hk))
    · simp
      omega

/-! ### Classes -/

variable {points : List ℚ}

omit [Roots] in
theorem middleClass_eq (classes : Int) : middleClass classes = classes / 2 :=
  Int.fdiv_eq_ediv_of_nonneg _ (by decide)

theorem classOf_range (hpoints : (points.length : Int) < classes) (r : Option ℚ) :
    0 ≤ classOf classes points r ∧ classOf classes points r < classes := by
  cases r with
  | none =>
    rw [classOf, middleClass_eq]
    omega
  | some v =>
    have hle : points.countP (fun c => atMost c v) ≤ points.length := List.countP_le_length
    rw [classOf]
    omega

/-- The class rises with the return. -/
theorem classOf_mono {r s : ℚ} (hrs : r ≤ s) :
    classOf classes points (some r) ≤ classOf classes points (some s) := by
  refine Int.ofNat_le.mpr (List.countP_mono_left fun c _ hc => ?_)
  rw [atMost_eq, decide_eq_true_eq] at hc ⊢
  exact hc.trans hrs

end

/-! ### Labels -/

/-- Rows in classes: their returns, their labels, and the names of these if there are any. -/
structure Classed (α : Type) where
  classes : Int
  returns : Column α
  labels : List Int
  names : Option (List Value)

namespace Classed

def signals (c : Classed α) : List Int := c.labels.map (· - middleClass c.classes)

/-- Writes the columns of the classes to rows. -/
def write (c : Classed Float) (rows : List Fields) : List Fields :=
  let rows := setNumbers (Label.setInts (Label.setInts rows "label" c.labels) "signal" c.signals)
    "future_return_multiclass" c.returns
  match c.names with
  | some names => setCells rows "label_name" names
  | none => rows

/-- The labels are classes that rise with the returns, cut at points that ascend. The signals tell
how far they are from the middle, where rows without a return are. -/
structure Rises [Roots] (c : Classed ℚ) : Prop where
  ascending : ∃ points, cuts c.classes (c.returns.filterMap id) = .ok points ∧
    points.Pairwise (· ≤ ·)
  complete : c.labels.length = c.returns.length
  range : ∀ l ∈ c.labels, 0 ≤ l ∧ l < c.classes
  signal : c.signals = c.labels.map (· - c.classes / 2)
  middle : ∀ i : Nat, c.returns[i]? = some none →
    c.labels[i]? = some (c.classes / 2) ∧ c.signals[i]? = some 0
  monotone : ∀ (i j : Nat) (r s : ℚ) (l m : Int), c.returns[i]? = some (some r) →
    c.returns[j]? = some (some s) → r ≤ s → c.labels[i]? = some l → c.labels[j]? = some m → l ≤ m

/-- The names are those at the labels, if any are given. -/
def Named (c : Classed α) (given : Value) : Prop :=
  if isTruthy given then
    ∃ all names, given = .list all ∧ c.names = some names ∧
      names.map some = c.labels.map fun l => all[l.toNat]?
  else c.names = none

theorem rises_of_cuts [Roots] {classes : Int} {returns : Column ℚ} {points : List ℚ}
    {labels : List Int} {names : Option (List Value)}
    (hpoints : cuts classes (returns.filterMap id) = .ok points)
    (hascending : points.Pairwise (· ≤ ·)) (hlen : (points.length : Int) < classes)
    (hlabels : labels = returns.map (classOf classes points)) :
    Rises ⟨classes, returns, labels, names⟩ where
  ascending := ⟨points, hpoints, hascending⟩
  complete := by rw [hlabels, List.length_map]
  range l hl := by
    rw [hlabels] at hl
    obtain ⟨r, -, rfl⟩ := List.mem_map.mp hl
    exact classOf_range hlen r
  signal := by simp only [signals, middleClass_eq]
  middle i hi := by
    have hl : labels[i]? = some (classes / 2) := by
      rw [hlabels, List.getElem?_map, hi, Option.map_some, classOf, middleClass_eq]
    refine ⟨hl, ?_⟩
    rw [signals, List.getElem?_map, hl, Option.map_some, middleClass_eq, sub_self]
  monotone i j r s l m hi hj hrs hl hm := by
    rw [hlabels, List.getElem?_map, hi] at hl
    rw [hlabels, List.getElem?_map, hj] at hm
    cases hl
    cases hm
    exact classOf_mono hrs

end Classed

namespace Label

open Builtin

/-- The classes of rows, in the arithmetic of the numbers that their floats are read as. -/
def classed [Arithmetic α] (read : Float → α) (params : Fields) (rows : List Fields) :
    Except Fault (Classed α) := do
  let classes ← toInt (param params "num_classes" (.int 3))
  let period ← firstPeriod (← periods params)
  let returns := Market.futureReturns period ((numbers rows "close").map fun c => c.map read)
  let labels ← classify classes returns
  let names := field params "class_names"
  if isTruthy names then return ⟨classes, returns, labels, some (← labels.mapM (item names))⟩
  else return ⟨classes, returns, labels, none⟩

/-- The node writes the classes that it finds in floats. -/
theorem byClass_eq (params : Fields) (rows : List Fields) :
    byClass params rows = (classed id params rows).map fun c => c.write rows := by
  change _ = (fun c => c.write rows) <$> classed id params rows
  unfold byClass classed
  simp only [Option.map_id, id, List.map_id', map_bind]
  refine bind_congr fun classes => bind_congr fun ps => bind_congr fun period =>
    bind_congr fun labels => ?_
  split
  · rw [map_bind]
    rfl
  · rfl

/-- Rows whose returns can be classified are in classes, with names if these can be found. -/
theorem classed_eq [Arithmetic α] {read : Float → α} {params : Fields} {rows : List Fields}
    {classes period : Int} {labels : List Int}
    (hclasses : toInt (param params "num_classes" (.int 3)) = .ok classes)
    (hperiod : periods params >>= firstPeriod = .ok period)
    (hlabels : classify classes (Market.futureReturns period
      ((numbers rows "close").map fun c => c.map read)) = .ok labels) :
    classed read params rows =
      let returns := Market.futureReturns period ((numbers rows "close").map fun c => c.map read)
      if isTruthy (field params "class_names") then
        (labels.mapM (item (field params "class_names"))).map fun names =>
          ⟨classes, returns, labels, some names⟩
      else .ok ⟨classes, returns, labels, none⟩ := by
  obtain ⟨ps, hps, hfirst⟩ := exists_of_bind_eq_ok hperiod
  unfold classed
  rw [hclasses, hps]
  change firstPeriod ps >>= _ = _
  rw [hfirst]
  change classify classes _ >>= _ = _
  rw [hlabels]
  change (if _ then _ else _) = _
  cases isTruthy (field params "class_names")
  · rfl
  · cases labels.mapM (item (field params "class_names")) <;> rfl

/-- A label has a name among as many names as there are classes. -/
theorem item_list {all : List Value} {l : Int} (hl : 0 ≤ l) (hlt : l < all.length) :
    ∃ v, item (.list all) l = .ok v ∧ all[l.toNat]? = some v := by
  have hnat : l.toNat < all.length := by omega
  refine ⟨all[l.toNat], ?_, List.getElem?_eq_getElem hnat⟩
  unfold item
  simp only [not_lt.mpr hl, if_false, List.getElem?_eq_getElem hnat]

theorem mapM_item {all : List Value} {labels : List Int}
    (h : ∀ l ∈ labels, 0 ≤ l ∧ l < (all.length : Int)) :
    ∃ names, labels.mapM (item (.list all)) = .ok names ∧
      names.map some = labels.map fun l => all[l.toNat]? := by
  induction labels with
  | nil => exact ⟨[], rfl, rfl⟩
  | cons l rest ih =>
    obtain ⟨v, hv, hat⟩ := item_list (h l List.mem_cons_self).1 (h l List.mem_cons_self).2
    obtain ⟨names, hnames, hall⟩ := ih fun l hl => h l (List.mem_cons_of_mem _ hl)
    refine ⟨v :: names, ?_, ?_⟩
    · rw [List.mapM_cons, hv, hnames]
      rfl
    · rw [List.map_cons, List.map_cons, hat, hall]

theorem length_futureReturns [Arithmetic α] (period : Int) (close : Column α) :
    (Market.futureReturns period close).length = close.length := by
  rw [Market.futureReturns, Column.length_combine, Column.length_shift, Nat.min_self]

/-- With parameters that pass, all rows get classes that rise with their returns, and no index is
out of range. -/
theorem classed_rises [Roots] (read : Float → ℚ) {n : Declaration}
    (hvalid : NoErrors (Validation.parameterFaults labeling n))
    (hfits : ∀ v, n.params.get? "num_classes" = some v → fits v = true) (rows : List Fields) :
    ∃ c period, classed read n.params rows = .ok c ∧
      c.classes = (n.int? "num_classes").getD 3 ∧
      periods n.params >>= firstPeriod = .ok period ∧ 1 ≤ period ∧
      c.returns = Market.futureReturns period ((numbers rows "close").map fun v => v.map read) ∧
      c.labels.length = rows.length ∧ c.Rises ∧ c.Named (field n.params "class_names") := by
  have hparams := Validation.parameterFaults_noErrors hvalid
  obtain ⟨hclasses, htwo⟩ := classes_given hparams hfits
  obtain ⟨period, hperiod, hone⟩ := period_given hparams
  set classes := (n.int? "num_classes").getD 3
  let returns := Market.futureReturns period ((numbers rows "close").map fun v => v.map read)
  have hrows : returns.length = rows.length := by
    rw [length_futureReturns, List.length_map, numbers, List.length_map]
  obtain ⟨points, hpoints, hascending, hlen⟩ :=
    cuts_ascending (by omega : 1 ≤ classes) (returns.filterMap id)
  let labels := returns.map (classOf classes points)
  have hclassified : classify classes returns = .ok labels := by
    rw [classify, hpoints]
    rfl
  have hrises (names : Option (List Value)) : Classed.Rises ⟨classes, returns, labels, names⟩ :=
    Classed.rises_of_cuts hpoints hascending hlen rfl
  have hclassed : classed read n.params rows = _ :=
    classed_eq (hclasses ▸ rfl) hperiod hclassified
  have hlabels : labels.length = rows.length := (List.length_map _).trans hrows
  by_cases hgiven : isTruthy (field n.params "class_names") = true
  · obtain ⟨all, hall, hcount⟩ := class_names_given hparams hgiven
    obtain ⟨names, hnames, hat⟩ : ∃ names, labels.mapM (item (.list all)) = .ok names ∧
        names.map some = labels.map fun l => all[l.toNat]? :=
      mapM_item (hcount.symm ▸ (hrises none).range)
    rw [if_pos hgiven, hall, hnames] at hclassed
    refine ⟨_, period, hclassed, rfl, hperiod, hone, rfl, hlabels, hrises _, ?_⟩
    rw [Classed.Named, if_pos hgiven]
    exact ⟨all, names, hall, rfl, hat⟩
  · rw [if_neg hgiven] at hclassed
    refine ⟨_, period, hclassed, rfl, hperiod, hone, rfl, hlabels, hrises none, ?_⟩
    rw [Classed.Named, if_neg hgiven]

/-- Three named classes. -/
def rated : Declaration :=
  { id := "rated", type := "LabelingNode", dependsOn := [],
    params := [("method", .str "multi_class"), ("num_classes", .int 3),
      ("class_names", .list [.str "low", .str "middle", .str "high"])] }

/-- Two rises, and a gap between them. -/
def gappedRows : List Fields :=
  [.int 100, .int 110, .null, .int 100, .int 120].map fun close => [("close", close)]

theorem gappedRows_classed :
    letI := Backtest.wholeRoots
    NoErrors (Validation.parameterFaults labeling rated) ∧
      ∃ c, classed Backtest.rationalOf rated.params gappedRows = .ok c ∧ c.classes = 3 ∧
        c.returns = [some (1 / 10), none, none, some (1 / 5), none] ∧ c.labels.length = 5 ∧
        c.Rises ∧ c.Named (.list [.str "low", .str "middle", .str "high"]) := by
  have hvalid : NoErrors (Validation.parameterFaults labeling rated) := noErrors_of_eq_nil rfl
  have hfits : ∀ v, rated.params.get? "num_classes" = some v → fits v = true := by
    rintro _ ⟨rfl⟩
    rfl
  let _ := Backtest.wholeRoots
  obtain ⟨c, period, hc, hclasses, hperiod, -, hreturns, hlen, hrises, hnamed⟩ :=
    classed_rises Backtest.rationalOf hvalid hfits gappedRows
  obtain rfl : (1 : Int) = period := Except.ok.inj hperiod
  refine ⟨hvalid, c, hc, hclasses, hreturns.trans ?_, hlen, hrises, hnamed⟩
  decide +kernel

end Label
end Flowline.Market
