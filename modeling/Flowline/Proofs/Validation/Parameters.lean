import Mathlib.Data.Set.List
import Flowline.Proofs.Catalog.Resolve
import Flowline.Proofs.Data.Record
import Flowline.Proofs.Document.Distinct
import Flowline.Proofs.Validation.Structure

/-!
# Parameters and inputs that pass

What validation lets pass has its required parameters, all known ones of their kinds, and keeps the
rules of its type. For the types that produce frames this is spelled out. Its inputs are as its type
wants them.
-/
namespace Flowline

/-! ### Rules -/

namespace Rule

variable {n : Declaration} {key : String}

theorem whenGiven_noErrors {α : Type} {value : Option α} {ok : α → Bool} {message : α → String}
    (h : NoErrors (whenGiven n key value ok message)) {a : α} (ha : value = some a) :
    ok a = true := by
  subst ha
  by_contra hnot
  have herror := h (bad n key (message a)) (by simp [whenGiven, hnot])
  cases herror

theorem eachItem_noErrors {items : List Value} {ok : Value → Bool} {place : Nat → String}
    {message : String} (h : NoErrors (eachItem n key items ok place message)) {v : Value}
    (hv : v ∈ items) : ok v = true := by
  obtain ⟨i, hi⟩ := exists_mem_zipIdx hv
  by_contra hnot
  have herror := h (bad n (key ++ place i) message)
    (List.mem_filterMap.mpr ⟨(v, i), hi, by simp [hnot]⟩)
  cases herror

end Rule

/-! ### Parameters of one node -/

/-- The parameters are present, of their kinds and by the rules. -/
structure Parametrized (c : Contract) (n : Declaration) : Prop where
  present : ∀ p ∈ c.required, n.params.has p.name = true
  kinds : ∀ key v p, n.params.get? key = some v → c.param? key = some p → p.kind.accepts v = true
  rules : ∀ rule ∈ c.rules, NoErrors (rule n)

namespace Validation

variable {c : Contract} {n : Declaration}

theorem parameterFaults_noErrors (h : NoErrors (parameterFaults c n)) : Parametrized c n := by
  unfold parameterFaults at h
  dsimp only at h
  split at h
  · rename_i hany
    obtain ⟨d, hd, herror⟩ := List.any_eq_true.mp hany
    rw [h d hd] at herror
    cases herror
  · obtain ⟨hfaults, hrules⟩ := noErrors_append.mp h
    obtain ⟨hmissing, hgiven⟩ := noErrors_append.mp hfaults
    refine ⟨fun p hp => ?_, fun key v p hv hp => ?_, fun rule hrule => hrules.of_mem_flatMap hrule⟩
    · by_contra hnot
      have herror := hmissing _
        (List.mem_map_of_mem (List.mem_filter.mpr ⟨hp, by simpa using hnot⟩))
      cases herror
    · by_contra hnot
      have herror := hgiven (((Finding.wrongKind key n.id p.kind v).report.atNode n.id).atField
        (Rule.paramPlace key)) (List.mem_filterMap.mpr
          ⟨(key, v), Fields.get?_mem hv, by simp [givenFault?, hp, hnot]⟩)
      cases herror

theorem parametrized_of_noErrors {catalog : Catalog} {doc : Document} (hs : Structured catalog doc)
    (h : NoErrors (allParameterFaults catalog (untyped catalog doc) doc.nodes)) (hn : n ∈ doc.nodes)
    (hc : catalog.get? n.type = some c) : Parametrized c n := by
  have huntyped : untyped catalog doc = [] := by
    rw [untyped, List.map_eq_nil_iff, List.filter_eq_nil_iff]
    intro m hm
    obtain ⟨k, hk⟩ := hs.known m hm
    simp [Catalog.contains, hk]
  have hnode := h.of_mem_flatMap hn
  rw [huntyped] at hnode
  simp only [List.contains_nil, hc] at hnode
  exact parameterFaults_noErrors (by simpa using hnode)

end Validation

namespace Parametrized

variable {c : Contract} {n : Declaration}

/-- A required parameter is there, and of its kind. -/
theorem required (h : Parametrized c n) {p : ParamSpec} (hp : p ∈ c.required)
    (hparam : c.param? p.name = some p) :
    ∃ v, n.params.get? p.name = some v ∧ p.kind.accepts v = true := by
  obtain ⟨v, hv⟩ := Fields.exists_get?_of_has (h.present p hp)
  exact ⟨v, hv, h.kinds p.name v p hv hparam⟩

end Parametrized

/-! ### Types that produce frames -/

namespace Builtin

variable {n : Declaration}

theorem exists_map_eq {α : Type} {f : α → Value} {vs : List Value} (h : ∀ v ∈ vs, ∃ a, f a = v) :
    ∃ items : List α, items.map f = vs := by
  change vs ∈ Set.range (List.map f)
  rw [Set.range_list_map]
  exact h

theorem exists_map_of_isMap {vs : List Value} (h : ∀ v ∈ vs, v.isMap = true) :
    ∃ rows : List Fields, vs = rows.map .map := by
  obtain ⟨rows, hrows⟩ := exists_map_eq fun v hv => Value.isMap_iff.mp (h v hv)
  exact ⟨rows, hrows.symm⟩

theorem inlineData_rows (h : Parametrized inlineData n) :
    ∃ rows : List Fields, n.params.get? "rows" = some (.list (rows.map .map)) := by
  obtain ⟨v, hv, hkind⟩ := h.required (p := ⟨"rows", .array⟩) (by decide) (by decide)
  cases v with
  | list vs =>
    have hitems : items n.params "rows" = vs := by
      rw [items, hv]
      rfl
    have hrule := (noErrors_append.mp (h.rules inlineRules List.mem_cons_self)).2
    rw [hitems] at hrule
    obtain ⟨rows, rfl⟩ := exists_map_of_isMap fun v hv => Rule.eachItem_noErrors hrule hv
    exact ⟨rows, hv⟩
  | _ => cases hkind

/-- The columns are texts, if any are listed. -/
theorem inlineData_columns (h : Parametrized inlineData n) :
    n.params.get? "columns" = none ∨
      ∃ names, n.params.get? "columns" = some (.strs names) := by
  cases hv : n.params.get? "columns" with
  | none => exact Or.inl rfl
  | some v =>
    have hkind := h.kinds "columns" v ⟨"columns", .array⟩ hv (by decide)
    cases v with
    | list vs =>
      have hrule := (noErrors_append.mp (h.rules inlineRules List.mem_cons_self)).1
      rw [Rule.textList, Declaration.param?, hv] at hrule
      obtain ⟨names, rfl⟩ := exists_map_eq (f := Value.str) fun v hv =>
        Value.isStr_iff.mp (Rule.eachItem_noErrors hrule hv)
      exact Or.inr ⟨names, rfl⟩
    | _ => cases hkind

theorem indicatorRules_noErrors (h : Parametrized indicator n) :
    NoErrors (Rule.oneOf n "indicator" indicators) ∧
    NoErrors (Rule.intInRange n "period" 1 1000) ∧
    NoErrors (Rule.intAtLeast n "fast_period" 1) ∧
    NoErrors (Rule.intAtLeast n "slow_period" 1) ∧
    NoErrors (Rule.intAtLeast n "signal_period" 1) ∧
    NoErrors (Rule.positive n "std_dev") ∧
    (n.text? "indicator" = some "MACD" →
      (n.int? "fast_period").getD 12 < (n.int? "slow_period").getD 26) := by
  have hrules := h.rules indicatorRules List.mem_cons_self
  simp only [indicatorRules, noErrors_append, and_assoc] at hrules
  obtain ⟨hname, hperiod, hfast, hslow, hsignal, hdev, hmacd⟩ := hrules
  refine ⟨hname, hperiod, hfast, hslow, hsignal, hdev, fun htext => ?_⟩
  by_contra hnot
  rw [if_pos ⟨htext, by omega⟩] at hmacd
  cases hmacd _ (List.mem_singleton_self _)

theorem indicator_name (h : Parametrized indicator n) :
    ∃ name ∈ indicators, text? n.params "indicator" = some name := by
  obtain ⟨v, hv, hkind⟩ := h.required (p := ⟨"indicator", .string⟩) (by decide) (by decide)
  cases v with
  | str name =>
    have htext : text? n.params "indicator" = some name := by
      rw [text?, hv]
      rfl
    have hrule := (indicatorRules_noErrors h).1
    exact ⟨name, by simpa using Rule.whenGiven_noErrors hrule htext, htext⟩
  | _ => cases hkind

/-- The value is not an integer above the signed words. -/
def fits : Value → Bool
  | .int k => k ≤ Value.maxSigned
  | _ => true

/-- All integers among the parameters fit a signed word. -/
def IntegersFit (n : Declaration) : Prop := ∀ p ∈ n.params, fits p.2 = true

theorem int?_of_le {key : String} {k : Int} (hv : n.params.get? key = some (.int k))
    (hk : k ≤ Value.maxSigned) : n.int? key = some k := by
  rw [Declaration.int?, Declaration.param?, hv]
  exact if_pos hk

/-- A period among the signed words is in range. -/
theorem indicator_range (h : Parametrized indicator n) :
    ∃ k, n.params.get? "period" = some (.int k) ∧ (k ≤ Value.maxSigned → 1 ≤ k ∧ k ≤ 1000) := by
  obtain ⟨v, hv, hkind⟩ := h.required (p := ⟨"period", .integer⟩) (by decide) (by decide)
  cases v with
  | int k =>
    refine ⟨k, hv, fun hk => ?_⟩
    have hrule := (indicatorRules_noErrors h).2.1
    have hrange := Rule.whenGiven_noErrors hrule (int?_of_le hv hk)
    simpa using hrange
  | _ => cases hkind

theorem indicator_period (h : Parametrized indicator n) (hfit : IntegersFit n) :
    ∃ period : Nat, n.params.get? "period" = some (.int period) ∧ 0 < period ∧
      (period : Int) ≤ Value.maxSigned := by
  obtain ⟨k, hv, hrange⟩ := indicator_range h
  have hk : k ≤ Value.maxSigned := of_decide_eq_true (hfit _ (Fields.get?_mem hv))
  obtain ⟨hlow, -⟩ := hrange hk
  obtain ⟨period, rfl⟩ := Int.eq_ofNat_of_zero_le (show 0 ≤ k by omega)
  exact ⟨period, hv, by omega, hk⟩

theorem aggregationFaults_noErrors {place : String} {obj : Fields}
    (h : NoErrors (aggregationFaults n place obj)) :
    ∃ op ∈ aggregateOps, (obj.get? "op").bind Value.asStr? = some op := by
  have hop := (noErrors_append.mp h).1
  cases htext : (obj.get? "op").bind Value.asStr? with
  | none =>
    rw [htext] at hop
    cases hop _ (List.mem_singleton_self _)
  | some op =>
    by_cases hmem : aggregateOps.contains op = true
    · exact ⟨op, by simpa using hmem, rfl⟩
    · rw [htext] at hop
      simp only [hmem, Bool.false_eq_true, if_false] at hop
      cases hop _ (List.mem_singleton_self _)

/-- Every aggregation that passes has a known operation. -/
theorem aggregationsFaults_noErrors {i : Nat} {seen : List String} {specs : List Value}
    (h : NoErrors (aggregationsFaults n i seen specs)) {spec : Value} (hspec : spec ∈ specs) :
    ∃ op ∈ aggregateOps, (spec.get? "op").bind Value.asStr? = some op := by
  induction specs generalizing i seen with
  | nil => simp at hspec
  | cons agg rest ih =>
    unfold aggregationsFaults at h
    cases agg with
    | map obj =>
      dsimp only at h
      obtain ⟨hhere, hrest⟩ := noErrors_append.mp h
      rcases List.mem_cons.mp hspec with rfl | hspec
      · exact aggregationFaults_noErrors (noErrors_append.mp hhere).1
      · exact ih hrest hspec
    | _ => cases h _ List.mem_cons_self

/-- The columns of aggregations that pass are new, and no two of them are the same. -/
theorem aggregationsFaults_nodup {i : Nat} {seen : List String} {specs : List Value}
    (h : NoErrors (aggregationsFaults n i seen specs)) (hseen : seen.Nodup) :
    (seen ++ specs.filterMap aggregationColumn?).Nodup := by
  induction specs generalizing i seen with
  | nil => simpa using hseen
  | cons agg rest ih =>
    unfold aggregationsFaults at h
    cases agg with
    | map obj =>
      dsimp only at h
      cases hname : aggregationColumn? (.map obj) with
      | none =>
        rw [hname] at h
        rw [List.filterMap_cons_none hname]
        exact ih (noErrors_append.mp h).2 hseen
      | some name =>
        rw [hname] at h
        rw [List.filterMap_cons_some hname]
        by_cases hmem : name ∈ seen
        · have hrepeated := (noErrors_append.mp (noErrors_append.mp h).1).2
          simp only [List.contains_iff_mem.mpr hmem, if_true] at hrepeated
          cases hrepeated _ (List.mem_singleton_self _)
        · have hrest := (noErrors_append.mp h).2
          simp only [List.contains_iff_mem, hmem, if_false] at hrest
          have hseen' : (seen ++ [name]).Nodup := by
            rw [← List.concat_eq_append]
            exact List.Nodup.concat hmem hseen
          have hnext := ih hrest hseen'
          simpa using hnext
    | _ => cases h _ List.mem_cons_self

theorem aggregate_nodup (h : Parametrized aggregate n) :
    (aggregateOutput n.params).columns.Nodup := by
  have hrule := (noErrors_append.mp (h.rules aggregateRules List.mem_cons_self)).2
  have hgroup : (n.text? "group_by").toList.Nodup := by
    cases n.text? "group_by" with
    | none => exact List.nodup_nil
    | some c => exact List.nodup_singleton c
  exact aggregationsFaults_nodup hrule hgroup

theorem aggregate_specs (h : Parametrized aggregate n) :
    ∃ specs, n.params.get? "aggregations" = some (.list specs) ∧ ∀ spec ∈ specs,
      ∃ op ∈ aggregateOps, (spec.get? "op").bind Value.asStr? = some op := by
  obtain ⟨v, hv, hkind⟩ := h.required (p := ⟨"aggregations", .array⟩) (by decide) (by decide)
  cases v with
  | list specs =>
    have hitems : items n.params "aggregations" = specs := by
      rw [items, hv]
      rfl
    have hrule := (noErrors_append.mp (h.rules aggregateRules List.mem_cons_self)).2
    rw [hitems] at hrule
    exact ⟨specs, hv, fun spec hspec => aggregationsFaults_noErrors hrule hspec⟩
  | _ => cases hkind

end Builtin
end Flowline

/-! ### Inputs -/

namespace Flowline.Validation

variable {catalog : Catalog} {nodes : List Declaration} {rank : String → Nat} {c : Contract}
  {n : Declaration}

/-- The faults in the inputs of a node, its dependencies having the schemas of the document. -/
def faultsOf (catalog : Catalog) (nodes : List Declaration) (n : Declaration) : List Diagnostic :=
  match catalog.get? n.type with
  | none => []
  | some c =>
    if c.isSource then
      if n.dependencies.isEmpty then []
      else [atDependencies n (.sourceWithInputs n.id n.type n.dependencies)]
    else inputFaults c n (n.dependencies.map fun d => (d, catalog.schemaOf nodes d))

theorem compatibilityFaults_yields (hr : Ranked nodes rank) (n : Declaration) :
    Yields (Resolver.Remembers catalog nodes) (compatibilityFaults catalog n)
      (· = faultsOf catalog nodes n) := by
  unfold compatibilityFaults faultsOf
  cases catalog.get? n.type with
  | none => exact .pure rfl
  | some c =>
    dsimp only
    by_cases hsource : c.isSource = true
    · rw [if_pos hsource, if_pos hsource]
      exact .pure rfl
    · rw [if_neg hsource, if_neg hsource]
      refine .bind (Resolver.resolveAll_yields hr _) fun schemas hschemas => .pure ?_
      rw [hschemas]
      exact congrArg (inputFaults c n) (by
        simpa using List.zip_map' (f := fun s : String => s) (g := catalog.schemaOf nodes)
          (l := n.dependencies))

theorem allCompatibilityFaults_eq {doc : Document} (hr : Ranked doc.nodes rank) :
    allCompatibilityFaults catalog doc = doc.nodes.flatMap (faultsOf catalog doc.nodes) := by
  have hall := (Yields.mapM_eq (fun n (_ : n ∈ doc.nodes) => compatibilityFaults_yields hr n) _
    (Resolver.remembers_initial catalog doc.nodes)).1
  unfold allCompatibilityFaults
  dsimp only
  rw [hall, List.flatMap_def]

theorem inputFaults_count {inputs : List (String × Schema)}
    (h : NoErrors (inputFaults c n inputs)) :
    c.input.arity.contains inputs.length = true := by
  by_contra hnot
  have herror := (noErrors_append.mp (noErrors_append.mp h).1).1
    (atDependencies n (.inputCount n.id n.type c.input.arity inputs.length)) (by simp [hnot])
  cases herror

theorem inputFaults_single {d : String} {s : Schema} (h : NoErrors (inputFaults c n [(d, s)])) :
    c.input.accepts s.shape = true ∧
      (s.isOpen = false → ∀ col ∈ c.input.requiredColumns n.params, col ∈ s.columns) := by
  obtain ⟨hfaults, hcolumns⟩ := noErrors_append.mp h
  have hoffer : offer c n [(d, s)] = Offer.add c n {} 0 d s := rfl
  have haccepts : c.input.accepts s.shape = true := by
    by_contra hnot
    have herror := (noErrors_append.mp hfaults).2
      (((Finding.wrongShape n.id c.input.accepted d s.shape).report.atNode n.id).atField
        "depends_on[0]") (by simp [hoffer, Offer.add, hnot]; rfl)
    cases herror
  refine ⟨haccepts, fun hclosed col hcol => ?_⟩
  have hadd : offer c n [(d, s)] = { columns := s.columns, closed := true, inputs := 1 } := by
    rw [hoffer, Offer.add, if_pos haccepts]
    simp [hclosed]
  by_contra hnot
  have hmissing : col ∈
      (c.input.requiredColumns n.params).filter fun col => !s.columns.contains col :=
    List.mem_filter.mpr ⟨hcol, by simpa using hnot⟩
  unfold columnFaults at hcolumns
  rw [hadd] at hcolumns
  dsimp only at hcolumns
  rw [if_neg (by simpa using ⟨col, hcol, hnot⟩)] at hcolumns
  cases hcolumns _ (List.mem_singleton_self _)

/-- A node that takes one input has one, of a shape that it accepts, and with the columns that it
requires if the columns of the input are known. -/
theorem single_input (hnode : NoErrors (faultsOf catalog nodes n))
    (hc : catalog.get? n.type = some c)
    (harity : c.input.arity = .exactly 1) : ∃ d, n.dependencies = [d] ∧
      c.input.accepts (catalog.schemaOf nodes d).shape = true ∧
      ((catalog.schemaOf nodes d).isOpen = false →
        ∀ col ∈ c.input.requiredColumns n.params, col ∈ (catalog.schemaOf nodes d).columns) := by
  have hsource : ¬ c.isSource = true := by
    rw [Contract.isSource, harity]
    decide
  unfold faultsOf at hnode
  rw [hc] at hnode
  dsimp only at hnode
  rw [if_neg hsource] at hnode
  have hcount := inputFaults_count hnode
  have hlength : n.dependencies.length = 1 := by
    simp only [harity, Arity.exactly, Arity.contains, List.length_map, Option.all_some,
      Bool.and_eq_true, decide_eq_true_eq] at hcount
    omega
  obtain ⟨d, hd⟩ := List.length_eq_one_iff.mp hlength
  rw [hd] at hnode
  exact ⟨d, hd, inputFaults_single hnode⟩

end Flowline.Validation
