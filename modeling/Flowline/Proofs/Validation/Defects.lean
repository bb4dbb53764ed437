import Flowline.Proofs.Json.Reading
import Flowline.Proofs.Validation.Parameters

/-!
# One diagnostic for each defect

A required parameter that is absent, a given one of another kind and a given one that is not
declared are each reported, and then no rule runs on the parameters. Each is reported once, unless
a contract declares a name twice, as those of the platform never do.
-/
namespace Flowline

/-! ### What rules report -/

namespace Rule

/-- Broken rules, on one parameter or between parameters. -/
def Broken (ds : List Diagnostic) : Prop := ∀ d ∈ ds, d.code = "E203" ∨ d.code = "E204"

variable {n : Declaration} {key : String}

@[simp] theorem broken_nil : Broken [] := List.forall_mem_nil _

@[simp] theorem broken_cons {d : Diagnostic} {ds : List Diagnostic} :
    Broken (d :: ds) ↔ (d.code = "E203" ∨ d.code = "E204") ∧ Broken ds := List.forall_mem_cons

@[simp] theorem broken_append {ds es : List Diagnostic} :
    Broken (ds ++ es) ↔ Broken ds ∧ Broken es := List.forall_mem_append

@[simp] theorem broken_ite {p : Prop} [Decidable p] {ds es : List Diagnostic} (hds : Broken ds)
    (hes : Broken es) : Broken (if p then ds else es) := by
  split <;> assumption

@[simp] theorem code_bad (path message : String) : (bad n path message).code = "E203" := rfl

@[simp] theorem code_conflict (path message : String) : (conflict n path message).code = "E204" :=
  rfl

@[simp] theorem broken_map_conflict {paths : List String} {message : String → String} :
    Broken (paths.map fun path => conflict n path (message path)) := by
  intro d hd
  obtain ⟨path, -, rfl⟩ := List.mem_map.mp hd
  exact Or.inr rfl

@[simp] theorem broken_whenGiven {α : Type} {value : Option α} {ok : α → Bool}
    {message : α → String} : Broken (whenGiven n key value ok message) := by
  unfold whenGiven
  split
  · split <;> simp
  · exact broken_nil

@[simp] theorem broken_eachItem {items : List Value} {ok : Value → Bool} {place : Nat → String}
    {message : String} : Broken (eachItem n key items ok place message) := by
  intro d hd
  obtain ⟨⟨v, i⟩, -, hvi⟩ := List.mem_filterMap.mp hd
  dsimp only at hvi
  split at hvi
  · cases hvi
  · obtain rfl := Option.some.inj hvi
    exact Or.inl rfl

@[simp] theorem broken_nonEmptyList : Broken (nonEmptyList n key) := by
  unfold nonEmptyList
  split <;> simp

@[simp] theorem broken_textList : Broken (textList n key) := by
  unfold textList
  split <;> simp

end Rule

namespace Builtin

open Rule

variable (n : Declaration)

theorem broken_inlineRules : Broken (inlineRules n) := by
  simp [inlineRules]

theorem broken_loaderRules : Broken (loaderRules n) := by
  unfold loaderRules
  simp only [oneOf, broken_append, broken_whenGiven, broken_textList, and_true, true_and]
  split
  · split <;> simp
  · exact broken_nil

theorem broken_indicatorRules : Broken (indicatorRules n) := by
  simp [indicatorRules, oneOf, intInRange, intAtLeast, positive, periodConflict]

theorem broken_crossoverRules : Broken (crossoverRules n) := by
  unfold crossoverRules
  simp only [intAtLeast, broken_append, broken_whenGiven, true_and]
  refine ⟨⟨?_, broken_map_conflict⟩, ?_⟩
  · simp [periodConflict]
  · split
    · split <;> simp
    · exact broken_nil

theorem broken_featureRules : Broken (featureRules n) := by
  simp [featureRules, intAtLeast, oneOf]

theorem broken_forwardRules : Broken (forwardRules n) := by
  unfold forwardRules
  split <;> simp [intAtLeast]

theorem broken_classRules : Broken (classRules n) := by
  unfold classRules
  split
  · dsimp only
    split <;> simp
  · exact broken_nil

theorem broken_labelingRules : Broken (labelingRules n) := by
  simp [labelingRules, oneOf, positive, intAtLeast, fraction, broken_forwardRules,
    broken_classRules]

theorem broken_backtestRules : Broken (backtestRules n) := by
  simp [backtestRules, positive, nonNegative, fraction, intAtLeast]

theorem broken_aggregationFaults (place : String) (obj : Fields) :
    Broken (aggregationFaults n place obj) := by
  unfold aggregationFaults
  dsimp only
  refine broken_append.mpr ⟨?_, by simp⟩
  split
  · simp
  · simp

theorem broken_aggregationsFaults (i : Nat) (seen : List String) (specs : List Value) :
    Broken (aggregationsFaults n i seen specs) := by
  induction specs generalizing i seen with
  | nil => exact broken_nil
  | cons agg rest ih =>
    unfold aggregationsFaults
    dsimp only
    split
    · split
      · split
        · simp [broken_aggregationFaults, ih]
        · simp [broken_aggregationFaults, ih]
      · simp [broken_aggregationFaults, ih]
    · simp [ih]

theorem broken_aggregateRules : Broken (aggregateRules n) := by
  simp [aggregateRules, broken_aggregationsFaults]

theorem broken_scriptRules : Broken (scriptRules n) := by
  simp [scriptRules, oneOf]

theorem broken_rules {c : Contract} (hc : c ∈ contracts) {rule : Rule} (hrule : rule ∈ c.rules) :
    Broken (rule n) := by
  simp only [contracts, List.mem_cons, List.not_mem_nil, or_false] at hc
  obtain rfl | rfl | rfl | rfl | rfl | rfl | rfl | rfl | rfl | rfl := hc <;>
    obtain rfl := List.mem_singleton.mp hrule
  · exact broken_inlineRules n
  · exact broken_loaderRules n
  · exact broken_indicatorRules n
  · exact broken_crossoverRules n
  · exact broken_featureRules n
  · exact broken_labelingRules n
  · exact broken_backtestRules n
  · exact broken_aggregateRules n
  · exact broken_scriptRules n
  · exact broken_scriptRules n

end Builtin

/-! ### The contracts of a catalog -/

namespace Catalog

variable {type : String} {k : Contract}

theorem mem_contracts_of_get?_builtin (h : builtin.get? type = some k) : k ∈ Builtin.contracts :=
  builtin_contracts ▸ List.mem_of_find?_eq_some h

/-- Custom types have no rules, and those of the platform report nothing but broken ones. -/
theorem broken_of_get?_registerCustom (r : Registry)
    (h : (builtin.registerCustom r).1.get? type = some k) {rule : Rule} (hrule : rule ∈ k.rules)
    (n : Declaration) : Rule.Broken (rule n) := by
  rcases of_get?_registerCustom r h with hbuiltin | ⟨-, d, rfl⟩
  · exact Builtin.broken_rules n (mem_contracts_of_get?_builtin hbuiltin) hrule
  · cases hrule

end Catalog

namespace Validation

variable {c : Contract} {n : Declaration} {name : String}

/-- What is found in the parameters before any rule runs. -/
def plainFaults (c : Contract) (n : Declaration) : List Diagnostic :=
  missingFaults c n ++ givenFaults c n

/-- What can be found there: the diagnostics with all that they say. -/
inductive Plain (c : Contract) (n : Declaration) : Diagnostic → Prop
  | missing {p : ParamSpec} (hp : p ∈ c.required) (habsent : n.params.has p.name = false) :
      Plain c n (((Finding.missingParameter p.name n.type n.id).report.atNode n.id).atField
        (Rule.paramPlace p.name))
  | wrongKind {name : String} {p : ParamSpec} {v : Value} (hp : c.param? name = some p)
      (hv : n.params.get? name = some v) (hkind : p.kind.accepts v = false) :
      Plain c n (((Finding.wrongKind name n.id p.kind v).report.atNode n.id).atField
        (Rule.paramPlace name))
  | unknown {name : String} (hp : c.param? name = none) (hv : n.params.has name = true) :
      Plain c n (((Finding.unknownParameter name n.type n.id).report.atNode n.id).atField
        (Rule.paramPlace name))

/-- How many of the diagnostics have the code and are about the parameter. -/
def number (code name : String) (ds : List Diagnostic) : Nat :=
  ds.countP fun d => d.code == code && d.field == some (Rule.paramPlace name)

/-! ### Defects -/

/-- A required parameter is absent. -/
def lacks (c : Contract) (n : Declaration) (name : String) : Bool :=
  c.required.any (·.name == name) && !n.params.has name

/-- A parameter is given that is declared with a kind which its value is not of. -/
def mistypes (c : Contract) (n : Declaration) (name : String) : Bool :=
  (n.params.get? name).any fun v =>
    (c.required ++ c.optional).any fun p => p.name == name && !p.kind.accepts v

/-- A parameter is given that is not declared. -/
def invents (c : Contract) (n : Declaration) (name : String) : Bool :=
  n.params.has name && !(c.required ++ c.optional).any (·.name == name)

/-- There is one diagnostic for each defect, and none without one. -/
structure Exact (c : Contract) (n : Declaration) (ds : List Diagnostic) : Prop where
  lacking : ∀ name, number "E201" name ds = (lacks c n name).toNat
  mistyped : ∀ name, number "E202" name ds = (mistypes c n name).toNat
  invented : ∀ name, number "W201" name ds = (invents c n name).toNat

/-- A name is declared twice, and this matters to the node: an absent parameter is required twice,
or the first declaration of a given one accepts what a later one does not. -/
def Ambiguous (c : Contract) (n : Declaration) : Prop :=
  (∃ name, n.params.has name = false ∧ 1 < (c.required.map (·.name)).count name) ∨
  ∃ name p v, c.param? name = some p ∧ n.params.get? name = some v ∧ p.kind.accepts v = true ∧
    mistypes c n name = true

/-! ### Counting -/

theorem paramPlace_inj {a b : String} : Rule.paramPlace a = Rule.paramPlace b ↔ a = b := by
  refine ⟨fun h => ?_, congrArg Rule.paramPlace⟩
  have hlist := congrArg String.toList h
  simp only [Rule.paramPlace, String.toList_append, List.append_cancel_left_eq] at hlist
  exact String.toList_inj.mp hlist

theorem number_append (code name : String) (ds es : List Diagnostic) :
    number code name (ds ++ es) = number code name ds + number code name es :=
  List.countP_append

theorem number_eq_zero {code : String} {ds : List Diagnostic} (h : ∀ d ∈ ds, d.code ≠ code) :
    number code name ds = 0 := by
  refine List.countP_eq_zero.mpr fun d hd => ?_
  simp [h d hd]

theorem number_missingFaults (c : Contract) (n : Declaration) (name : String) :
    number "E201" name (missingFaults c n) =
      if n.params.has name then 0 else (c.required.map (·.name)).count name := by
  have hcount : number "E201" name (missingFaults c n) =
      c.required.countP fun p => p.name == name && !n.params.has p.name := by
    rw [number, missingFaults, List.countP_map, List.countP_filter]
    refine List.countP_congr fun p _ => ?_
    simp [Finding.report, Finding.code, Diagnostic.atField, Diagnostic.atNode, paramPlace_inj]
  rw [hcount, List.count_eq_countP, List.countP_map]
  split
  · rename_i hhas
    refine List.countP_eq_zero.mpr fun p _ => ?_
    simp only [Bool.and_eq_true, beq_iff_eq, Bool.not_eq_true', not_and, Bool.not_eq_false]
    rintro rfl
    exact hhas
  · rename_i hhas
    refine List.countP_congr fun p _ => ?_
    simp only [Bool.and_eq_true, beq_iff_eq, Bool.not_eq_true', Function.comp_apply,
      and_iff_left_iff_imp]
    rintro rfl
    simpa using hhas

theorem code_of_mem_missingFaults {d : Diagnostic} (hd : d ∈ missingFaults c n) :
    d.code = "E201" := by
  obtain ⟨p, -, rfl⟩ := List.mem_map.mp hd
  rfl

/-- What is said of a given parameter has to do with the first declaration of its name. -/
theorem code_givenFault? (c : Contract) (n : Declaration) (name : String) (v : Value) :
    (givenFault? c n name v).map (·.code) = match c.param? name with
      | none => some "W201"
      | some p => if p.kind.accepts v then none else some "E202" := by
  unfold givenFault?
  cases c.param? name with
  | none => rfl
  | some p =>
    dsimp only
    split <;> rfl

theorem field_givenFault? {v : Value} {d : Diagnostic} (hd : givenFault? c n name v = some d) :
    d.field = some (Rule.paramPlace name) := by
  unfold givenFault? at hd
  dsimp only at hd
  split at hd
  · exact Option.some.inj hd ▸ rfl
  · split at hd
    · cases hd
    · exact Option.some.inj hd ▸ rfl

/-- A given parameter has one diagnostic at most, and that is about it. -/
theorem number_givenFaults (h : n.params.keys.Nodup) (code : String) :
    number code name (givenFaults c n) = ((n.params.get? name).any fun v =>
      (givenFault? c n name v).map (·.code) == some code).toNat := by
  rw [← Fields.countP_eq h, number, givenFaults, List.countP_filterMap]
  refine List.countP_congr fun f _ => ?_
  obtain ⟨key, v⟩ := f
  by_cases hkey : key = name
  · subst hkey
    cases hd : givenFault? c n key v with
    | none => simp [hd]
    | some d => simp [hd, field_givenFault? hd]
  · cases hd : givenFault? c n key v with
    | none => simp [hd, hkey]
    | some d => simp [hd, hkey, field_givenFault? hd, paramPlace_inj]

theorem number_lacking (h : n.params.keys.Nodup) :
    number "E201" name (plainFaults c n) =
      if n.params.has name then 0 else (c.required.map (·.name)).count name := by
  have hgiven : number "E201" name (givenFaults c n) = 0 := by
    rw [number_givenFaults h]
    simp only [code_givenFault?]
    cases n.params.get? name with
    | none => rfl
    | some v =>
      cases c.param? name with
      | none => rfl
      | some p => cases hv : p.kind.accepts v <;> simp [hv]
  rw [plainFaults, number_append, number_missingFaults, hgiven, Nat.add_zero]

/-- Of several declarations of a name the first one counts. -/
theorem number_mistyped (h : n.params.keys.Nodup) :
    number "E202" name (plainFaults c n) = ((n.params.get? name).any fun v =>
      (c.param? name).any fun p => !p.kind.accepts v).toNat := by
  have hmissing : number "E202" name (missingFaults c n) = 0 :=
    number_eq_zero fun d hd => by simp [code_of_mem_missingFaults hd]
  rw [plainFaults, number_append, hmissing, Nat.zero_add, number_givenFaults h]
  simp only [code_givenFault?]
  cases c.param? name with
  | none => rfl
  | some p =>
    refine congrArg (fun q => (Option.any q (n.params.get? name)).toNat) (funext fun v => ?_)
    cases hv : p.kind.accepts v
    · simp [hv]
    · simp [hv]

theorem number_invented (h : n.params.keys.Nodup) :
    number "W201" name (plainFaults c n) = (invents c n name).toNat := by
  have hmissing : number "W201" name (missingFaults c n) = 0 :=
    number_eq_zero fun d hd => by simp [code_of_mem_missingFaults hd]
  have hparam : (c.param? name).isNone = !(c.required ++ c.optional).any (·.name == name) := by
    rw [Contract.param?, Bool.eq_iff_iff]
    simp [List.find?_eq_none]
  rw [plainFaults, number_append, hmissing, Nat.zero_add, number_givenFaults h, invents, ← hparam,
    Fields.has_eq_isSome]
  simp only [code_givenFault?]
  cases n.params.get? name with
  | none => rfl
  | some v =>
    cases c.param? name with
    | none => rfl
    | some p => cases hv : p.kind.accepts v <;> simp [hv]

/-! ### Exactness -/

theorem mistypes_iff : mistypes c n name = true ↔ ∃ v, n.params.get? name = some v ∧
    ∃ p ∈ c.required ++ c.optional, p.name = name ∧ p.kind.accepts v = false := by
  simp only [mistypes, Option.any_eq_true, List.any_eq_true, Bool.and_eq_true, beq_iff_eq,
    Bool.not_eq_true']

theorem mem_of_param? {p : ParamSpec} (hp : c.param? name = some p) :
    p ∈ c.required ++ c.optional ∧ p.name = name :=
  ⟨List.mem_of_find?_eq_some hp, by simpa using List.find?_some hp⟩

theorem exists_param? {p : ParamSpec} (hp : p ∈ c.required ++ c.optional) :
    ∃ q, c.param? p.name = some q :=
  Option.isSome_iff_exists.mp (List.find?_isSome.mpr ⟨p, hp, beq_self_eq_true _⟩)

/-- The first declaration of a name decides, if no later one matters. -/
theorem mistypes_eq (hclear : ¬ Ambiguous c n) : mistypes c n name =
    (n.params.get? name).any fun v => (c.param? name).any fun p => !p.kind.accepts v := by
  rw [Bool.eq_iff_iff, mistypes_iff]
  simp only [Option.any_eq_true, Bool.not_eq_true']
  constructor
  · rintro ⟨v, hv, q, hq, rfl, hkind⟩
    obtain ⟨p, hp⟩ := exists_param? hq
    refine ⟨v, hv, p, hp, Bool.eq_false_iff.mpr fun haccepts => ?_⟩
    have hmistypes := mistypes_iff.mpr ⟨v, hv, q, hq, rfl, hkind⟩
    exact hclear (Or.inr ⟨q.name, p, v, hp, hv, haccepts, hmistypes⟩)
  · rintro ⟨v, hv, p, hp, hkind⟩
    obtain ⟨hmem, hname⟩ := mem_of_param? hp
    exact ⟨v, hv, p, hmem, hname, hkind⟩

theorem lacks_toNat (hclear : ¬ Ambiguous c n) : (lacks c n name).toNat =
    if n.params.has name then 0 else (c.required.map (·.name)).count name := by
  rw [lacks]
  cases habsent : n.params.has name with
  | true => simp
  | false =>
    have hle : (c.required.map (·.name)).count name ≤ 1 := by
      by_contra hnot
      exact hclear (Or.inl ⟨name, habsent, Nat.lt_of_not_le hnot⟩)
    cases hany : c.required.any (·.name == name) with
    | true =>
      have hpos : 0 < (c.required.map (·.name)).count name :=
        List.count_pos_iff.mpr (by simpa using hany)
      simpa using Nat.le_antisymm hpos hle
    | false =>
      have hzero : (c.required.map (·.name)).count name = 0 :=
        List.count_eq_zero.mpr (by simpa using hany)
      simp [hzero]

/-- There is one diagnostic for each defect exactly if no repeated declaration matters. -/
theorem exact_plainFaults_iff (h : n.params.keys.Nodup) :
    Exact c n (plainFaults c n) ↔ ¬ Ambiguous c n := by
  constructor
  · rintro hexact (⟨name, habsent, htwice⟩ | ⟨name, p, v, hp, hv, haccepts, hmistypes⟩)
    · have hlacking := hexact.lacking name
      rw [number_lacking h, if_neg (by simp [habsent])] at hlacking
      have := Bool.toNat_le (lacks c n name)
      omega
    · have hmistyped := hexact.mistyped name
      rw [number_mistyped h, hmistypes, hp, hv] at hmistyped
      simp [haccepts] at hmistyped
  · intro hclear
    refine ⟨fun name => ?_, fun name => ?_, fun name => number_invented h⟩
    · rw [number_lacking h, lacks_toNat hclear]
    · rw [number_mistyped h, mistypes_eq hclear]

theorem not_ambiguous (h : ((c.required ++ c.optional).map (·.name)).Nodup) (n : Declaration) :
    ¬ Ambiguous c n := by
  rintro (⟨name, -, htwice⟩ | ⟨name, p, v, hp, hv, haccepts, hmistypes⟩)
  · rw [List.map_append] at h
    have := List.nodup_iff_count_le_one.mp (List.nodup_append.mp h).1 name
    omega
  · obtain ⟨w, hw, q, hq, hname, hkind⟩ := mistypes_iff.mp hmistypes
    obtain ⟨hmem, hfirst⟩ := mem_of_param? hp
    obtain rfl := List.inj_on_of_nodup_map h hmem hq (hfirst.trans hname.symm)
    obtain rfl := Option.some.inj (hv.symm.trans hw)
    exact Bool.noConfusion (haccepts.symm.trans hkind)

/-! ### One node -/

theorem plain_of_mem {d : Diagnostic} (h : n.params.keys.Nodup) (hd : d ∈ plainFaults c n) :
    Plain c n d := by
  rcases List.mem_append.mp hd with hd | hd
  · obtain ⟨p, hp, rfl⟩ := List.mem_map.mp hd
    obtain ⟨hrequired, habsent⟩ := List.mem_filter.mp hp
    exact .missing hrequired (by simpa using habsent)
  · obtain ⟨⟨key, v⟩, hv, hd⟩ := List.mem_filterMap.mp hd
    have hget : n.params.get? key = some v := Fields.get?_of_mem h hv
    dsimp only at hd
    unfold givenFault? at hd
    dsimp only at hd
    split at hd
    · rename_i hnone
      obtain rfl := Option.some.inj hd
      exact .unknown hnone (by rw [Fields.has_eq_isSome, hget, Option.isSome_some])
    · rename_i p hp
      split at hd
      · cases hd
      · rename_i hkind
        obtain rfl := Option.some.inj hd
        exact .wrongKind hp hget (Bool.eq_false_iff.mpr hkind)

theorem Plain.isError_eq {d : Diagnostic} (h : Plain c n d) :
    d.isError = (d.code == "E201" || d.code == "E202") := by
  cases h <;> rfl

theorem Exact.of_number_eq {ds es : List Diagnostic} (h : Exact c n ds)
    (hnumber : ∀ code ∈ ["E201", "E202", "W201"], ∀ name,
      number code name es = number code name ds) : Exact c n es where
  lacking name := (hnumber _ (by simp) name).trans (h.lacking name)
  mistyped name := (hnumber _ (by simp) name).trans (h.mistyped name)
  invented name := (hnumber _ (by simp) name).trans (h.invented name)

/-- Broken rules are no such defects. -/
theorem exact_append_iff {ds es : List Diagnostic} (h : Rule.Broken es) :
    Exact c n (ds ++ es) ↔ Exact c n ds := by
  have hnumber : ∀ code ∈ ["E201", "E202", "W201"], ∀ name,
      number code name (ds ++ es) = number code name ds := by
    intro code hcode name
    have hzero : number code name es = 0 := by
      refine number_eq_zero fun d hd => ?_
      rintro rfl
      rcases h d hd with hd | hd <;> simp [hd] at hcode
    rw [number_append, hzero, Nat.add_zero]
  exact ⟨fun hexact => hexact.of_number_eq fun code hcode name => (hnumber code hcode name).symm,
    fun hexact => hexact.of_number_eq hnumber⟩

theorem parameterFaults_eq (h : n.params.keys.Nodup) : parameterFaults c n = plainFaults c n ++
    if (plainFaults c n).any fun d => d.code == "E201" || d.code == "E202" then []
    else c.rules.flatMap (· n) := by
  have herrors : (plainFaults c n).any (·.isError) =
      (plainFaults c n).any fun d => d.code == "E201" || d.code == "E202" := by
    rw [Bool.eq_iff_iff, List.any_eq_true, List.any_eq_true]
    exact exists_congr fun d => and_congr_right fun hd => by rw [(plain_of_mem h hd).isError_eq]
  rw [← herrors]
  change (if (plainFaults c n).any (·.isError) = true then plainFaults c n
    else plainFaults c n ++ c.rules.flatMap (· n)) = _
  split
  · rw [List.append_nil]
  · rfl

theorem allParameterFaults_append (catalog : Catalog) (skip : List String)
    (nodes others : List Declaration) : allParameterFaults catalog skip (nodes ++ others) =
      allParameterFaults catalog skip nodes ++ allParameterFaults catalog skip others :=
  List.flatMap_append

theorem allParameterFaults_skipped {catalog : Catalog} {skip : List String} (h : n.id ∈ skip) :
    allParameterFaults catalog skip [n] = [] := by
  simp [allParameterFaults, h]

theorem allParameterFaults_single {catalog : Catalog} {skip : List String} (h : n.id ∉ skip)
    (hc : catalog.get? n.type = some c) :
    allParameterFaults catalog skip [n] = parameterFaults c n := by
  simp [allParameterFaults, h, hc]

theorem not_ambiguous_of_builtin {r : Registry}
    (hc : (Catalog.builtin.registerCustom r).1.get? n.type = some c)
    (h : Catalog.builtin.contains n.type = true) : ¬ Ambiguous c n := by
  have honce : ∀ c ∈ Builtin.contracts, ((c.required ++ c.optional).map (·.name)).Nodup := by
    decide +kernel
  rcases Catalog.of_get?_registerCustom r hc with hbuiltin | ⟨hnot, -⟩
  · exact not_ambiguous (honce c (Catalog.mem_contracts_of_get?_builtin hbuiltin)) n
  · rw [h] at hnot
    cases hnot

/-- What is said of the parameters of a document is what is said of one node after the other. A node
that is skipped has nothing to say. For another one of a known type, with any parameters, come
first the plain faults, and after them what the rules of its type report if no error is among
those. There is one plain fault for each defect exactly if no repeated declaration matters to the
node, and there is none where each name is declared once. With the types of the platform and any
custom types the rules add no such fault; and the types of the platform declare each name once. -/
theorem parameters_exact_unless_ambiguous (catalog : Catalog) (skip : List String) :
    (∀ nodes others, allParameterFaults catalog skip (nodes ++ others) =
      allParameterFaults catalog skip nodes ++ allParameterFaults catalog skip others) ∧
    (∀ n, n.id ∈ skip → allParameterFaults catalog skip [n] = []) ∧
    ∀ n c, n.id ∉ skip → catalog.get? n.type = some c → n.params.keys.Nodup →
      (∀ d ∈ plainFaults c n, Plain c n d) ∧
      allParameterFaults catalog skip [n] = plainFaults c n ++
        (if (plainFaults c n).any fun d => d.code == "E201" || d.code == "E202" then []
          else c.rules.flatMap (· n)) ∧
      (Exact c n (plainFaults c n) ↔ ¬ Ambiguous c n) ∧
      (((c.required ++ c.optional).map (·.name)).Nodup → ¬ Ambiguous c n) ∧
      ∀ r, catalog = (Catalog.builtin.registerCustom r).1 →
        (Exact c n (allParameterFaults catalog skip [n]) ↔ ¬ Ambiguous c n) ∧
        (Catalog.builtin.contains n.type = true → ¬ Ambiguous c n) := by
  refine ⟨allParameterFaults_append catalog skip, fun n => allParameterFaults_skipped,
    fun n c hskip hc hkeys => ?_⟩
  have hall := (allParameterFaults_single hskip hc).trans (parameterFaults_eq hkeys)
  refine ⟨fun d => plain_of_mem hkeys, hall, exact_plainFaults_iff hkeys,
    fun honce => not_ambiguous honce n, ?_⟩
  rintro r rfl
  refine ⟨?_, not_ambiguous_of_builtin hc⟩
  rw [hall, ← exact_plainFaults_iff hkeys]
  refine exact_append_iff ?_
  split
  · exact Rule.broken_nil
  · intro d hd
    obtain ⟨rule, hrule, hd⟩ := List.mem_flatMap.mp hd
    exact Catalog.broken_of_get?_registerCustom r hc hrule n d hd

/-- An indicator without a period, of a wrong kind, and with a parameter that is not declared. -/
def colouredIndicator : Declaration where
  id := "average"
  type := "IndicatorNode"
  params := [("indicator", .int 5), ("colour", .str "red")]
  dependsOn := []

theorem colouredIndicator_reported :
    (Catalog.builtin.registerCustom {}).1.get? "IndicatorNode" = some Builtin.indicator ∧
      (lacks Builtin.indicator colouredIndicator "period" = true ∧
        mistypes Builtin.indicator colouredIndicator "indicator" = true ∧
        invents Builtin.indicator colouredIndicator "colour" = true) ∧
      Exact Builtin.indicator colouredIndicator
        (allParameterFaults (Catalog.builtin.registerCustom {}).1 [] [colouredIndicator]) := by
  have hc := Catalog.get?_registerCustom {} Catalog.get?_builtin_indicator
  obtain ⟨-, -, hnode⟩ :=
    parameters_exact_unless_ambiguous (Catalog.builtin.registerCustom {}).1 []
  obtain ⟨-, -, -, -, hexact⟩ := hnode colouredIndicator _ List.not_mem_nil hc (by decide)
  obtain ⟨hiff, hclear⟩ := hexact {} rfl
  exact ⟨hc, by decide +kernel, hiff.mpr (hclear (by decide +kernel))⟩

/-- A manifest may require one parameter twice and declare another with two kinds. -/
def twiceNode : CustomNode where
  type := "TwiceNode"
  language := .python
  entry := "main.py"
  description := ""
  required := [⟨"window", .integer⟩, ⟨"window", .integer⟩]
  optional := [⟨"limit", .integer⟩, ⟨"limit", .string⟩]
  input := none
  output := none

theorem ofManifest?_twiceNode :
    CustomNode.ofManifest? (Json.compact twiceNode.toValue) = some twiceNode := by
  have hspecs : ∀ specs : List ParamSpec, Json.Printable (.list (specs.map ParamSpec.toValue)) :=
    fun specs => Json.printable_list_map fun p _ =>
      .map (List.forall_mem_cons.mpr ⟨.str _, List.forall_mem_singleton.mpr (.str _)⟩)
  have hprintable : Json.Printable twiceNode.toValue := by
    refine .map ?_
    simp only [List.forall_mem_cons]
    exact ⟨.str _, .str _, .str _, .str _, hspecs _, hspecs _, .null, .null, List.forall_mem_nil _⟩
  rw [CustomNode.ofManifest?, Json.restored_compact hprintable (by decide)]
  decide +kernel

def twiceCatalog : Catalog := (Catalog.builtin.registerCustom (Registry.register {} twiceNode)).1

def limitedTwice : Declaration where
  id := "twice"
  type := "TwiceNode"
  params := [("limit", .int 5)]
  dependsOn := []

/-- The absent parameter is reported twice, and the one of a wrong kind is not reported. -/
theorem limitedTwice_misreported :
    CustomNode.ofManifest? (Json.compact twiceNode.toValue) = some twiceNode ∧
      twiceCatalog.get? "TwiceNode" = some twiceNode.contract ∧
      (lacks twiceNode.contract limitedTwice "window" = true ∧
        number "E201" "window" (allParameterFaults twiceCatalog [] [limitedTwice]) = 2) ∧
      mistypes twiceNode.contract limitedTwice "limit" = true ∧
        number "E202" "limit" (allParameterFaults twiceCatalog [] [limitedTwice]) = 0 := by
  have hcatalog : twiceCatalog = Catalog.builtin.register twiceNode.contract := by
    have hdefinitions : (Registry.register {} twiceNode).definitions = [twiceNode] :=
      List.mergeSort_singleton _
    rw [twiceCatalog, Catalog.registerCustom, hdefinitions]
    rfl
  have hc : twiceCatalog.get? "TwiceNode" = some twiceNode.contract :=
    hcatalog ▸ Catalog.get?_register_self _ twiceNode.contract
  have hfaults : allParameterFaults twiceCatalog [] [limitedTwice] =
      parameterFaults twiceNode.contract limitedTwice :=
    allParameterFaults_single List.not_mem_nil hc
  rw [hfaults]
  exact ⟨ofManifest?_twiceNode, hc, by decide +kernel⟩

end Validation
end Flowline
