import Flowline.Proofs.Plan.Compile
import Flowline.Setup

/-!
# Dispatch

The catalog says where nodes of a type are executed, and each runner decides by a table of its own
which types it handles. The runner that is chosen for a type is that of its backend in the catalog.
-/
namespace Flowline

variable {type : String}

/-! ### Backends of types -/

namespace Catalog

theorem backend?_register {c : Catalog} {k : Contract} (h : c.contains k.type = false) :
    (c.register k).backend? type =
      (c.backend? type).or (if k.type = type then some k.backend else none) := by
  by_cases hk : k.type = type
  · subst hk
    have hnone : c.get? k.type = none := by simpa [contains] using h
    rw [backend?, get?_register_self, backend?, hnone, if_pos rfl, Option.map_none, Option.none_or,
      Option.map_some]
  · rw [backend?, get?_register_of_ne hk, backend?, if_neg hk, Option.or_none]

theorem contains_eq (c : Catalog) : c.contains type = (c.backend? type).isSome := by
  simp [contains, backend?]

/-- Custom types are added where no type stands yet. -/
theorem backend?_registerCustom (c : Catalog) (r : Registry) :
    (c.registerCustom r).1.backend? type =
      (c.backend? type).or (if r.contains type then some .custom else none) := by
  have hfold : ∀ (definitions : List CustomNode) (acc : Catalog × Nat),
      (definitions.foldl (fun acc d =>
        if acc.1.contains d.type then acc else (acc.1.register d.contract, acc.2 + 1)) acc).1.backend?
          type =
        (acc.1.backend? type).or
          (if definitions.any (·.type == type) then some .custom else none) := by
    intro definitions
    induction definitions with
    | nil => simp
    | cons d definitions ih =>
      intro acc
      rw [List.foldl_cons, ih]
      cases hd : acc.1.contains d.type with
      | true =>
        by_cases hdt : d.type = type
        · obtain ⟨b, hb⟩ := Option.isSome_iff_exists.mp ((contains_eq acc.1).symm.trans (hdt ▸ hd))
          simp [hb]
        · simp [hdt]
      | false =>
        simp only [Bool.false_eq_true, if_false]
        rw [backend?_register (k := d.contract) hd, Option.or_assoc]
        by_cases hdt : d.type = type
        · simp [CustomNode.contract, hdt]
        · simp [CustomNode.contract, hdt]
  have hany : r.definitions.any (·.type == type) = r.contains type := by
    rw [Registry.definitions, (List.mergeSort_perm r.nodes _).any_eq, Registry.contains,
      Registry.get?, Bool.eq_iff_iff, List.find?_isSome, List.any_eq_true]
  rw [← hany]
  exact hfold r.definitions (c, 0)

theorem mem_contracts_of_backend? {b : Backend} (h : builtin.backend? type = some b) :
    ∃ k ∈ Builtin.contracts, k.type = type ∧ k.backend = b := by
  obtain ⟨k, hk, rfl⟩ := Option.map_eq_some_iff.mp h
  exact ⟨k, builtin_contracts ▸ List.mem_of_find?_eq_some hk, by simpa using List.find?_some hk, rfl⟩

/-- No type of the platform runs a script of a user. -/
theorem backend?_builtin_ne_custom : builtin.backend? type ≠ some .custom := by
  intro h
  obtain ⟨k, hk, -, hbackend⟩ := mem_contracts_of_backend? h
  have hall : ∀ k ∈ Builtin.contracts, k.backend ≠ .custom := by decide
  exact hall k hk hbackend

/-- The types with a handler in the engine's own process are those that the catalog sends there. -/
theorem backend?_builtin_iff : builtin.backend? type = some .builtin ↔ Node.isBuiltin type = true := by
  constructor
  · intro h
    obtain ⟨k, hk, rfl, hbackend⟩ := mem_contracts_of_backend? h
    have hall : ∀ k ∈ Builtin.contracts, k.backend = .builtin → Node.isBuiltin k.type = true := by
      decide
    exact hall k hk hbackend
  · intro h
    obtain ⟨p, hp, htype⟩ := List.any_eq_true.mp h
    have hall : ∀ name ∈ Node.builtins.map (·.1), builtin.backend? name = some .builtin := by
      decide
    exact eq_of_beq htype ▸ hall p.1 (List.mem_map_of_mem hp)

end Catalog

/-! ### Runners of backends -/

namespace Setup

/-- What a configuration sets up with the custom types of a registry. -/
def ofRegistry (config : Config) (registry : Registry) : Setup :=
  { config, registry, catalog := (Catalog.builtin.registerCustom registry).1 }

theorem ofConfig_eq (config : Config) (files : Entry) :
    ofConfig config files = (registryOf config files).map (ofRegistry config) := by
  unfold ofConfig
  cases registryOf config files <;> rfl

/-- The runner of a backend. -/
def runnerOf (s : Setup) : Backend → Engine.Runner
  | .builtin => ⟨"builtin", Node.isBuiltin⟩
  | .python => ⟨"python", fun type => s.catalog.backend? type == some .python⟩
  | .javaScript => ⟨"javascript", fun type => s.catalog.backend? type == some .javaScript⟩
  | .custom => ⟨"custom", s.registry.contains⟩

theorem runners_eq (s : Setup) :
    s.runners = [s.runnerOf .builtin, s.runnerOf .python, s.runnerOf .javaScript,
      s.runnerOf .custom] := rfl

@[simp] theorem runnerOf_name (s : Setup) (b : Backend) : (s.runnerOf b).name = b.name := by
  cases b <;> rfl

/-- Executes a node on a backend. -/
def executeOn (s : Setup) (files : Entry) (stage : Node.UnitStage) (i : Invocation) :
    Backend → NodeResult × Nat
  | .builtin => (Node.executeBuiltin stage.stopped i, 0)
  | .python => Node.executeScript stage s.catalog .python i
  | .javaScript => Node.executeScript stage s.catalog .javaScript i
  | .custom => Node.executeCustom stage s.registry files i

theorem execute_eq (s : Setup) (files : Entry) (stage : Node.UnitStage) {t : Engine.Task}
    {b : Backend} (h : t.runner = b.name) :
    s.execute files stage t = s.executeOn files stage t.invocation b := by
  cases b <;> simp only [execute, h] <;> rfl

/-- The tables of the runners agree with the catalog. -/
structure Dispatches (s : Setup) : Prop where
  /-- The runner that is chosen for a type is that of its backend; other types have none. -/
  selects : ∀ type, Engine.select s.runners type = (s.catalog.backend? type).map s.runnerOf
  /-- The backend in a compiled node names the runner of the node. -/
  compiled : ∀ source format now plan, Plan.compile s.catalog source format now = .ok plan →
    ∀ n ∈ plan.nodes, Engine.select s.runners n.type = some (s.runnerOf n.backend)
  /-- A task under the name of the chosen runner is executed on the backend of its type. -/
  executes : ∀ files stage (t : Engine.Task) b, s.catalog.backend? t.invocation.type = some b →
    (Engine.select s.runners t.invocation.type).map (·.name) = some t.runner →
      s.execute files stage t = s.executeOn files stage t.invocation b
  /-- A type of the platform keeps its backend, and is not served by a script of a user. -/
  platform : ∀ type, Catalog.builtin.contains type = true →
    s.catalog.backend? type = Catalog.builtin.backend? type ∧
      (Engine.select s.runners type).map (·.name) ≠ some Backend.custom.name

section ofRegistry

variable (config : Config) (registry : Registry)

theorem backend?_ofRegistry : (ofRegistry config registry).catalog.backend? type =
    (Catalog.builtin.backend? type).or (if registry.contains type then some .custom else none) :=
  Catalog.backend?_registerCustom _ _

theorem backend?_ofRegistry_builtin :
    (ofRegistry config registry).catalog.backend? type = some .builtin ↔
      Node.isBuiltin type = true := by
  rw [backend?_ofRegistry, ← Catalog.backend?_builtin_iff]
  cases Catalog.builtin.backend? type with
  | none => cases registry.contains type <;> simp
  | some b => simp

/-- The first runner that handles a type is that of its backend. -/
theorem select_ofRegistry : Engine.select (ofRegistry config registry).runners type =
    ((ofRegistry config registry).catalog.backend? type).map (ofRegistry config registry).runnerOf := by
  have hbuiltin : (ofRegistry config registry).catalog.backend? type = some .builtin ↔
      Node.isBuiltin type = true := backend?_ofRegistry_builtin config registry
  have hcustom : (ofRegistry config registry).catalog.backend? type =
      (Catalog.builtin.backend? type).or (if registry.contains type then some .custom else none) :=
    backend?_ofRegistry config registry
  rw [Engine.select, runners_eq]
  cases hb : (ofRegistry config registry).catalog.backend? type with
  | none =>
    have hnot : registry.contains type = false := by
      cases hcontains : registry.contains type with
      | false => rfl
      | true =>
        rw [hb, hcontains] at hcustom
        cases h : Catalog.builtin.backend? type <;> simp [h] at hcustom
    have hown : Node.isBuiltin type = false := by simpa [hb] using hbuiltin
    simp [runnerOf, hb, hown, show (ofRegistry config registry).registry = registry from rfl, hnot]
  | some b =>
    cases b with
    | builtin => simp [runnerOf, hbuiltin.mp hb]
    | python =>
      have hown : Node.isBuiltin type = false := by simpa [hb] using hbuiltin
      simp [runnerOf, hb, hown]
    | javaScript =>
      have hown : Node.isBuiltin type = false := by simpa [hb] using hbuiltin
      simp [runnerOf, hb, hown]
    | custom =>
      have hown : Node.isBuiltin type = false := by simpa [hb] using hbuiltin
      have hcontains : registry.contains type = true := by
        rw [hb] at hcustom
        cases h : Catalog.builtin.backend? type with
        | none => simpa [h] using hcustom
        | some b =>
          rw [h, Option.some_or] at hcustom
          exact absurd (h.trans hcustom.symm) Catalog.backend?_builtin_ne_custom
      simp [runnerOf, hb, hown, show (ofRegistry config registry).registry = registry from rfl,
        hcontains]

theorem ofRegistry_dispatches : (ofRegistry config registry).Dispatches where
  selects type := select_ofRegistry config registry
  compiled source format now plan h n hn := by
    obtain ⟨doc, -, hcompiled⟩ := Plan.compiled_of_compile h
    rw [hcompiled.nodes] at hn
    obtain ⟨p, hp, rfl⟩ := List.mem_map.mp hn
    obtain ⟨k, hk⟩ := hcompiled.structured.known p.1 (List.fst_mem_of_mem_zipIdx hp)
    rw [select_ofRegistry]
    simp [Plan.nodeOf, Catalog.backend?, hk]
  executes files stage t b hb hrunner := by
    rw [select_ofRegistry, hb] at hrunner
    refine execute_eq _ files stage ?_
    simpa using hrunner.symm
  platform type h := by
    rw [Catalog.contains_eq] at h
    obtain ⟨b, hb⟩ := Option.isSome_iff_exists.mp h
    have hkept : (ofRegistry config registry).catalog.backend? type = some b := by
      rw [backend?_ofRegistry, hb, Option.some_or]
    refine ⟨hkept.trans hb.symm, ?_⟩
    rw [select_ofRegistry, hkept]
    have hne : b ≠ .custom := fun h => Catalog.backend?_builtin_ne_custom (h ▸ hb)
    cases b with
    | custom => exact absurd rfl hne
    | builtin | python | javaScript => simp [Backend.name]

end ofRegistry

/-- In every setup, whatever custom types it has, dispatch follows the catalog. -/
theorem dispatch_follows_catalog (config : Config) :
    (∀ registry, (ofRegistry config registry).Dispatches) ∧
      ∀ files s, ofConfig config files = .ok s → s.Dispatches := by
  refine ⟨ofRegistry_dispatches config, fun files s h => ?_⟩
  rw [ofConfig_eq] at h
  cases hregistry : registryOf config files with
  | error e =>
    rw [hregistry] at h
    cases h
  | ok registry =>
    rw [hregistry] at h
    cases h
    exact ofRegistry_dispatches config registry

/-- A manifest of a custom type in Python. -/
def manifest (type : String) : Entry :=
  .folder [(CustomNode.manifestName,
    .file ("\x7b\"type\": \"" ++ type ++ "\", \"entry\": \"main.py\"\x7d"))]

/-- One custom type takes the name of a type of the platform, one has a name of its own. -/
def shadowingFiles : Entry :=
  .folder [("custom", .folder [("a", manifest "IndicatorNode"), ("b", manifest "Smooth")])]

def shadowingConfig : Config := { paths := { customNodes := some "/custom" } }

theorem shadowing_dispatches : ∃ s, ofConfig shadowingConfig shadowingFiles = .ok s ∧
    s.registry.contains "IndicatorNode" = true ∧ s.registry.contains "Smooth" = true ∧
      s.Dispatches := by
  have hfound : (ofConfig shadowingConfig shadowingFiles).toOption.any (fun s =>
      s.registry.contains "IndicatorNode" && s.registry.contains "Smooth") = true := by
    decide +kernel
  cases h : ofConfig shadowingConfig shadowingFiles with
  | error e =>
    rw [h] at hfound
    cases hfound
  | ok s =>
    rw [h] at hfound
    obtain ⟨hindicator, hsmooth⟩ := Bool.and_eq_true_iff.mp hfound
    exact ⟨s, rfl, hindicator, hsmooth, (dispatch_follows_catalog shadowingConfig).2 _ s h⟩

end Setup
end Flowline
