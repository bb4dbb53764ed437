import Flowline.Plan.Basic
import Flowline.Proofs.Data.Record
import Flowline.Proofs.Json.Reading
import Flowline.Proofs.Time.Moment

/-!
# Plans in data

Shapes, schemas, arities and backends are read back from what they are written as, an arity as long
as its bounds fit a word, and so is a plan. Its value nests four containers around the parameters of
a node, so that its text is read back exactly if the parameters leave room for them.
-/
namespace Flowline

theorem Shape.decode_toValue (s : Shape) : decode s.toValue = some s := by
  cases s <;> rfl

theorem Backend.decode_toValue (b : Backend) : decode b.toValue = some b := by
  cases b <;> rfl

theorem Schema.decode_toValue (s : Schema) : decode s.toValue = some s := by
  have hslots : slots [["shape"], ["columns"], ["inheritsInputs"], ["open"]] s.toValue =
      some [⟨some s.shape.toValue, false⟩, ⟨some (.strs s.columns), false⟩,
        ⟨some (.bool s.inheritsInputs), false⟩, ⟨some (.bool s.isOpen), false⟩] :=
    slots_record ["shape", "columns", "inheritsInputs", "open"] rfl (by decide)
  simp [decode, hslots, Shape.decode_toValue, Decode.list_strs]

open Json (Printable printable_strs printable_ofNat printable_list_map)

theorem Schema.printable (s : Schema) : Printable s.toValue := by
  refine .map ?_
  simp only [List.forall_mem_cons]
  exact ⟨.str _, printable_strs _, .bool _, .bool _, List.forall_mem_nil _⟩

theorem Schema.depth_le (s : Schema) : s.toValue.depth ≤ 2 := by
  refine Value.depth_map_le_iff.mpr ?_
  simp only [List.forall_mem_cons]
  exact ⟨Nat.zero_le _, Value.depth_strs_le, Nat.zero_le _, Nat.zero_le _, List.forall_mem_nil _⟩

namespace Arity

/-- Bounds as words hold them. -/
structure Fits (a : Arity) : Prop where
  min : a.min ≤ 0xFFFFFFFFFFFFFFFF
  max : ∀ hi, a.max = some hi → hi ≤ 0xFFFFFFFFFFFFFFFF

theorem decode_toValue {a : Arity} (h : a.Fits) : decode a.toValue = some a := by
  have hslots : slots [["min"], ["max"]] a.toValue =
      some [⟨some (.ofNat a.min), false⟩, ⟨some (.ofOption (a.max.map .ofNat)), false⟩] :=
    slots_record ["min", "max"] rfl (by decide)
  obtain ⟨lo, hi⟩ := a
  have hlo := Decode.word64_ofNat h.min
  cases hi with
  | none => simp [decode, hslots, hlo, Slot.optional, Value.ofOption]
  | some hi =>
    have hhi := Decode.word64_ofNat (h.max hi rfl)
    simp [decode, hslots, hlo, hhi, Slot.optional, Value.ofOption]

theorem printable {a : Arity} (h : a.Fits) : Printable a.toValue := by
  refine .map ?_
  simp only [List.forall_mem_cons]
  refine ⟨printable_ofNat h.min, ?_, List.forall_mem_nil _⟩
  cases hmax : a.max with
  | none => exact .null
  | some hi => exact printable_ofNat (h.max hi hmax)

theorem depth_le (a : Arity) : a.toValue.depth ≤ 1 := by
  refine Value.depth_map_le_iff.mpr ?_
  simp only [List.forall_mem_cons]
  cases a.max <;> exact ⟨Nat.zero_le _, Nat.zero_le _, List.forall_mem_nil _⟩

end Arity

namespace InputSchema

theorem decode_toValue {s : InputSchema} (h : s.arity.Fits) :
    decode s.toValue = some s := by
  have hslots : slots [["arity"], ["accepted"], ["requiredColumns"]] s.toValue =
      some [⟨some s.arity.toValue, false⟩, ⟨some (.list (s.accepted.map Shape.toValue)), false⟩,
        ⟨some (.strs s.requiredColumns), false⟩] :=
    slots_record ["arity", "accepted", "requiredColumns"] rfl (by decide)
  have haccepted := Decode.list_map (d := Shape.decode)
    fun a (_ : a ∈ s.accepted) => Shape.decode_toValue a
  simp [decode, hslots, Arity.decode_toValue h, haccepted, Decode.list_strs]

theorem printable {s : InputSchema} (h : s.arity.Fits) : Printable s.toValue := by
  refine .map ?_
  simp only [List.forall_mem_cons]
  exact ⟨Arity.printable h, printable_list_map fun a _ => .str _, printable_strs _,
    List.forall_mem_nil _⟩

theorem depth_le (s : InputSchema) : s.toValue.depth ≤ 2 := by
  refine Value.depth_map_le_iff.mpr ?_
  simp only [List.forall_mem_cons]
  refine ⟨Arity.depth_le _, ?_, Value.depth_strs_le, List.forall_mem_nil _⟩
  rw [Value.depth_list_le_iff, List.forall_mem_map]
  exact fun _ _ => Nat.zero_le _

end InputSchema
end Flowline

namespace Flowline

open Value (Sound)
open Json (Printable ReadsBack printable_strs printable_ofNat printable_list_map)

/-! ### Nodes and edges -/

namespace PlanNode

/-- A node whose data can be written: its parameters are sound and its numbers are words. -/
structure Writable (n : PlanNode) : Prop where
  params : Sound (.map n.params)
  arity : n.input.arity.Fits
  index : n.index ≤ 0xFFFFFFFFFFFFFFFF

variable {n : PlanNode}

/-- The description, unless it is empty. -/
def described? (n : PlanNode) : Option Value :=
  if n.description.isEmpty then none else some (.str n.description)

/-- What is said about a node besides its data. -/
def metadata (n : PlanNode) : Value :=
  .map ([("declarationIndex", .ofNat n.index), ("dependsOn", .strs n.dependsOn)]
    ++ field? "description" n.described?)

/-- The fields of a node's metadata. -/
def metadataParts (n : PlanNode) : List (String × Option Value) :=
  [("declarationIndex", some (.ofNat n.index)), ("dependsOn", some (.strs n.dependsOn)),
    ("description", n.described?)]

theorem metadata_eq (n : PlanNode) : n.metadata = .map (Fields.present n.metadataParts) := by
  simp [metadata, metadataParts, Fields.present]

theorem withDefault_described? (p : Bool) :
    Slot.withDefault "" Decode.text ⟨n.described?, p⟩ = some n.description := by
  by_cases hempty : n.description = ""
  · simp [described?, hempty, Slot.withDefault]
  · simp [described?, hempty]

theorem decodeMetadata_eq (h : n.index ≤ 0xFFFFFFFFFFFFFFFF) :
    decodeMetadata n.metadata = some (n.index, n.dependsOn, n.description) := by
  have hslots : slots [["declarationIndex"], ["dependsOn"], ["description"]] n.metadata =
      some (n.metadataParts.map fun p => ⟨p.2, false⟩) :=
    n.metadata_eq ▸ slots_present ["declarationIndex", "dependsOn", "description"] rfl (by decide)
  simp [decodeMetadata, hslots, metadataParts, Decode.word64_ofNat h, Decode.list_strs,
    withDefault_described?]

theorem decode_toValue (h : n.Writable) : decode n.toValue = some n := by
  have hslots : slots [["id"], ["type"], ["runtime"], ["parameters"], ["inputSchema"],
      ["outputSchema"], ["metadata"]] n.toValue =
      some [⟨some (.str n.id), false⟩, ⟨some (.str n.type), false⟩,
        ⟨some n.backend.toValue, false⟩, ⟨some (.map n.params), false⟩,
        ⟨some n.input.toValue, false⟩, ⟨some n.output.toValue, false⟩,
        ⟨some n.metadata, false⟩] :=
    slots_record ["id", "type", "runtime", "parameters", "inputSchema", "outputSchema",
      "metadata"] rfl (by decide)
  simp [decode, hslots, decodeMetadata_eq h.index, Decode.fields_map h.params,
    Backend.decode_toValue, InputSchema.decode_toValue h.arity, Schema.decode_toValue]

theorem printable (h : n.Writable) (hfloats : ∀ x ∈ (Value.map n.params).floats, ReadsBack x) :
    Printable n.toValue := by
  have hmetadata : Printable n.metadata := by
    rw [metadata_eq]
    refine .map (Fields.forall_mem_present.mpr ?_)
    simp only [metadataParts, List.forall_mem_cons, Option.mem_def, Option.some.injEq, forall_eq']
    exact ⟨printable_ofNat h.index, printable_strs _, Fields.forall_mem_unless (.str _),
      List.forall_mem_nil _⟩
  have hparams := Json.printable_of_sound h.params hfloats
  refine .map ?_
  simp only [List.forall_mem_cons]
  exact ⟨.str _, .str _, .str _, hparams, InputSchema.printable h.arity, Schema.printable _, hmetadata,
    List.forall_mem_nil _⟩

/-- A node's value nests as deep as its parameters, within one more container. -/
theorem depth_le_iff (n : PlanNode) {k : Nat} (hk : 2 ≤ k) :
    n.toValue.depth ≤ k + 1 ↔ (Value.map n.params).depth ≤ k := by
  have hmetadata : n.metadata.depth ≤ 2 := by
    rw [metadata_eq, Fields.depth_present_le_iff]
    simp only [metadataParts, List.forall_mem_cons, Option.mem_def, Option.some.injEq, forall_eq']
    exact ⟨Nat.zero_le _, Value.depth_strs_le, Fields.forall_mem_unless (Nat.zero_le _),
      List.forall_mem_nil _⟩
  refine Value.depth_map_le_iff.trans ?_
  simp only [List.forall_mem_cons]
  constructor
  · exact fun h => h.2.2.2.1
  · exact fun h => ⟨Nat.zero_le _, Nat.zero_le _, Nat.zero_le _, h,
      Nat.le_trans n.input.depth_le hk, Nat.le_trans n.output.depth_le hk, Nat.le_trans hmetadata hk,
      List.forall_mem_nil _⟩

end PlanNode

namespace PlanEdge

theorem decode_toValue (e : PlanEdge) : decode e.toValue = some e := by
  have hslots : slots [["from"], ["to"], ["type"], ["dataType"]] e.toValue =
      some [⟨some (.str e.source), false⟩, ⟨some (.str e.target), false⟩,
        ⟨some (.str e.kind), false⟩, ⟨some e.shape.toValue, false⟩] :=
    slots_record ["from", "to", "type", "dataType"] rfl (by decide)
  simp [decode, hslots, Shape.decode_toValue]

theorem printable (e : PlanEdge) : Printable e.toValue := by
  refine .map ?_
  simp only [List.forall_mem_cons]
  exact ⟨.str _, .str _, .str _, .str _, List.forall_mem_nil _⟩

theorem depth_le (e : PlanEdge) : e.toValue.depth ≤ 1 := by
  refine Value.depth_map_le_iff.mpr ?_
  simp only [List.forall_mem_cons]
  exact ⟨Nat.zero_le _, Nat.zero_le _, Nat.zero_le _, Nat.zero_le _, List.forall_mem_nil _⟩

end PlanEdge

/-! ### Plans -/

namespace Plan

/-- A plan whose data can be written. -/
structure Writable (p : Plan) : Prop where
  nodes : ∀ n ∈ p.nodes, n.Writable
  count : p.nodeCount ≤ 0xFFFFFFFFFFFFFFFF
  compiledAt : p.compiledAt.IsCivil

variable {p : Plan}

/-- What is said about a plan besides its parts. -/
def metadata (p : Plan) : Value :=
  .map [("compiledAt", p.compiledAt.toValue), ("totalNodes", .ofNat p.nodeCount),
    ("hasCircularDependencies", .bool p.isCyclic), ("sourceHash", .str p.sourceHash)]

theorem decodeMetadata_eq (h : p.Writable) :
    decodeMetadata p.metadata = some (p.compiledAt, p.nodeCount, p.isCyclic, p.sourceHash) := by
  have hslots : slots [["compiledAt"], ["totalNodes"], ["hasCircularDependencies"],
      ["sourceHash"]] p.metadata =
      some [⟨some p.compiledAt.toValue, false⟩, ⟨some (.ofNat p.nodeCount), false⟩,
        ⟨some (.bool p.isCyclic), false⟩, ⟨some (.str p.sourceHash), false⟩] :=
    slots_record ["compiledAt", "totalNodes", "hasCircularDependencies", "sourceHash"]
      rfl (by decide)
  simp [decodeMetadata, hslots, Moment.decode_toValue h.compiledAt, Decode.word64_ofNat h.count]

/-- The fields of a plan. -/
def parts (p : Plan) : List (String × Option Value) :=
  [("id", some (.str p.id)), ("name", p.name.map .str), ("description", p.description.map .str),
    ("version", some (.str p.version)), ("metadata", some p.metadata),
    ("nodes", some (.list (p.nodes.map PlanNode.toValue))),
    ("dependencies", some (.list (p.edges.map PlanEdge.toValue))),
    ("executionOrder", some (.strs p.order))]

theorem toValue_eq (p : Plan) : p.toValue = .map (Fields.present p.parts) := by
  simp [toValue, parts, metadata, Fields.present]

theorem decode_toValue (h : p.Writable) : decode p.toValue = some p := by
  have hslots : slots [["id"], ["name"], ["description"], ["version"], ["metadata"], ["nodes"],
      ["dependencies"], ["executionOrder"]] p.toValue =
      some (p.parts.map fun q => ⟨q.2, false⟩) :=
    p.toValue_eq ▸ slots_present ["id", "name", "description", "version", "metadata", "nodes",
      "dependencies", "executionOrder"] rfl (by decide)
  have htext : ∀ (s : Option String) q, Slot.optionalDefault Decode.text ⟨s.map .str, q⟩ = some s :=
    fun s => Slot.optionalDefault_map (fun _ _ => rfl) fun _ _ => nofun
  have hnodes : Decode.list PlanNode.decode (.list (p.nodes.map PlanNode.toValue)) = some p.nodes :=
    Decode.list_map fun n hn => PlanNode.decode_toValue (h.nodes n hn)
  have hedges : Decode.list PlanEdge.decode (.list (p.edges.map PlanEdge.toValue)) = some p.edges :=
    Decode.list_map fun e _ => PlanEdge.decode_toValue e
  simp [decode, hslots, parts, decodeMetadata_eq h, hnodes, hedges, htext, Decode.list_strs]

theorem printable (h : p.Writable)
    (hfloats : ∀ n ∈ p.nodes, ∀ x ∈ (Value.map n.params).floats, ReadsBack x) :
    Printable p.toValue := by
  have hmetadata : Printable p.metadata := by
    refine .map ?_
    simp only [List.forall_mem_cons]
    exact ⟨.str _, printable_ofNat h.count, .bool _, .str _, List.forall_mem_nil _⟩
  rw [toValue_eq]
  refine .map (Fields.forall_mem_present.mpr ?_)
  simp only [parts, List.forall_mem_cons, Option.mem_def, Option.some.injEq, forall_eq',
    Option.map_eq_some_iff, forall_exists_index, and_imp, forall_apply_eq_imp_iff₂]
  exact ⟨.str _, fun _ _ => .str _, fun _ _ => .str _, .str _, hmetadata,
    printable_list_map fun n hn => PlanNode.printable (h.nodes n hn) (hfloats n hn),
    printable_list_map fun e _ => e.printable, printable_strs _, List.forall_mem_nil _⟩

/-- A plan's value nests as deep as the parameters of its nodes, within three more containers. -/
theorem depth_le_iff (p : Plan) {k : Nat} (hk : 2 ≤ k) :
    p.toValue.depth ≤ k + 3 ↔ ∀ n ∈ p.nodes, (Value.map n.params).depth ≤ k := by
  have hmetadata : p.metadata.depth ≤ k + 2 := by
    refine Value.depth_map_le_iff.mpr ?_
    simp only [List.forall_mem_cons]
    exact ⟨Nat.zero_le _, Nat.zero_le _, Nat.zero_le _, Nat.zero_le _, List.forall_mem_nil _⟩
  have hnodes : (Value.list (p.nodes.map PlanNode.toValue)).depth ≤ k + 2 ↔
      ∀ n ∈ p.nodes, (Value.map n.params).depth ≤ k := by
    rw [Value.depth_list_le_iff, List.forall_mem_map]
    exact forall₂_congr fun n _ => n.depth_le_iff hk
  have hedges : (Value.list (p.edges.map PlanEdge.toValue)).depth ≤ k + 2 := by
    rw [Value.depth_list_le_iff, List.forall_mem_map]
    exact fun e _ => Nat.le_trans e.depth_le (Nat.le_add_left 1 k)
  rw [toValue_eq, Fields.depth_present_le_iff]
  simp only [parts, List.forall_mem_cons, Option.mem_def, Option.some.injEq, forall_eq',
    Option.map_eq_some_iff, forall_exists_index, and_imp, forall_apply_eq_imp_iff₂]
  constructor
  · exact fun h => hnodes.mp h.2.2.2.2.2.1
  · exact fun h => ⟨Nat.zero_le _, fun _ _ => Nat.zero_le _, fun _ _ => Nat.zero_le _, Nat.zero_le _,
      hmetadata, hnodes.mpr h, hedges, Value.depth_strs_le, List.forall_mem_nil _⟩

/-- A plan is read back from its text exactly if the parameters of its nodes leave room for the three
containers around them. -/
theorem parse?_render (h : p.Writable)
    (hfloats : ∀ n ∈ p.nodes, ∀ x ∈ (Value.map n.params).floats, ReadsBack x) :
    parse? p.render = if ∀ n ∈ p.nodes, (Value.map n.params).depth ≤ 124 then some p else none := by
  have hdepth : p.toValue.depth ≤ Json.depthLimit ↔
      ∀ n ∈ p.nodes, (Value.map n.params).depth ≤ 124 := p.depth_le_iff (by decide)
  rw [parse?, render, Json.readRecord_pretty (printable h hfloats)]
  by_cases hfits : ∀ n ∈ p.nodes, (Value.map n.params).depth ≤ 124
  · rw [if_pos hfits, if_pos (hdepth.mpr hfits)]
    exact decode_toValue h
  · rw [if_neg hfits, if_neg (mt hdepth.mp hfits)]
    rfl

end Plan
end Flowline
