import Flowline.Proofs.Data.Record
import Flowline.Proofs.Data.Sorted
import Flowline.Proofs.Json.Reading
import Flowline.Run.Result

/-!
# Results in data

The result of a node and the result of a run are read back from their values, also where fields are
left out because there is nothing to say.
-/
namespace Flowline

open Value (Sound)
open Json (Printable ReadsBack printable_ofNat printable_strs printable_of_sound)

/-! ### Optional fields -/

namespace Value

/-- A value, unless it is null. -/
def unlessNull (v : Value) : Option Value := if v.isNull then none else some v

theorem field?_unlessNull (key : String) (v : Value) :
    field? key v.unlessNull = if v.isNull then [] else [(key, v)] := by
  unfold unlessNull
  split <;> rfl

theorem eq_null_of_isNull {v : Value} (h : v.isNull = true) : v = .null := by
  cases v with
  | null => rfl
  | _ => cases h

theorem getD_unlessNull (v : Value) : v.unlessNull.getD .null = v := by
  unfold unlessNull
  split
  · rename_i hnull
    exact (eq_null_of_isNull hnull).symm
  · rfl

theorem withDefault_unlessNull {v : Value} (h : Sound v) (p : Bool) :
    Slot.withDefault .null Decode.any ⟨v.unlessNull, p⟩ = some v := by
  unfold unlessNull
  split
  · rename_i hnull
    rw [eq_null_of_isNull hnull]
    rfl
  · rw [Slot.withDefault_some, Decode.any, h.settle_eq]

end Value

/-- Log lines, unless there are none. -/
def logs? (logs : List String) : Option Value := if logs.isEmpty then none else some (.strs logs)

theorem field?_logs? (logs : List String) : field? "logs" (logs? logs) = Output.logFields logs := by
  unfold logs? Output.logFields
  split <;> rfl

theorem withDefault_logs? (logs : List String) (p : Bool) :
    Slot.withDefault [] (Decode.list Decode.text) ⟨logs? logs, p⟩ = some logs := by
  unfold logs?
  split
  · rename_i hempty
    rw [List.isEmpty_iff.mp hempty]
    rfl
  · rw [Slot.withDefault_some, Decode.list_strs]

/-! ### Violations and usage -/

theorem ViolationKind.ofName?_name (k : ViolationKind) : ofName? k.name = some k := by
  cases k <;> decide +kernel

theorem ViolationKind.decode_name (k : ViolationKind) : decode (.str k.name) = some k := by
  cases k <;> decide +kernel

namespace Violation

/-- The fields of a violation. -/
def parts (v : Violation) : List (String × Option Value) :=
  [("kind", some (.str v.kind.name)), ("message", some (.str v.message)),
    ("details", v.details.unlessNull)]

theorem toValue_eq (v : Violation) : v.toValue = .map (Fields.present v.parts) := by
  simp [toValue, parts, Fields.present, Value.field?_unlessNull]

theorem decode_toValue {v : Violation} (h : Sound v.details) : decode v.toValue = some v := by
  have hslots : slots [["kind"], ["message"], ["details"]] v.toValue =
      some (v.parts.map fun p => ⟨p.2, false⟩) :=
    v.toValue_eq ▸ slots_present ["kind", "message", "details"] rfl (by decide)
  simp [decode, hslots, parts, ViolationKind.decode_name, Value.withDefault_unlessNull h]

theorem printable {v : Violation} (h : Printable v.details) : Printable v.toValue := by
  rw [toValue_eq]
  refine .map (Fields.forall_mem_present.mpr ?_)
  simp only [parts, List.forall_mem_cons, Option.mem_def, Option.some.injEq, forall_eq']
  exact ⟨.str _, .str _, Fields.forall_mem_unless h, List.forall_mem_nil _⟩

end Violation

namespace Usage

/-- Usage in words. -/
structure Fits (u : Usage) : Prop where
  peakMemory : u.peakMemory ≤ 0xFFFFFFFFFFFFFFFF
  elapsed : u.elapsed ≤ 0xFFFFFFFFFFFFFFFF
  samples : u.samples ≤ 0xFFFFFFFFFFFFFFFF

theorem decode_toValue {u : Usage} (h : u.Fits) : decode u.toValue = some u := by
  have hslots : slots [["peakMemoryBytes"], ["elapsedMs"], ["samples"]] u.toValue =
      some [⟨some (.ofNat u.peakMemory), false⟩, ⟨some (.ofNat u.elapsed), false⟩,
        ⟨some (.ofNat u.samples), false⟩] :=
    slots_record ["peakMemoryBytes", "elapsedMs", "samples"] rfl (by decide)
  simp [decode, hslots, Decode.word64_ofNat h.peakMemory, Decode.word64_ofNat h.elapsed,
    Decode.word64_ofNat h.samples]

theorem fits_of_decode {v : Value} {u : Usage} (h : decode v = some u) : u.Fits := by
  simp only [decode, Option.bind_eq_bind, Option.bind_eq_some_iff] at h
  obtain ⟨found, _, h⟩ := h
  split at h
  · simp only [Option.bind_eq_some_iff] at h
    obtain ⟨peakMemory, hpeakMemory, elapsed, helapsed, samples, hsamples, hu⟩ := h
    obtain rfl := Option.some.inj hu
    exact ⟨Slot.of_required (fun _ _ => Decode.le_of_word64) hpeakMemory,
      Slot.of_required (fun _ _ => Decode.le_of_word64) helapsed,
      Slot.of_withDefault (fun _ _ => Decode.le_of_word64) (Nat.zero_le _) hsamples⟩
  · cases h

theorem printable {u : Usage} (h : u.Fits) : Printable u.toValue := by
  refine .map ?_
  simp only [List.forall_mem_cons]
  exact ⟨printable_ofNat h.peakMemory, printable_ofNat h.elapsed, printable_ofNat h.samples,
    List.forall_mem_nil _⟩

end Usage

/-! ### Results of nodes -/

namespace NodeResult

/-- A result whose data can be written: its values are sound and its numbers are words. -/
structure Writable (r : NodeResult) : Prop where
  output : Sound r.output
  details : ∀ v ∈ r.violation, Sound v.details
  elapsed : r.elapsed ≤ 0xFFFFFFFFFFFFFFFF
  usage : ∀ u ∈ r.usage, u.Fits

/-- The fields of a result. -/
def parts (r : NodeResult) : List (String × Option Value) :=
  [("nodeId", some (.str r.node)), ("success", some (.bool r.success)),
    ("output", r.output.unlessNull), ("error", r.error.map .str),
    ("violation", r.violation.map Violation.toValue), ("logs", logs? r.logs),
    ("executionTimeMs", some (.ofNat r.elapsed)), ("resourceStats", r.usage.map Usage.toValue)]

theorem toValue_eq (r : NodeResult) : r.toValue = .map (Fields.present r.parts) := by
  simp [toValue, parts, Fields.present, Value.field?_unlessNull, field?_logs?]

theorem decode_toValue {r : NodeResult} (h : r.Writable) : decode r.toValue = some r := by
  have hslots : slots [["nodeId"], ["success"], ["output"], ["error"], ["violation"], ["logs"],
      ["executionTimeMs"], ["resourceStats"]] r.toValue =
      some (r.parts.map fun p => ⟨p.2, false⟩) :=
    r.toValue_eq ▸ slots_present ["nodeId", "success", "output", "error", "violation", "logs",
      "executionTimeMs", "resourceStats"] rfl (by decide)
  have herror : ∀ p, Slot.optionalDefault Decode.text ⟨r.error.map .str, p⟩ = some r.error :=
    Slot.optionalDefault_map (fun _ _ => rfl) (fun _ _ => nofun)
  have hviolation : ∀ p, Slot.optionalDefault Violation.decode
      ⟨r.violation.map Violation.toValue, p⟩ = some r.violation :=
    Slot.optionalDefault_map (fun v hv => Violation.decode_toValue (h.details v hv))
      (fun _ _ => nofun)
  have husage : ∀ p, Slot.optionalDefault Usage.decode ⟨r.usage.map Usage.toValue, p⟩ =
      some r.usage :=
    Slot.optionalDefault_map (fun u hu => Usage.decode_toValue (h.usage u hu)) (fun _ _ => nofun)
  simp [decode, hslots, parts, Value.withDefault_unlessNull h.output, herror, hviolation,
    withDefault_logs?, Decode.word64_ofNat h.elapsed, husage]

/-- The floats in a result. -/
def floats (r : NodeResult) : List Float :=
  r.output.floats ++ r.violation.elim [] fun v => v.details.floats

theorem printable {r : NodeResult} (h : r.Writable) (hfloats : ∀ x ∈ r.floats, ReadsBack x) :
    Printable r.toValue := by
  have houtput : Printable r.output :=
    printable_of_sound h.output fun x hx => hfloats x (List.mem_append_left _ hx)
  have hdetails : ∀ v ∈ r.violation, Printable v.details := fun v hv =>
    printable_of_sound (h.details v hv) fun x hx =>
      hfloats x (List.mem_append_right _ (by rw [hv]; exact hx))
  rw [toValue_eq]
  refine .map (Fields.forall_mem_present.mpr ?_)
  simp only [parts, List.forall_mem_cons, Option.mem_def, Option.some.injEq, forall_eq',
    Option.map_eq_some_iff, forall_exists_index, and_imp, forall_apply_eq_imp_iff₂]
  exact ⟨.str _, .bool _, Fields.forall_mem_unless houtput, fun _ _ => .str _,
    fun v hv => Violation.printable (hdetails v hv), Fields.forall_mem_unless (printable_strs _),
    printable_ofNat h.elapsed, fun u hu => Usage.printable (h.usage u hu), List.forall_mem_nil _⟩

end NodeResult

/-! ### Results of runs -/

theorem RunStatus.decode_toValue (s : RunStatus) : decode s.toValue = some s := by
  cases s <;> decide +kernel

namespace RunResult

/-- A result whose data can be written. -/
structure Writable (r : RunResult) : Prop where
  ascending : r.results.Pairwise fun f g => f.1 < g.1
  results : ∀ f ∈ r.results, f.2.Writable
  elapsed : r.elapsed ≤ 0xFFFFFFFFFFFFFFFF

/-- The fields of a result. -/
def parts (r : RunResult) : List (String × Option Value) :=
  [("runId", some (.str r.runId)), ("pipelineId", some (.str r.pipelineId)),
    ("status", some r.status.toValue),
    ("results", some (.map (r.results.map fun (id, n) => (id, n.toValue)))),
    ("error", r.error.map .str), ("totalTimeMs", some (.ofNat r.elapsed))]

theorem toValue_eq (r : RunResult) : r.toValue = .map (Fields.present r.parts) := by
  simp [toValue, parts, Fields.present]

theorem decode_toValue {r : RunResult} (h : r.Writable) : decode r.toValue = some r := by
  have hslots : slots [["runId"], ["pipelineId"], ["status"], ["results"], ["error"],
      ["totalTimeMs"]] r.toValue = some (r.parts.map fun p => ⟨p.2, false⟩) :=
    r.toValue_eq ▸ slots_present ["runId", "pipelineId", "status", "results", "error",
      "totalTimeMs"] rfl (by decide)
  have herror : ∀ p, Slot.optionalDefault Decode.text ⟨r.error.map .str, p⟩ = some r.error :=
    Slot.optionalDefault_map (fun _ _ => rfl) (fun _ _ => nofun)
  have hresults : Decode.mapOf NodeResult.decode
      (.map (r.results.map fun (id, n) => (id, n.toValue))) = some r.results :=
    Decode.mapOf_map fun f hf => NodeResult.decode_toValue (h.results f hf)
  simp [decode, hslots, parts, RunStatus.decode_toValue, hresults, sortedByKey_eq h.ascending,
    herror, Decode.word64_ofNat h.elapsed]

theorem printable {r : RunResult} (h : r.Writable)
    (hfloats : ∀ f ∈ r.results, ∀ x ∈ f.2.floats, ReadsBack x) : Printable r.toValue := by
  have hresults : Printable (.map (r.results.map fun (id, n) => (id, n.toValue))) :=
    .map (List.forall_mem_map.mpr fun f hf =>
      NodeResult.printable (h.results f hf) (hfloats f hf))
  rw [toValue_eq]
  refine .map (Fields.forall_mem_present.mpr ?_)
  simp only [parts, List.forall_mem_cons, Option.mem_def, Option.some.injEq, forall_eq',
    Option.map_eq_some_iff, forall_exists_index, and_imp, forall_apply_eq_imp_iff₂]
  exact ⟨.str _, .str _, .str _, hresults, fun _ _ => .str _, printable_ofNat h.elapsed,
    List.forall_mem_nil _⟩

end RunResult
end Flowline
