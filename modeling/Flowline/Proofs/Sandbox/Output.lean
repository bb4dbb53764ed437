import Flowline.Proofs.Run.Result

/-!
# Outputs and their written form

Classifying undoes writing: an output is read from its written form exactly if its usage fits into
words and its violation, if any, has the error as its message. What is classified is such an output,
whatever the value was.
-/
namespace Flowline

namespace Output

/-- An output as it comes about: its usage fits into words, and its violation has the error as its
message. -/
def Consistent : Output → Prop
  | success _ usage _ => ∀ u ∈ usage, u.Fits
  | failure error violation _ => ∀ v ∈ violation, v.message = error

/-- The fields of an output. -/
def parts : Output → List (String × Option Value)
  | success result usage logs => [("success", some (.bool true)), ("result", some result),
      ("stats", usage.map Usage.toValue), ("logs", logs? logs)]
  | failure error violation logs => [("success", some (.bool false)), ("error", some (.str error)),
      ("violationType", violation.map fun v => .str v.kind.name),
      ("details", violation.bind fun v => v.details.unlessNull), ("logs", logs? logs)]

theorem toValue_eq (o : Output) : o.toValue = .map (Fields.present o.parts) := by
  cases o with
  | success result usage logs => simp [toValue, parts, Fields.present, field?_logs?]
  | failure error violation logs =>
    cases violation with
    | none => simp [toValue, parts, Fields.present, field?_logs?, violationFields]
    | some v =>
      simp [toValue, parts, Fields.present, field?_logs?, violationFields, Value.field?_unlessNull]

theorem logsOf_logs? (logs : List String) : logsOf (logs? logs) = logs := by
  unfold logs?
  split
  · rename_i hempty
    exact (List.isEmpty_iff.mp hempty).symm
  · simp [logsOf, Value.strs, Function.comp_def, asText]

/-! ### Reading an output back -/

theorem nodup_parts (o : Output) : (o.parts.map (·.1)).Nodup := by
  cases o <;> simp [parts]

theorem nodup_present (o : Output) : (Fields.present o.parts).keys.Nodup :=
  (Fields.keys_present_sublist o.parts).nodup o.nodup_parts

/-- What is left to classify once the log lines are taken out. -/
def rest (o : Output) : Fields := (Fields.present o.parts).remove "logs"

theorem nodup_rest (o : Output) : o.rest.keys.Nodup := Fields.nodup_remove o.nodup_present _

theorem get?_rest {o : Output} {key : String} {v : Option Value} (h : (key, v) ∈ o.parts)
    (hne : key ≠ "logs") : o.rest.get? key = v :=
  (Fields.get?_remove_of_ne o.nodup_present hne).trans (Fields.get?_present o.nodup_parts h)

theorem isFailure_rest (o : Output) : isFailure o.rest = !o.isSuccess := by
  have hsuccess : o.rest.get? "success" = some (.bool o.isSuccess) :=
    get?_rest (by cases o <;> exact List.mem_cons_self) (by decide)
  rw [isFailure, hsuccess]

theorem ofSuccess_eq {fs : Fields} {result : Value} {usage : Option Usage} (hnodup : fs.keys.Nodup)
    (hresult : fs.get? "result" = some result) (hstats : fs.get? "stats" = usage.map Usage.toValue)
    (h : ∀ u ∈ usage, u.Fits) (logs : List String) :
    ofSuccess fs logs = success result usage logs := by
  have hkept : (fs.remove "stats").get? "result" = some result :=
    (Fields.get?_remove_of_ne hnodup (by decide)).trans hresult
  have husage : (usage.map Usage.toValue).bind Usage.decode = usage := by
    cases usage with
    | none => rfl
    | some u => exact Usage.decode_toValue (h u rfl)
  simp only [ofSuccess, hstats, hkept, husage]

theorem ofFailure_eq {fs : Fields} {error : String} {violation : Option Violation}
    (herror : fs.get? "error" = some (.str error))
    (hkind : fs.get? "violationType" = violation.map fun v => .str v.kind.name)
    (hdetails : fs.get? "details" = violation.bind fun v => v.details.unlessNull)
    (h : ∀ v ∈ violation, v.message = error) (logs : List String) :
    ofFailure fs logs = failure error violation logs := by
  simp only [ofFailure, herror, hkind, hdetails]
  cases violation with
  | none => rfl
  | some v =>
    obtain rfl := h v rfl
    simp [asText, Value.asStr?, ViolationKind.ofName?_name, Value.getD_unlessNull]

/-- A consistent output is read back from its written form. -/
theorem ofValue_toValue {o : Output} (h : o.Consistent) : ofValue o.toValue = o := by
  have hsplit (logs : List String) (hlogs : ("logs", logs? logs) ∈ o.parts) :
      ofValue o.toValue = if o.isSuccess then ofSuccess o.rest logs else ofFailure o.rest logs := by
    rw [toValue_eq, ofValue, Fields.get?_present o.nodup_parts hlogs, logsOf_logs?, ← rest,
      isFailure_rest]
    cases o.isSuccess <;> rfl
  cases o with
  | success result usage logs =>
    rw [hsplit logs (by simp [parts])]
    exact ofSuccess_eq (nodup_rest _) (get?_rest (by simp [parts]) (by decide))
      (get?_rest (by simp [parts]) (by decide)) h logs
  | failure error violation logs =>
    rw [hsplit logs (by simp [parts])]
    exact ofFailure_eq (get?_rest (by simp [parts]) (by decide))
      (get?_rest (by simp [parts]) (by decide)) (get?_rest (by simp [parts]) (by decide)) h logs

/-- Whatever is classified, the output is consistent. -/
theorem ofValue_consistent (v : Value) : (ofValue v).Consistent := by
  cases v with
  | map fs =>
    rw [ofValue]
    split
    · intro violation hviolation
      obtain ⟨kind, _, rfl⟩ := Option.map_eq_some_iff.mp hviolation
      rfl
    · intro usage husage
      obtain ⟨stats, _, hdecode⟩ := Option.bind_eq_some_iff.mp husage
      exact Usage.fits_of_decode hdecode
  | _ => exact fun _ => nofun

/-- An output survives being written and classified again exactly if it is consistent, and what a
value is classified as always survives it. -/
theorem reclassified : (∀ o : Output, ofValue o.toValue = o ↔ o.Consistent) ∧
    ∀ v : Value, ofValue (ofValue v).toValue = ofValue v :=
  ⟨fun o => ⟨fun h => h ▸ ofValue_consistent o.toValue, ofValue_toValue⟩,
    fun v => ofValue_toValue (ofValue_consistent v)⟩

end Output
end Flowline
