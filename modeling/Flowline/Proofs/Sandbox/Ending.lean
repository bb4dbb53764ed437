import Flowline.Sandbox.Unit

/-!
# How the end of a unit is recorded

A unit that was killed or left no output fails with the end of its error output, and one that left
anything else but a success fails as well. A success in the output file is recorded whatever the exit
code, so a unit that failed after writing it is recorded as a success.
-/
namespace Flowline.UnitEnd

variable {e : UnitExit} {file : Except FileError ByteArray}

/-- The output file could be read or is absent. -/
def IsSettled (file : Except FileError ByteArray) : Prop :=
  ∀ fault, file = .error fault → fault = .missing

/-- A failure for the given reason, which ends with the end of the error output. -/
def FailsWithTail (e : UnitExit) (r : Except SandboxError Output) : Prop :=
  ∃ message, e.tail.toList <:+ message.toList ∧ r = .ok (.failure message none [])

/-- How an end is to be recorded. -/
structure Faithful (e : UnitExit) (file : Except FileError ByteArray)
    (r : Except SandboxError Output) : Prop where
  /-- Only a unit that came to its end, and left a success, succeeds. -/
  success : ∀ o, r = .ok o → o.isSuccess = true → e.code? = some 0 ∧ e.wasKilled = false ∧
    ∃ bytes v, file = .ok bytes ∧ value? bytes = some v ∧ o = .ofValue v
  answered : IsSettled file → ∃ o, r = .ok o
  tail : e.wasKilled = true ∨ file = .error .missing → FailsWithTail e r

/-- The unit did not exit with zero, but was not killed and left a success. -/
def Overlooked (e : UnitExit) (file : Except FileError ByteArray) : Prop :=
  e.code? ≠ some 0 ∧ e.wasKilled = false ∧
    ∃ bytes v, file = .ok bytes ∧ value? bytes = some v ∧ (Output.ofValue v).isSuccess = true

theorem failsWithTail_withTail (message : String) (e : UnitExit) :
    FailsWithTail e (.ok (withTail message e)) := by
  unfold withTail
  split
  · rename_i hempty
    refine ⟨message, ?_, rfl⟩
    rw [String.isEmpty_iff.mp hempty]
    exact List.nil_suffix
  · refine ⟨message ++ ": " ++ e.tail, ?_, rfl⟩
    rw [String.toList_append]
    exact List.suffix_append ..

/-! ### The endings in turn -/

theorem classify_killed (h : e.wasKilled = true) : classify e file = .ok (withTail killed e) := by
  simp [classify, h]

theorem classify_missing (h : e.wasKilled = false) :
    classify e (.error .missing) = .ok (withTail (noOutput e) e) := by
  simp [classify, h]

theorem classify_fault (h : e.wasKilled = false) {fault : FileError} (hfault : fault ≠ .missing) :
    classify e (.error fault) = .error (.io fault.message) := by
  cases fault with
  | missing => exact absurd rfl hfault
  | _ => simp [classify, h]

theorem classify_value (h : e.wasKilled = false) {bytes : ByteArray} {v : Value}
    (hv : value? bytes = some v) : classify e (.ok bytes) = .ok (.ofValue v) := by
  simp [classify, h, hv]

theorem classify_unreadable (h : e.wasKilled = false) {bytes : ByteArray}
    (hv : value? bytes = none) : classify e (.ok bytes) = .ok (.ofError unreadable) := by
  simp [classify, h, hv]

/-! ### What is recorded -/

/-- A success is recorded only for what the file of a unit holds that was not killed. -/
theorem value_of_success {o : Output} (h : classify e file = .ok o) (ho : o.isSuccess = true) :
    e.wasKilled = false ∧ ∃ bytes v, file = .ok bytes ∧ value? bytes = some v ∧ o = .ofValue v := by
  cases hkilled : e.wasKilled with
  | true =>
    obtain rfl := Except.ok.inj ((classify_killed hkilled).symm.trans h)
    cases ho
  | false =>
    refine ⟨rfl, ?_⟩
    cases file with
    | error fault =>
      by_cases hfault : fault = .missing
      · subst hfault
        obtain rfl := Except.ok.inj ((classify_missing hkilled).symm.trans h)
        cases ho
      · cases (classify_fault hkilled hfault).symm.trans h
    | ok bytes =>
      cases hv : value? bytes with
      | none =>
        obtain rfl := Except.ok.inj ((classify_unreadable hkilled hv).symm.trans h)
        cases ho
      | some v =>
        exact ⟨bytes, v, rfl, hv, Except.ok.inj (h.symm.trans (classify_value hkilled hv))⟩

theorem classify_answers (h : IsSettled file) : ∃ o, classify e file = .ok o := by
  cases hkilled : e.wasKilled with
  | true => exact ⟨_, classify_killed hkilled⟩
  | false =>
    cases file with
    | error fault =>
      obtain rfl := h fault rfl
      exact ⟨_, classify_missing hkilled⟩
    | ok bytes =>
      cases hv : value? bytes with
      | none => exact ⟨_, classify_unreadable hkilled hv⟩
      | some v => exact ⟨_, classify_value hkilled hv⟩

theorem classify_failsWithTail (h : e.wasKilled = true ∨ file = .error .missing) :
    FailsWithTail e (classify e file) := by
  cases hkilled : e.wasKilled with
  | true => exact (@classify_killed e file hkilled).symm ▸ failsWithTail_withTail killed e
  | false =>
    obtain rfl : file = .error .missing := h.resolve_left (by simp [hkilled])
    exact (classify_missing hkilled).symm ▸ failsWithTail_withTail (noOutput e) e

theorem Overlooked.recorded (h : Overlooked e file) :
    ∃ o, classify e file = .ok o ∧ o.isSuccess = true := by
  obtain ⟨_, hkilled, bytes, v, rfl, hv, hsuccess⟩ := h
  exact ⟨_, classify_value hkilled hv, hsuccess⟩

theorem Overlooked.not_faithful (h : Overlooked e file) : ¬ Faithful e file (classify e file) := by
  obtain ⟨o, ho, hsuccess⟩ := h.recorded
  exact fun hfaithful => h.1 (hfaithful.success o ho hsuccess).1

/-- The end of a unit is recorded faithfully unless it failed with a success in its file, which is
then recorded. -/
theorem faithful_unless_overlooked (e : UnitExit) (file : Except FileError ByteArray) :
    (Faithful e file (classify e file) ↔ ¬ Overlooked e file) ∧
      (Overlooked e file → ∃ o, classify e file = .ok o ∧ o.isSuccess = true) := by
  refine ⟨⟨fun h hover => hover.not_faithful h, fun h => ⟨fun o ho hsuccess => ?_,
    classify_answers, classify_failsWithTail⟩⟩, Overlooked.recorded⟩
  obtain ⟨hkilled, bytes, v, hfile, hv, rfl⟩ := value_of_success ho hsuccess
  have hcode : e.code? = some 0 := Decidable.byContradiction fun hcode =>
    h ⟨hcode, hkilled, bytes, v, hfile, hv, hsuccess⟩
  exact ⟨hcode, hkilled, bytes, v, hfile, hv, rfl⟩

theorem value?_toUTF8 (text : String) : value? text.toUTF8 = Json.read text := by
  have htext : String.fromUTF8? text.toUTF8 = some text := by
    simp only [String.fromUTF8?, String.toUTF8_eq_toByteArray, dif_pos text.isValidUTF8]
    rfl
  rw [value?, htext, Option.bind_some]

/-- The bytes of a text that holds a result. -/
def resultBytes : ByteArray := "\x7b\"result\": 1\x7d".toUTF8

theorem value?_resultBytes : value? resultBytes = some (.map [("result", .int 1)]) := by
  rw [resultBytes, value?_toUTF8, Json.read]
  change Json.readChars _ (String.ofList _).toList = _
  rw [String.toList_ofList]
  rfl

/-- A unit that did not exit with zero, but was not killed, is overlooked once it left a result. -/
theorem overlooked_result (hcode : e.code? ≠ some 0) (hkilled : e.wasKilled = false) :
    Overlooked e (.ok resultBytes) :=
  ⟨hcode, hkilled, resultBytes, _, rfl, value?_resultBytes, rfl⟩

/-- After an exit with zero the result is recorded faithfully. -/
theorem clean_exit_faithful :
    ¬ Overlooked { code? := some 0 } (.ok resultBytes) ∧
      Faithful { code? := some 0 } (.ok resultBytes)
        (classify { code? := some 0 } (.ok resultBytes)) := by
  have hclean : ¬ Overlooked { code? := some 0 } (.ok resultBytes) := fun h => h.1 rfl
  exact ⟨hclean, (faithful_unless_overlooked _ _).1.mpr hclean⟩

/-- Neither an exit with three nor the end by a signal keeps the result from being recorded. -/
theorem failed_exits_overlooked :
    ¬ Faithful { code? := some 3 } (.ok resultBytes)
        (classify { code? := some 3 } (.ok resultBytes)) ∧
      ¬ Faithful { signal? := some 15 } (.ok resultBytes)
        (classify { signal? := some 15 } (.ok resultBytes)) := by
  have hexit : Overlooked { code? := some 3 } (.ok resultBytes) :=
    overlooked_result (by decide) (by decide)
  have hsignal : Overlooked { signal? := some 15 } (.ok resultBytes) :=
    overlooked_result (by decide) (by decide)
  exact ⟨hexit.not_faithful, hsignal.not_faithful⟩

end Flowline.UnitEnd
