import Flowline.Proofs.Document.Reader
import Flowline.Proofs.Plan.Compile

/-!
# What a compilation reports

A document compiles exactly when validation finds no error in it; otherwise the compilation reports
what validation does, since a document that validation clears is never refused when its plan is
built. Only the warnings about a document that compiles are not reported.
-/
namespace Flowline

theorem Report.errors_eq_nil_iff {r : Report} : r.errors = [] ↔ r.isValid = true := by
  rw [Report.errors, List.filter_eq_nil_iff, Report.isValid, List.all_eq_true]
  exact forall₂_congr fun d _ => by simp

theorem Report.warnings_eq_nil_iff {r : Report} (h : r.isValid = true) :
    r.warnings = [] ↔ r = ⟨[]⟩ := by
  have hall : r.warnings = r.diagnostics := List.filter_eq_self.mpr (List.all_eq_true.mp h)
  rw [hall]
  exact ⟨fun hnil => congrArg Report.mk hnil, fun hr => congrArg Report.diagnostics hr⟩

namespace Plan

variable {catalog : Catalog} {doc : Document}

/-- A structured document with an order and no outstanding errors has a plan. -/
theorem exists_build (hs : Structured catalog doc) {order : List String}
    (horder : (Graph.ofDeclarations doc.nodes).topologicalOrder = .ok order) {report : Report}
    (hreport : report.isValid = true) (now : Moment) :
    ∃ plan, build catalog doc report order now = .ok plan := by
  have hgraph := Graph.wellFormed_ofDeclarations doc.nodes
  obtain ⟨hperm, hforward⟩ := Graph.topologicalOrder_sound hgraph horder
  have hcheck : (Graph.ofDeclarations doc.nodes).checkOrder order = .ok () :=
    (Graph.checkOrder_eq_ok_iff hgraph.ids_nodup).mpr
      ⟨hperm, fun a _ b hb hab => Nat.le_of_lt (hforward a b hab hb)⟩
  have hnodes : buildNodes catalog doc = _ := buildNodes_eq (order_spec hs horder).2 hs.known
  have herrors : report.errors.isEmpty = true :=
    List.isEmpty_iff.mpr (Report.errors_eq_nil_iff.mpr hreport)
  unfold build
  rw [hnodes, hcheck]
  simp only [herrors, Bool.not_true, Bool.false_eq_true, if_false]
  exact ⟨_, rfl⟩

theorem cycleFault_isError (path : List String) : (Validation.cycleFault path).isError = true := by
  unfold Validation.cycleFault
  split <;> rfl

/-- A document compiles when it is valid; else its report is that of validation. -/
theorem compileDocument_cases (catalog : Catalog) (doc : Document) (now : Moment) :
    (Validation.checkDocument catalog doc).isValid = true ∧
        (∃ plan, compileDocument catalog doc now = .ok plan) ∨
      (Validation.checkDocument catalog doc).isValid = false ∧
        compileDocument catalog doc now = .error ⟨Validation.checkDocument catalog doc⟩ := by
  unfold compileDocument Validation.checkDocument Validation.cycleFaults
  cases hsemantic : (Report.mk (Validation.semanticFaults catalog doc)).isValid with
  | false => exact Or.inr ⟨by simp [hsemantic], by simp [hsemantic]⟩
  | true =>
    obtain ⟨hs, -⟩ := Validation.semanticFaults_noErrors (isValid_iff.mp hsemantic)
    simp only [hsemantic, Bool.not_true, Bool.false_eq_true, if_false, if_true]
    cases horder : (Graph.ofDeclarations doc.nodes).topologicalOrder with
    | error path =>
      refine Or.inr ⟨?_, ?_⟩
      · simp [Report.extend, Report.isValid, cycleFault_isError]
      · simp [Report.extend]
    | ok order =>
      simp only [List.append_nil]
      cases hvalid : ((Report.mk (Validation.semanticFaults catalog doc)).extend
          (Validation.allCompatibilityFaults catalog doc)).isValid with
      | false => exact Or.inr ⟨rfl, by simp⟩
      | true =>
        obtain ⟨plan, hplan⟩ := exists_build hs horder hvalid now
        exact Or.inl ⟨rfl, plan, by simp [hplan]⟩

/-- What validation clears is built, and that is the plan of the document. -/
theorem Cleared.exists_plan {report : Report} {order : List String}
    (h : Cleared catalog doc report order) (now : Moment) :
    ∃ plan, build catalog doc report order now = .ok plan ∧
      compileDocument catalog doc now = .ok plan := by
  obtain ⟨hs, -⟩ := Validation.semanticFaults_noErrors (isValid_iff.mp h.semantic)
  obtain ⟨plan, hplan⟩ := exists_build hs h.order h.valid now
  exact ⟨plan, hplan, compileDocument_eq_ok_iff.mpr ⟨report, order, h, hplan⟩⟩

/-- A document compiles exactly when validation finds no error in it, and what does not compile is
reported as by validation; the plan of what validation clears is never refused. -/
theorem compileDocument_agrees (catalog : Catalog) (doc : Document) (now : Moment) :
    ((∃ plan, compileDocument catalog doc now = .ok plan) ↔
        (Validation.checkDocument catalog doc).errors = []) ∧
      (∀ failure, compileDocument catalog doc now = .error failure →
        failure.report = Validation.checkDocument catalog doc) ∧
      ∀ report order, Cleared catalog doc report order →
        ∃ plan, build catalog doc report order now = .ok plan ∧
          compileDocument catalog doc now = .ok plan := by
  refine ⟨?_, ?_, fun _ _ h => h.exists_plan now⟩
  · rw [Report.errors_eq_nil_iff]
    obtain ⟨hvalid, hplan⟩ | ⟨hinvalid, herror⟩ := compileDocument_cases catalog doc now
    · exact ⟨fun _ => hvalid, fun _ => hplan⟩
    · simp [hinvalid, herror]
  · intro failure hfailure
    obtain ⟨-, plan, hplan⟩ | ⟨-, herror⟩ := compileDocument_cases catalog doc now
    · exact nomatch hplan.symm.trans hfailure
    · obtain rfl := Except.error.inj (herror.symm.trans hfailure)
      rfl

theorem averageSource_cleared : ∃ doc report order,
    Document.read averageSource .yaml = .ok doc ∧ Cleared .builtin doc report order ∧
      ∃ plan, build .builtin doc report order default = .ok plan ∧
        compileDocument .builtin doc default = .ok plan := by
  obtain ⟨_, hcompile⟩ := averageSource_compiles
  obtain ⟨doc, hread, hdoc⟩ := compile_eq_ok_iff.mp hcompile
  obtain ⟨report, order, hcleared, -⟩ := compileDocument_eq_ok_iff.mp hdoc
  exact ⟨doc, report, order, hread, hcleared,
    (compileDocument_agrees .builtin doc default).2.2 report order hcleared⟩

/-- What a compilation reports: nothing on a valid source, else all that validation finds. -/
theorem diagnose_eq (catalog : Catalog) (source : String) (format : Format) (now : Moment) :
    diagnose catalog source format now =
      if (Validation.check catalog source format).isValid then ⟨[]⟩
      else Validation.check catalog source format := by
  unfold diagnose compile Validation.check
  cases hread : Document.read source format with
  | error faults =>
    obtain ⟨d, hd, he⟩ := Document.read_refuses source format faults hread
    have hinvalid : (Report.mk faults).isValid = false :=
      List.all_eq_false.mpr ⟨d, hd, by simp [he]⟩
    simp [hinvalid]
  | ok doc =>
    obtain ⟨hvalid, plan, hplan⟩ | ⟨hinvalid, herror⟩ := compileDocument_cases catalog doc now
    · simp [hvalid, hplan]
    · simp [hinvalid, herror]

/-- Compilation and validation agree on which sources are valid, and on the whole report unless
the source is valid and has warnings. -/
theorem diagnose_agrees (catalog : Catalog) (source : String) (format : Format) (now : Moment) :
    (diagnose catalog source format now).isValid =
        (Validation.check catalog source format).isValid ∧
      (diagnose catalog source format now = Validation.check catalog source format ↔
        ((Validation.check catalog source format).isValid = true →
          (Validation.check catalog source format).warnings = [])) := by
  rw [diagnose_eq]
  cases hvalid : (Validation.check catalog source format).isValid with
  | false => simp [hvalid]
  | true =>
    refine ⟨rfl, ?_⟩
    rw [if_pos rfl, Report.warnings_eq_nil_iff hvalid]
    exact ⟨fun h _ => h.symm, fun h => (h rfl).symm⟩

/-- Records with a parameter that their type does not know. -/
def colouredSource : String :=
  "- id: a\n  type: InlineDataNode\n  params: \x7brows: [\x7bclose: 1\x7d], colour: red\x7d\n"

set_option maxRecDepth 100000 in
theorem colouredSource_unreported :
    (Validation.check .builtin colouredSource .yaml).diagnostics.map (·.text) =
        ["[W201] Unknown parameter 'colour' for InlineDataNode node 'a' (node a) at "
          ++ "params.colour"] ∧
      diagnose .builtin colouredSource .yaml default = ⟨[]⟩ := by
  decide +kernel

end Plan
end Flowline
