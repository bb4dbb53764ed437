import Flowline.Plan.Basic
import Flowline.Validation.Basic

/-! Compiling a pipeline: validation, then a plan of its nodes in order. -/
namespace Flowline

/-- Why no plan can be made. -/
inductive PlanFault where
  | outstanding (errors : Nat)
  | order (fault : Graph.OrderFault)
  | unknownType (id type : String)
  | unknownDependency (id target : String)
  | duplicateIds
deriving DecidableEq

def PlanFault.message : PlanFault → String
  | outstanding errors =>
    s!"cannot compile a pipeline with {errors} outstanding validation error(s)"
  | order fault => fault.message
  | unknownType id type => s!"node '{id}' has unknown type '{type}'"
  | unknownDependency id target => s!"node '{id}' depends on unknown node '{target}'"
  | duplicateIds => "duplicate node ids"

/-- A pipeline that does not compile, with everything found wrong with it. -/
structure CompileFailure where
  report : Report
deriving Inhabited

def CompileFailure.message (f : CompileFailure) : String :=
  s!"Compilation failed with {f.report.errors.length} error(s)"

namespace Plan

def defaultVersion : String := "1.0.0"
def edgeKind : String := "data"

/-- The plan node of a declaration and the edges into it. -/
def buildNode (catalog : Catalog) (index : Nat) (d : Declaration) :
    StateM Resolver (Except PlanFault (PlanNode × List PlanEdge)) :=
  match catalog.get? d.type with
  | none => return .error (.unknownType d.id d.type)
  | some c => do
    let shapes ← Resolver.resolveAll d.dependencies
    let output ← Resolver.resolve d.id
    let edges := (d.dependencies.zip shapes).map fun (source, s) =>
      ⟨source, d.id, edgeKind, s.shape⟩
    return .ok ({
      id := d.id, type := d.type, backend := c.backend, params := d.params
      input := c.input.resolve d.params, output, index, dependsOn := d.dependencies
      description := c.description }, edges)

/-- Plan nodes and edges of all declarations, or the first fault. -/
def buildNodes (catalog : Catalog) (doc : Document) :
    Except PlanFault (List (PlanNode × List PlanEdge)) :=
  let run : StateM Resolver (List (Except PlanFault (PlanNode × List PlanEdge))) :=
    doc.nodes.zipIdx.mapM fun (d, i) => buildNode catalog i d
  (run.run { catalog, nodes := doc.nodes }).1.mapM fun part => part

/-- The plan of a document whose report and order are given; refused while the report has errors or
the order is not one of execution. -/
def build (catalog : Catalog) (doc : Document) (report : Report) (order : List String)
    (now : Moment) : Except PlanFault Plan := do
  if !report.errors.isEmpty then throw (.outstanding report.errors.length)
  match (Graph.ofDeclarations doc.nodes).checkOrder order with
  | .error fault => throw (.order fault)
  | .ok _ => pure ()
  let parts ← buildNodes catalog doc
  let hash := SipHash.hexDigits doc.hash
  return {
    id := doc.id.getD s!"pipeline-{hash}"
    name := doc.name
    description := doc.description
    version := doc.version.getD defaultVersion
    compiledAt := now
    nodeCount := parts.length
    isCyclic := false
    sourceHash := hash
    nodes := parts.map (·.1)
    edges := parts.flatMap (·.2)
    order }

def invalidPlan : String := "Invalid execution plan: "

/-- Compiles a document; what validation finds is in the failure. -/
def compileDocument (catalog : Catalog) (doc : Document) (now : Moment) :
    Except CompileFailure Plan :=
  let semantic : Report := ⟨Validation.semanticFaults catalog doc⟩
  if !semantic.isValid then .error ⟨semantic⟩
  else
    let report := semantic.extend (Validation.allCompatibilityFaults catalog doc)
    match (Graph.ofDeclarations doc.nodes).topologicalOrder with
    | .error path => .error ⟨report.extend [Validation.cycleFault path]⟩
    | .ok order =>
      if !report.isValid then .error ⟨report⟩
      else match build catalog doc report order now with
        | .ok plan => .ok plan
        | .error fault =>
          .error ⟨report.extend [(Finding.unbuildable (invalidPlan ++ fault.message)).report]⟩

def compile (catalog : Catalog) (source : String) (format : Format) (now : Moment) :
    Except CompileFailure Plan :=
  match Document.read source format with
  | .ok doc => compileDocument catalog doc now
  | .error faults => .error ⟨⟨faults⟩⟩

/-- The diagnostics of a compilation; one that succeeds has none. -/
def diagnose (catalog : Catalog) (source : String) (format : Format) (now : Moment) : Report :=
  match compile catalog source format now with
  | .ok _ => ⟨[]⟩
  | .error failure => failure.report

end Plan
end Flowline
