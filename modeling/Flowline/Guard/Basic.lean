import Flowline.Guard.Comments
import Flowline.Guard.Dynamic
import Flowline.Sandbox.Policy
import Flowline.Sandbox.Violation

/-! The check of source text against a policy, made before any code runs. -/
namespace Flowline.Guard

/-- The modules that need a capability. -/
def restricted : Language → List (String × Capability)
  | .python => [("os", .fileSystem), ("shutil", .fileSystem), ("pathlib", .fileSystem),
      ("glob", .fileSystem), ("tempfile", .fileSystem), ("fileinput", .fileSystem),
      ("io", .fileSystem), ("socket", .network), ("ssl", .network), ("http", .network),
      ("urllib", .network), ("urllib3", .network), ("requests", .network), ("ftplib", .network),
      ("smtplib", .network), ("asyncio", .network), ("signal", .process),
      ("multiprocessing", .process), ("ctypes", .process), ("resource", .process),
      ("sys", .process), ("subprocess", .subprocess), ("pty", .subprocess)]
  | .javaScript => [("fs", .fileSystem), ("fs/promises", .fileSystem), ("net", .network),
      ("http", .network), ("https", .network), ("http2", .network), ("dgram", .network),
      ("dns", .network), ("tls", .network), ("os", .process), ("cluster", .process),
      ("worker_threads", .process), ("child_process", .subprocess)]

/-- The modules that only serve to evaluate code. -/
def evaluating : Language → List String
  | .python => ["code", "codeop", "importlib", "runpy"]
  | .javaScript => ["vm"]

/-- The capability that a module needs. -/
def capability? (language : Language) (module : String) : Option Capability :=
  (restricted language).lookup module

/-- Why a source is refused. -/
inductive Refusal where
  | dynamicCode (construct : String) (line : Nat)
  | evaluatingModule (ref : ModuleRef)
  | restrictedModule (ref : ModuleRef) (capability : Capability)
  | unlistedModule (ref : ModuleRef) (listed : List String)
deriving DecidableEq

namespace Refusal

def kind : Refusal → ViolationKind
  | dynamicCode .. | evaluatingModule _ => .dynamicCode
  | restrictedModule .. => .restrictedModule
  | unlistedModule .. => .unauthorizedModule

def message : Refusal → String
  | dynamicCode construct line =>
    s!"dynamic code evaluation is not allowed: {construct} (line {line})"
  | evaluatingModule r => s!"module '{r.name}' evaluates code at run time (line {r.line})"
  | restrictedModule r c => s!"module '{r.name}' requires the {c.phrase} capability, "
      ++ s!"which is disabled (line {r.line})"
  | unlistedModule r _ => s!"module '{r.name}' is not in the allowed module list (line {r.line})"

def details : Refusal → Value
  | dynamicCode construct line => .map [("construct", .str construct), ("line", .ofNat line)]
  | evaluatingModule r => .map [("module", .str r.name), ("line", .ofNat r.line)]
  | restrictedModule r c =>
    .map [("module", .str r.name), ("category", .str c.phrase), ("line", .ofNat r.line)]
  | unlistedModule r listed =>
    .map [("module", .str r.name), ("allowed", .strs listed), ("line", .ofNat r.line)]

def violation (r : Refusal) : Violation := ⟨r.kind, r.message, r.details⟩

end Refusal

/-- Why a policy does not let a module be loaded. -/
def moduleRefusal? (policy : Policy) (language : Language) (r : ModuleRef) : Option Refusal :=
  if (evaluating language).contains r.name then some (.evaluatingModule r)
  else match (capability? language r.name).filter fun c => !policy.allows c with
    | some c => some (.restrictedModule r c)
    | none =>
      if policy.allowedModules.isEmpty || policy.allowedModules.contains r.name then none
      else some (.unlistedModule r policy.allowedModules)

/-- Why a policy refuses a source: dynamic code comes before modules, those in their order. -/
def refusal? (policy : Policy) (language : Language) (source : String) : Option Refusal :=
  let code := withoutComments language source.toList
  match dynamicCode? language code with
  | some (construct, line) => some (.dynamicCode construct line)
  | none => (moduleRefs language code).findSome? (moduleRefusal? policy language)

end Flowline.Guard
