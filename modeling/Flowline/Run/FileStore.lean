import Flowline.Files.Tree
import Flowline.Json.Reader
import Flowline.Run.Store

/-! A store of results in the files of one folder: per run a file with a line for each node result,
and a file with the final result. -/
namespace Flowline.FileStore

def nodesPath (folder runId : String) : String := Path.join folder (runId ++ ".nodes.jsonl")
def runPath (folder runId : String) : String := Path.join folder (runId ++ ".json")

/-- Failures of the file tree are failures of the store. -/
def stored (r : Except FileError α) : Except PipelineError α :=
  r.mapError fun fault => .store fault.message

def recordNode (folder runId : String) (r : NodeResult) (root : Entry) :
    Except PipelineError Entry :=
  stored do
    (← root.makeFolders folder).append (nodesPath folder runId) (Json.compact r.toValue ++ "\n")

def recordRun (folder : String) (r : RunResult) (root : Entry) : Except PipelineError Entry :=
  stored do
    (← root.makeFolders folder).write (runPath folder r.runId) (Json.pretty r.toValue)

/-- The content of a file, if there is one. -/
def content? (path : String) (root : Entry) : Except PipelineError (Option String) :=
  match root.read path with
  | .ok content => .ok (some content)
  | .error .missing => .ok none
  | .error fault => .error (.store fault.message)

def parse (d : Decoder α) (text : String) : Except PipelineError α :=
  match (Json.readRecord text).bind d with
  | some a => .ok a
  | none => .error (.store "unreadable content")

/-- The node results of a run in the order in which they were recorded. -/
def nodeResults (folder runId : String) (root : Entry) : Except PipelineError (List NodeResult) := do
  match ← content? (nodesPath folder runId) root with
  | none => return []
  | some content =>
    ((Text.lines content).filter fun l => !Text.allBlank l).mapM (parse NodeResult.decode)

/-- The result that was recorded last. -/
def loadRun (folder runId : String) (root : Entry) : Except PipelineError (Option RunResult) := do
  match ← content? (runPath folder runId) root with
  | none => return none
  | some content => (parse RunResult.decode content).map some

end Flowline.FileStore

/-! Where the results of runs are kept: in the files of a folder, or in memory. -/
namespace Flowline

structure ResultStore where
  /-- Without a folder results are kept in memory. -/
  folder : Option String := none
  memory : MemoryStore := {}
  files : Entry := .folder []
deriving Inhabited

namespace ResultStore

def withFiles (s : ResultStore) (r : Except PipelineError Entry) :
    Except PipelineError ResultStore :=
  r.map fun files => { s with files }

def recordNode (s : ResultStore) (runId : String) (r : NodeResult) :
    Except PipelineError ResultStore :=
  match s.folder with
  | some folder => s.withFiles (FileStore.recordNode folder runId r s.files)
  | none => .ok { s with memory := s.memory.recordNode runId r }

def recordRun (s : ResultStore) (r : RunResult) : Except PipelineError ResultStore :=
  match s.folder with
  | some folder => s.withFiles (FileStore.recordRun folder r s.files)
  | none => .ok { s with memory := s.memory.recordRun r }

def nodeResults (s : ResultStore) (runId : String) : Except PipelineError (List NodeResult) :=
  match s.folder with
  | some folder => FileStore.nodeResults folder runId s.files
  | none => .ok (s.memory.nodeResults runId)

def loadRun (s : ResultStore) (runId : String) : Except PipelineError (Option RunResult) :=
  match s.folder with
  | some folder => FileStore.loadRun folder runId s.files
  | none => .ok (s.memory.loadRun runId)

def calls : RunStore ResultStore where
  recordNode runId r s := s.recordNode runId r
  recordRun r s := s.recordRun r
  nodeResults runId s := s.nodeResults runId
  loadRun runId s := s.loadRun runId

end ResultStore

end Flowline
