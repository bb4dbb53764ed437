import Flowline.Proofs.Files.Tree
import Flowline.Proofs.Run.Result
import Flowline.Run.FileStore

/-!
# Stores as they are used

A store is known by its answers to a sequence of calls. What a call is to be answered depends on the
calls before it alone; the store in memory answers so, and so does a store in the files of a folder
that was empty. Each recorded node result is one line of its run's file, so the lines are the
results in the order of recording.
-/
namespace Flowline

/-- What a store is asked. -/
inductive StoreCall where
  | recordNode (runId : String) (r : NodeResult)
  | recordRun (r : RunResult)
  | nodeResults (runId : String)
  | loadRun (runId : String)

/-- What a store answers. -/
inductive StoreAnswer where
  | recorded
  | nodes (results : List NodeResult)
  | run (result : Option RunResult)

namespace StoreCall

/-- The run that a call is about. -/
def runId : StoreCall → String
  | recordNode runId _ | nodeResults runId | loadRun runId => runId
  | recordRun r => r.runId

/-- The result of a node that a call records for a run. -/
def node? (runId : String) : StoreCall → Option NodeResult
  | recordNode id r => if id = runId then some r else none
  | _ => none

/-- The result of a run that a call records. -/
def run? (runId : String) : StoreCall → Option RunResult
  | recordRun r => if r.runId = runId then some r else none
  | _ => none

/-- The node results that calls recorded for a run, in this order. -/
def nodesOf (past : List StoreCall) (runId : String) : List NodeResult :=
  past.filterMap (node? runId)

/-- The result of a run that was recorded last. -/
def runOf (past : List StoreCall) (runId : String) : Option RunResult :=
  (past.filterMap (run? runId)).getLast?

/-- The answer to a call after other calls. -/
def answer (past : List StoreCall) : StoreCall → StoreAnswer
  | recordNode .. | recordRun _ => .recorded
  | nodeResults runId => .nodes (nodesOf past runId)
  | loadRun runId => .run (runOf past runId)

/-- The answers to further calls after other calls. -/
def answers (past : List StoreCall) : List StoreCall → List StoreAnswer
  | [] => []
  | c :: rest => c.answer past :: answers (past ++ [c]) rest

theorem getElem?_answers (past calls : List StoreCall) (i : Nat) :
    (answers past calls)[i]? = calls[i]?.map (answer (past ++ calls.take i)) := by
  induction calls generalizing past i with
  | nil => rfl
  | cons c calls ih =>
    cases i with
    | zero => simp [answers]
    | succ i => simp [answers, ih]

theorem nodesOf_concat (past : List StoreCall) (c : StoreCall) (runId : String) :
    nodesOf (past ++ [c]) runId = nodesOf past runId ++ (c.node? runId).toList := by
  rw [nodesOf, List.filterMap_append]
  cases h : c.node? runId <;> simp [h, nodesOf]

theorem runOf_concat (past : List StoreCall) (c : StoreCall) (runId : String) :
    runOf (past ++ [c]) runId = (c.run? runId).or (runOf past runId) := by
  rw [runOf, List.filterMap_append]
  cases h : c.run? runId <;> simp [h, runOf]

end StoreCall

namespace RunStore

/-- The answer of a store to a call, and its next state. -/
def call (calls : RunStore κ) : StoreCall → κ → Except PipelineError (StoreAnswer × κ)
  | .recordNode runId r, k => (calls.recordNode runId r k).map (.recorded, ·)
  | .recordRun r, k => (calls.recordRun r k).map (.recorded, ·)
  | .nodeResults runId, k => (calls.nodeResults runId k).map (.nodes ·, k)
  | .loadRun runId, k => (calls.loadRun runId k).map (.run ·, k)

/-- The answers of a store to a sequence of calls. A call that fails leaves the state as it is. -/
def answers (calls : RunStore κ) : List StoreCall → κ → List (Except PipelineError StoreAnswer)
  | [], _ => []
  | c :: rest, k =>
    match calls.call c k with
    | .ok (a, k') => .ok a :: calls.answers rest k'
    | .error fault => .error fault :: calls.answers rest k

/-- In states that stand for past calls, each call of a kind is answered as the past demands. -/
def Remembers (calls : RunStore κ) (kind : StoreCall → Prop) (stands : κ → List StoreCall → Prop) :
    Prop :=
  ∀ k past, stands k past → ∀ c, kind c →
    ∃ k', calls.call c k = .ok (c.answer past, k') ∧ stands k' (past ++ [c])

/-- A store that remembers answers all calls of a sequence as the calls before them demand. -/
theorem Remembers.answers_eq {calls : RunStore κ} {kind : StoreCall → Prop}
    {stands : κ → List StoreCall → Prop} (h : calls.Remembers kind stands) {k : κ}
    {past : List StoreCall} (hk : stands k past) {cs : List StoreCall} (hcs : ∀ c ∈ cs, kind c) :
    calls.answers cs k = (StoreCall.answers past cs).map .ok := by
  induction cs generalizing k past with
  | nil => rfl
  | cons c cs ih =>
    obtain ⟨hc, hrest⟩ := List.forall_mem_cons.mp hcs
    obtain ⟨k', hcall, hk'⟩ := h k past hk c hc
    rw [answers, hcall, StoreCall.answers, List.map_cons]
    exact congrArg _ (ih hk' hrest)

end RunStore

namespace MemoryStore

/-- The store has what calls have recorded. -/
structure Holds (s : MemoryStore) (past : List StoreCall) : Prop where
  nodes : ∀ runId, s.nodeResults runId = StoreCall.nodesOf past runId
  runs : ∀ runId, s.loadRun runId = StoreCall.runOf past runId

theorem holds_nil : Holds {} [] := ⟨fun _ => rfl, fun _ => rfl⟩

theorem nodeResults_recordNode (s : MemoryStore) (id : String) (r : NodeResult) (runId : String) :
    (s.recordNode id r).nodeResults runId =
      s.nodeResults runId ++ (StoreCall.node? runId (.recordNode id r)).toList := by
  by_cases hid : id = runId
  · simp [nodeResults, recordNode, StoreCall.node?, hid]
  · simp [nodeResults, recordNode, StoreCall.node?, hid]

theorem loadRun_recordRun (s : MemoryStore) (r : RunResult) (runId : String) :
    (s.recordRun r).loadRun runId =
      (StoreCall.run? runId (.recordRun r)).or (s.loadRun runId) := by
  by_cases hid : r.runId = runId
  · simp [loadRun, recordRun, StoreCall.run?, hid]
  · have hother : (runId == r.runId) = false := beq_eq_false_iff_ne.mpr (Ne.symm hid)
    simp [loadRun, recordRun, StoreCall.run?, hid, List.lookup_cons, hother]

/-- One more call is remembered by what it adds for every run. -/
theorem Holds.step {s s' : MemoryStore} {past : List StoreCall} (hs : s.Holds past) {c : StoreCall}
    (hnodes : ∀ runId, s'.nodeResults runId = s.nodeResults runId ++ (c.node? runId).toList)
    (hruns : ∀ runId, s'.loadRun runId = (c.run? runId).or (s.loadRun runId)) :
    s'.Holds (past ++ [c]) where
  nodes runId := by rw [hnodes, hs.nodes, StoreCall.nodesOf_concat]
  runs runId := by rw [hruns, hs.runs, StoreCall.runOf_concat]

/-- The store in memory answers every call as the calls before it demand. -/
theorem remembers : calls.Remembers (fun _ => True) Holds := by
  intro s past hs c _
  cases c with
  | recordNode id r =>
    exact ⟨s.recordNode id r, rfl, hs.step (nodeResults_recordNode s id r) fun _ => rfl⟩
  | recordRun r =>
    exact ⟨s.recordRun r, rfl, hs.step (fun _ => (List.append_nil _).symm) (loadRun_recordRun s r)⟩
  | nodeResults id =>
    refine ⟨s, ?_, hs.step (fun _ => (List.append_nil _).symm) fun _ => rfl⟩
    rw [StoreCall.answer, ← hs.nodes]
    rfl
  | loadRun id =>
    refine ⟨s, ?_, hs.step (fun _ => (List.append_nil _).symm) fun _ => rfl⟩
    rw [StoreCall.answer, ← hs.runs]
    rfl

end MemoryStore

/-! ### Lines of a file -/

namespace FileStore

/-- The line of a node result. -/
def line (r : NodeResult) : List Char := (Json.compact r.toValue).toList

theorem exists_line (r : NodeResult) : ∃ body, line r = '\x7b' :: body ++ ['\x7d'] := by
  rw [line, NodeResult.toValue, Json.compact, String.toList_append, String.toList_append]
  exact ⟨_, rfl⟩

theorem line_no_feed (r : NodeResult) : '\n' ∉ line r := Json.Layout.compact_no_feed r.toValue

/-- A line begins with a brace. -/
theorem not_allBlank_line (r : NodeResult) : Text.allBlank (String.ofList (line r)) = false := by
  obtain ⟨body, hbody⟩ := exists_line r
  rw [Text.allBlank, String.toList_ofList, hbody]
  rfl

/-- A line ends with a brace, so no carriage return is taken from it. -/
theorem stripReturn_line (r : NodeResult) : Text.stripReturn (line r) = line r := by
  obtain ⟨body, hbody⟩ := exists_line r
  rw [Text.stripReturn, hbody, List.getLast?_concat, if_neg (by decide)]

/-- The content of the file of a run's node results; without results there is no file. -/
def nodesText (rs : List NodeResult) : Option String :=
  if rs = [] then none else some (String.ofList (Text.unlines (rs.map line)))

theorem nodesText_concat (rs : List NodeResult) (r : NodeResult) :
    nodesText (rs ++ [r]) =
      some ((nodesText rs).getD "" ++ (Json.compact r.toValue ++ "\n")) := by
  have hbefore : ((nodesText rs).getD "").toList = Text.unlines (rs.map line) := by
    unfold nodesText
    split
    · rename_i hrs
      rw [hrs]
      rfl
    · rw [Option.getD_some, String.toList_ofList]
  rw [nodesText, if_neg (by simp), Option.some_inj, ← String.toList_inj, String.toList_ofList,
    String.toList_append, String.toList_append, hbefore, Text.unlines, List.map_append,
    List.flatMap_append, List.map_singleton, List.flatMap_singleton]
  rfl

/-- The lines of the file are the results. -/
theorem lines_unlines (rs : List NodeResult) :
    (Text.lines (String.ofList (Text.unlines (rs.map line)))).filter (fun l => !Text.allBlank l) =
      rs.map fun r => Json.compact r.toValue := by
  have hfeed : ∀ l ∈ rs.map line, '\n' ∉ l := List.forall_mem_map.mpr fun r _ => line_no_feed r
  have hlines : Text.lines (String.ofList (Text.unlines (rs.map line))) =
      rs.map fun r => String.ofList (line r) := by
    rw [Text.lines, String.toList_ofList, Text.lineChars_unlines hfeed, List.map_map, List.map_map]
    refine List.map_congr_left fun r _ => ?_
    simp only [Function.comp_apply, stripReturn_line]
  have hkept : ∀ l ∈ rs.map fun r => String.ofList (line r), (!Text.allBlank l) = true := by
    refine List.forall_mem_map.mpr fun r _ => ?_
    rw [not_allBlank_line, Bool.not_false]
  rw [hlines, List.filter_eq_self.mpr hkept]
  simp only [line, String.ofList_toList]

/-! ### Names and paths of the files -/

theorem nodes_ne_run (id id' : String) : id ++ ".nodes.jsonl" ≠ id' ++ ".json" := by
  intro h
  have hlast := congrArg (fun s : String => s.toList.getLast?) h
  simp at hlast

theorem isName_append {id suffix : String} (hid : '/' ∉ id.toList) (hsuffix : '/' ∉ suffix.toList)
    (hlong : 2 < suffix.toList.length) (hsize : (id ++ suffix).utf8ByteSize ≤ Entry.maxName) :
    Path.IsName (id ++ suffix) := by
  have hlength : (id ++ suffix).toList.length = id.toList.length + suffix.toList.length := by
    rw [String.toList_append, List.length_append]
  have hne : ∀ s : String, s.toList.length ≤ 2 → id ++ suffix ≠ s := by
    rintro _ hs rfl
    omega
  refine ⟨?_, hne _ (by decide), hne _ (by decide), hne _ (by decide), hsize⟩
  rw [String.toList_append, List.mem_append, not_or]
  exact ⟨hid, hsuffix⟩

end FileStore

/-! ### Calls that files can answer -/

namespace StoreCall

/-- The name of the file that a call is about. -/
def fileName : StoreCall → String
  | recordNode runId _ | nodeResults runId => runId ++ ".nodes.jsonl"
  | recordRun r => r.runId ++ ".json"
  | loadRun runId => runId ++ ".json"

/-- The result that a call records, if it does, can be written and is read from its text. -/
def Restorable : StoreCall → Prop
  | recordNode _ r => r.Writable ∧ Json.Restored Json.compact r.toValue
  | recordRun r => r.Writable ∧ Json.Restored Json.pretty r.toValue
  | _ => True

/-- A call on a run whose id is a single name, and not too long for the name of the call's file. -/
structure Nameable (c : StoreCall) : Prop where
  single : '/' ∉ c.runId.toList
  short : c.fileName.utf8ByteSize ≤ Entry.maxName

instance (c : StoreCall) : Decidable c.Nameable :=
  decidable_of_iff ('/' ∉ c.runId.toList ∧ c.fileName.utf8ByteSize ≤ Entry.maxName)
    ⟨fun h => ⟨h.1, h.2⟩, fun h => ⟨h.single, h.short⟩⟩

theorem Nameable.isName {c : StoreCall} (h : c.Nameable) : Path.IsName c.fileName := by
  cases c with
  | recordNode | nodeResults =>
    exact FileStore.isName_append h.single (by decide) (by decide) h.short
  | recordRun | loadRun =>
    exact FileStore.isName_append h.single (by decide) (by decide) h.short

theorem restorable_of_mem_nodesOf {past : List StoreCall} (h : ∀ c ∈ past, c.Restorable)
    {runId : String} {r : NodeResult} (hr : r ∈ nodesOf past runId) :
    r.Writable ∧ Json.Restored Json.compact r.toValue := by
  obtain ⟨c, hc, hnode⟩ := List.mem_filterMap.mp hr
  cases c with
  | recordNode id q =>
    simp only [node?, Option.ite_none_right_eq_some, Option.some.injEq] at hnode
    obtain ⟨-, rfl⟩ := hnode
    exact h _ hc
  | recordRun | nodeResults | loadRun => cases hnode

theorem restorable_of_runOf {past : List StoreCall} (h : ∀ c ∈ past, c.Restorable)
    {runId : String} {r : RunResult} (hr : runOf past runId = some r) :
    r.Writable ∧ Json.Restored Json.pretty r.toValue := by
  obtain ⟨c, hc, hrun⟩ := List.mem_filterMap.mp (List.mem_of_getLast? hr)
  cases c with
  | recordRun q =>
    simp only [run?, Option.ite_none_right_eq_some, Option.some.injEq] at hrun
    obtain ⟨-, rfl⟩ := hrun
    exact h _ hc
  | recordNode | nodeResults | loadRun => cases hrun

end StoreCall

namespace FileStore

/-! ### The folder after some calls -/

/-- The content of the file of a run's result. -/
def runText (r : RunResult) : String := Json.pretty r.toValue

/-- The files in the folder are those that calls have made, and their results can be read. -/
structure Holds (folder : String) (files : Entry) (past : List StoreCall) : Prop where
  contents : ∃ entries, files.entry folder = .ok (.folder entries) ∧
    (∀ runId, entries.lookup (runId ++ ".nodes.jsonl") =
      (nodesText (StoreCall.nodesOf past runId)).map .file) ∧
    ∀ runId, entries.lookup (runId ++ ".json") =
      ((StoreCall.runOf past runId).map runText).map .file
  restorable : ∀ c ∈ past, c.Restorable

variable {folder : String} {files : Entry} {past : List StoreCall}

theorem holds_nil (h : files.entry folder = .ok (.folder [])) : Holds folder files [] :=
  ⟨⟨[], h, fun _ => rfl, fun _ => rfl⟩, List.forall_mem_nil _⟩

theorem Holds.concat_restorable (h : Holds folder files past) {c : StoreCall} (hc : c.Restorable) :
    ∀ c' ∈ past ++ [c], c'.Restorable :=
  List.forall_mem_append.mpr ⟨h.restorable, List.forall_mem_singleton.mpr hc⟩

/-- A recorded node result is one more line of its run's file. -/
theorem Holds.recordNode (h : Holds folder files past) {runId : String} {r : NodeResult}
    (hname : (StoreCall.recordNode runId r).Nameable)
    (hr : (StoreCall.recordNode runId r).Restorable) :
    ∃ files', FileStore.recordNode folder runId r files = .ok files' ∧
      Holds folder files' (past ++ [.recordNode runId r]) := by
  obtain ⟨entries, hentry, hnodes, hruns⟩ := h.contents
  obtain ⟨files', entries', hedit, hentry', hlookup⟩ := Entry.exists_edit_join hentry hname.isName
    (hnodes runId) (· ++ (Json.compact r.toValue ++ "\n"))
  refine ⟨files', ?_, ⟨entries', hentry', fun id => ?_, fun id => ?_⟩, h.concat_restorable hr⟩
  · rw [FileStore.recordNode, Entry.makeFolders_eq hentry]
    exact congrArg stored hedit
  · rw [hlookup, StoreCall.nodesOf_concat, StoreCall.node?]
    by_cases hid : runId = id
    · subst hid
      rw [StoreCall.fileName, if_pos rfl, if_pos rfl, Option.toList_some, nodesText_concat]
      rfl
    · have hother : id ++ ".nodes.jsonl" ≠ runId ++ ".nodes.jsonl" :=
        fun heq => hid ((String.append_left_inj _).mp heq).symm
      rw [StoreCall.fileName, if_neg hother, if_neg hid, hnodes]
      simp
  · have hother : id ++ ".json" ≠ runId ++ ".nodes.jsonl" := (nodes_ne_run runId id).symm
    rw [hlookup, StoreCall.fileName, if_neg hother, hruns, StoreCall.runOf_concat]
    rfl

/-- The recorded result of a run takes the place of an earlier one. -/
theorem Holds.recordRun (h : Holds folder files past) {r : RunResult}
    (hname : (StoreCall.recordRun r).Nameable) (hr : (StoreCall.recordRun r).Restorable) :
    ∃ files', FileStore.recordRun folder r files = .ok files' ∧
      Holds folder files' (past ++ [.recordRun r]) := by
  obtain ⟨entries, hentry, hnodes, hruns⟩ := h.contents
  obtain ⟨files', entries', hedit, hentry', hlookup⟩ := Entry.exists_edit_join hentry hname.isName
    (hruns r.runId) fun _ => Json.pretty r.toValue
  refine ⟨files', ?_, ⟨entries', hentry', fun id => ?_, fun id => ?_⟩, h.concat_restorable hr⟩
  · rw [FileStore.recordRun, Entry.makeFolders_eq hentry]
    exact congrArg stored hedit
  · rw [hlookup, StoreCall.fileName, if_neg (nodes_ne_run id r.runId), hnodes,
      StoreCall.nodesOf_concat]
    simp [StoreCall.node?]
  · rw [hlookup, StoreCall.runOf_concat, StoreCall.run?]
    by_cases hid : r.runId = id
    · subst hid
      rw [StoreCall.fileName, if_pos rfl, if_pos rfl]
      rfl
    · have hother : id ++ ".json" ≠ r.runId ++ ".json" :=
        fun heq => hid ((String.append_left_inj _).mp heq).symm
      rw [StoreCall.fileName, if_neg hother, if_neg hid, hruns]
      simp

theorem parse_eq {α : Type} {d : Decoder α} {text : String} {v : Value} {a : α}
    (hread : Json.readRecord text = some v) (hdecode : d v = some a) : parse d text = .ok a := by
  rw [parse, hread, Option.bind_some, hdecode]

/-- What a file in the folder contains. -/
theorem content?_eq {entries : List (String × Entry)} (h : files.entry folder = .ok (.folder entries))
    {name : String} (hname : Path.IsName name) {content : Option String}
    (hcontent : entries.lookup name = content.map .file) :
    content? (Path.join folder name) files = .ok content := by
  rw [content?, Entry.read_join h hname hcontent]
  cases content <;> rfl

theorem nodeResults_eq {runId : String} {content : Option String}
    (h : content? (nodesPath folder runId) files = .ok content) :
    FileStore.nodeResults folder runId files = content.elim (.ok []) fun text =>
      ((Text.lines text).filter fun l => !Text.allBlank l).mapM (parse NodeResult.decode) := by
  rw [FileStore.nodeResults, h]
  cases content <;> rfl

theorem loadRun_eq {runId : String} {content : Option String}
    (h : content? (runPath folder runId) files = .ok content) :
    FileStore.loadRun folder runId files = content.elim (.ok none) fun text =>
      (parse RunResult.decode text).map some := by
  rw [FileStore.loadRun, h]
  cases content <;> rfl

/-- The lines of a run's file are read as its node results. -/
theorem Holds.nodeResults (h : Holds folder files past) {runId : String}
    (hname : (StoreCall.nodeResults runId).Nameable) :
    FileStore.nodeResults folder runId files = .ok (StoreCall.nodesOf past runId) := by
  obtain ⟨entries, hentry, hnodes, -⟩ := h.contents
  have hcontent := content?_eq hentry hname.isName (hnodes runId)
  have hparse : ((StoreCall.nodesOf past runId).map fun r => Json.compact r.toValue).mapM
      (parse NodeResult.decode) = .ok (StoreCall.nodesOf past runId) := by
    refine mapM_map_eq_pure fun r hr => ?_
    obtain ⟨hwritable, hread⟩ := StoreCall.restorable_of_mem_nodesOf h.restorable hr
    exact parse_eq hread (NodeResult.decode_toValue hwritable)
  rw [nodeResults_eq hcontent, nodesText]
  split
  · rename_i hnone
    rw [hnone, Option.elim_none]
  · rw [Option.elim_some, lines_unlines, hparse]

/-- The file of a run's result is read as the result that was recorded last. -/
theorem Holds.loadRun (h : Holds folder files past) {runId : String}
    (hname : (StoreCall.loadRun runId).Nameable) :
    FileStore.loadRun folder runId files = .ok (StoreCall.runOf past runId) := by
  obtain ⟨entries, hentry, -, hruns⟩ := h.contents
  have hcontent := content?_eq hentry hname.isName (hruns runId)
  rw [loadRun_eq hcontent]
  cases hrun : StoreCall.runOf past runId with
  | none => rfl
  | some r =>
    obtain ⟨hwritable, hread⟩ := StoreCall.restorable_of_runOf h.restorable hrun
    have hparse := parse_eq hread (RunResult.decode_toValue hwritable)
    rw [Option.map_some, Option.elim_some, runText, hparse]
    rfl

/-- A call that records nothing leaves the files as they are. -/
theorem Holds.concat_reading (h : Holds folder files past) {c : StoreCall} (hc : c.Restorable)
    (hnode : ∀ runId, c.node? runId = none) (hrun : ∀ runId, c.run? runId = none) :
    Holds folder files (past ++ [c]) := by
  obtain ⟨entries, hentry, hnodes, hruns⟩ := h.contents
  refine ⟨⟨entries, hentry, fun runId => ?_, fun runId => ?_⟩, h.concat_restorable hc⟩
  · rw [StoreCall.nodesOf_concat, hnode, Option.toList_none, List.append_nil, hnodes]
  · rw [StoreCall.runOf_concat, hrun, Option.none_or, hruns]

end FileStore

/-! ### The store in files and the store in memory -/

namespace ResultStore

/-- A store in files answers every call as the calls before it demand. -/
theorem remembers (folder : String) :
    calls.Remembers (fun c => c.Nameable ∧ c.Restorable) fun s past =>
      s.folder = some folder ∧ FileStore.Holds folder s.files past := by
  rintro ⟨_, memory, files⟩ past ⟨rfl, hs⟩ c ⟨hname, hresult⟩
  cases c with
  | recordNode runId r =>
    obtain ⟨files', hcall, hholds⟩ := hs.recordNode hname hresult
    refine ⟨⟨some folder, memory, files'⟩, ?_, rfl, hholds⟩
    simp only [RunStore.call, calls, recordNode, hcall]
    rfl
  | recordRun r =>
    obtain ⟨files', hcall, hholds⟩ := hs.recordRun hname hresult
    refine ⟨⟨some folder, memory, files'⟩, ?_, rfl, hholds⟩
    simp only [RunStore.call, calls, recordRun, hcall]
    rfl
  | nodeResults runId =>
    refine ⟨⟨some folder, memory, files⟩, ?_, rfl,
      hs.concat_reading hresult (fun _ => rfl) fun _ => rfl⟩
    simp only [RunStore.call, calls, nodeResults, hs.nodeResults hname]
    rfl
  | loadRun runId =>
    refine ⟨⟨some folder, memory, files⟩, ?_, rfl,
      hs.concat_reading hresult (fun _ => rfl) fun _ => rfl⟩
    simp only [RunStore.call, calls, loadRun, hs.loadRun hname]
    rfl

/-- From an empty folder on, the store in files gives the same answers as the store in memory, call by
call: the node results of just the run that is asked for in the order of recording, the result of a run
that was recorded last, and nothing for an unknown run. The results may be any that are read from the
texts printed for them. -/
theorem files_refine_memory {folder : String} {s : ResultStore} (hfolder : s.folder = some folder)
    (hempty : s.files.entry folder = .ok (.folder [])) {cs : List StoreCall}
    (hnames : ∀ c ∈ cs, c.Nameable) (hresults : ∀ c ∈ cs, c.Restorable) :
    calls.answers cs s = MemoryStore.calls.answers cs {} ∧
      ∀ (i : Nat) (c : StoreCall), cs[i]? = some c →
        (calls.answers cs s)[i]? = some (.ok (c.answer (cs.take i))) := by
  have hfiles : calls.answers cs s = (StoreCall.answers [] cs).map Except.ok :=
    (remembers folder).answers_eq ⟨hfolder, FileStore.holds_nil hempty⟩
      fun c hc => ⟨hnames c hc, hresults c hc⟩
  have hmemory : MemoryStore.calls.answers cs {} = (StoreCall.answers [] cs).map Except.ok :=
    MemoryStore.remembers.answers_eq MemoryStore.holds_nil fun _ _ => trivial
  refine ⟨hfiles.trans hmemory.symm, fun i c hc => ?_⟩
  rw [hfiles, List.getElem?_map, StoreCall.getElem?_answers, hc]
  rfl

/-! A sequence of calls on two runs of which one id begins with the other, with line breaks in every
text of their results. -/

def loaded : NodeResult where
  node := "load"
  success := true
  output := .map [("close", .list [.float 0.1, .int (-2)])]
  logs := ["first\nsecond"]
  elapsed := 5
  usage := some ⟨4096, 5, 2⟩

def stopped : NodeResult where
  node := "check"
  success := false
  error := some "line one\r\nline two\n"
  violation := some ⟨.timeout, "too\nslow", .map [("limit", .ofNat 5)]⟩

def failedRun (status : RunStatus) : RunResult where
  runId := "run-1"
  pipelineId := "p"
  status := status
  results := [("check", stopped), ("load", loaded)]
  error := some "check\nstopped"
  elapsed := 9

def twoRuns : List StoreCall :=
  [.nodeResults "run-1", .loadRun "run-1", .recordNode "run-1" loaded,
    .recordNode "run-1.nodes" stopped, .recordNode "run-1" stopped, .recordRun (failedRun .running),
    .recordRun (failedRun .failed), .nodeResults "run-1", .loadRun "run-1", .loadRun "run-1.nodes"]

/-- An empty folder. -/
def emptyFolder : ResultStore where
  folder := some "/runs"
  files := .folder [("runs", .folder [])]

theorem loaded_writable : loaded.Writable where
  output := by
    have hnumbers : ∀ v ∈ [Value.float 0.1, .int (-2)], v.Sound := by
      simp only [List.forall_mem_cons]
      exact ⟨.float (by decide +kernel), .int ⟨by decide, by decide⟩, List.forall_mem_nil _⟩
    exact .map (by decide) (List.forall_mem_singleton.mpr (.list hnumbers))
  details := nofun
  elapsed := by decide
  usage := by
    intro u hu
    obtain rfl := Option.some.inj hu
    exact ⟨by decide, by decide, by decide⟩

theorem stopped_writable : stopped.Writable where
  output := .null
  details := by
    intro v hv
    obtain rfl := Option.some.inj hv
    exact .map (by decide) (List.forall_mem_singleton.mpr (.int ⟨by decide, by decide⟩))
  elapsed := by decide
  usage := nofun

theorem failedRun_writable (status : RunStatus) : (failedRun status).Writable where
  ascending := by
    have hkeys : ["check", "load"].Pairwise (· < ·) := by decide +kernel
    exact List.pairwise_map.mp hkeys
  results := by
    simp only [failedRun, List.forall_mem_cons]
    exact ⟨stopped_writable, loaded_writable, List.forall_mem_nil _⟩
  elapsed := (by decide : 9 ≤ 0xFFFFFFFFFFFFFFFF)

theorem twoRuns_restorable : ∀ c ∈ twoRuns, c.Restorable := by
  have hloaded : Json.Restored Json.compact loaded.toValue :=
    Json.restored_compact (NodeResult.printable loaded_writable (by decide +kernel))
      (by decide +kernel)
  have hstopped : Json.Restored Json.compact stopped.toValue :=
    Json.restored_compact (NodeResult.printable stopped_writable (by decide +kernel))
      (by decide +kernel)
  have hfloats : ∀ f ∈ (failedRun .failed).results, ∀ x ∈ f.2.floats, Json.ReadsBack x := by
    decide +kernel
  have hrun : ∀ status, Json.Restored Json.pretty (failedRun status).toValue := by
    intro status
    refine Json.restored_pretty (RunResult.printable (failedRun_writable status) hfloats) ?_
    cases status <;> decide +kernel
  simp only [twoRuns, List.forall_mem_cons]
  exact ⟨trivial, trivial, ⟨loaded_writable, hloaded⟩, ⟨stopped_writable, hstopped⟩,
    ⟨stopped_writable, hstopped⟩, ⟨failedRun_writable _, hrun _⟩, ⟨failedRun_writable _, hrun _⟩,
    trivial, trivial, trivial, List.forall_mem_nil _⟩

theorem twoRuns_refine_memory :
    (∀ c ∈ twoRuns, c.Nameable) ∧ (∀ c ∈ twoRuns, c.Restorable) ∧
      calls.answers twoRuns emptyFolder = MemoryStore.calls.answers twoRuns {} ∧
      (calls.answers twoRuns emptyFolder)[7]? = some (.ok (.nodes [loaded, stopped])) ∧
      (calls.answers twoRuns emptyFolder)[8]? = some (.ok (.run (some (failedRun .failed)))) ∧
      (calls.answers twoRuns emptyFolder)[9]? = some (.ok (.run none)) := by
  have hnames : ∀ c ∈ twoRuns, c.Nameable := by decide +kernel
  obtain ⟨hsame, hanswers⟩ := files_refine_memory (s := emptyFolder) rfl rfl hnames twoRuns_restorable
  exact ⟨hnames, twoRuns_restorable, hsame, hanswers 7 _ rfl, hanswers 8 _ rfl, hanswers 9 _ rfl⟩

end ResultStore
end Flowline
