import Flowline.Proofs.Files.Change
import Flowline.Proofs.Files.Leads
import Flowline.Proofs.Run.FileStore

/-!
# Which files belong to a run

The id of a run becomes part of a path. An id without a slash has two files of its own, right in the folder
of the store. One with a slash is overlooked: it shares its files with other ids, and they may lie
anywhere.
-/
namespace Flowline

open Entry (Inside Keeps NoLinks)

namespace FileStore

/-! ### The files of an id -/

/-- The names of the files of a run. -/
def filesOf (id : String) : List String := [id ++ ".nodes.jsonl", id ++ ".json"]

theorem isPlain_of_mem_filesOf {id name : String} (hid : '/' ∉ id.toList) (h : name ∈ filesOf id) :
    Path.IsPlain name := by
  have hplain : ∀ suffix : String, '/' ∉ suffix.toList → 2 < suffix.toList.length →
      Path.IsPlain (id ++ suffix) := by
    intro suffix hsuffix hlong
    have hne : ∀ s : String, s.toList.length ≤ 2 → id ++ suffix ≠ s := by
      rintro _ hs rfl
      rw [String.toList_append, List.length_append] at hs
      omega
    refine ⟨?_, hne _ (by decide), hne _ (by decide), hne _ (by decide)⟩
    rw [String.toList_append, List.mem_append, not_or]
    exact ⟨hid, hsuffix⟩
  rcases List.mem_pair.mp h with rfl | rfl
  · exact hplain _ (by decide) (by decide)
  · exact hplain _ (by decide) (by decide)

/-- Different ids have no name in common. -/
theorem disjoint_filesOf {id other : String} (h : other ≠ id) :
    List.Disjoint (filesOf other) (filesOf id) := by
  have hsuffix : ∀ suffix : String, other ++ suffix ≠ id ++ suffix := fun suffix heq =>
    h ((String.append_left_inj suffix).mp heq)
  intro name hother hid
  rcases List.mem_pair.mp hother with rfl | rfl
  · exact (List.mem_pair.mp hid).elim (hsuffix _) (nodes_ne_run other id)
  · exact (List.mem_pair.mp hid).elim (nodes_ne_run id other ∘ Eq.symm) (hsuffix _)

/-! ### Ids without a slash -/

/-- The folder, when it is made or is there, has no links. -/
def HasNoLinks (folder : String) (root : Entry) : Prop :=
  ∀ made entries, root.makeFolders folder = .ok made → made.entry folder = .ok (.folder entries) →
    NoLinks entries

/-- The files after calls on one run: nothing has been recorded, or the folder is there and just files of
the run have been written in it. -/
def Reached (folder id : String) (root e : Entry) : Prop :=
  e = root ∨ ∃ made names entries, root.makeFolders folder = .ok made ∧
    Inside made folder (filesOf id) names entries made ∧
    Inside made folder (filesOf id) names entries e

variable {folder id : String} {root e e' : Entry}

/-- With the folder made, just files of the run can have been written in it. -/
theorem Reached.makeFolders {made : Entry} (h : Reached folder id root e) (hroot : root.FolderAt [])
    (hlinks : HasNoLinks folder root) (hmade : e.makeFolders folder = .ok made) :
    ∃ start names entries, root.makeFolders folder = .ok start ∧
      Inside start folder (filesOf id) names entries start ∧
      Inside start folder (filesOf id) names entries made := by
  rcases h with rfl | ⟨start, names, entries, hstart, hfirst, hinside⟩
  · obtain ⟨-, entries, hentry⟩ := Entry.makeFolders_spec hroot hmade
    obtain ⟨names, -, hfirst⟩ := Entry.exists_inside hentry (hlinks made entries hmade hentry) (filesOf id)
    exact ⟨made, names, entries, hmade, hfirst, hfirst⟩
  · obtain ⟨entries', hentry, -⟩ := hinside.entry
    rw [Entry.makeFolders_eq hentry] at hmade
    cases hmade
    exact ⟨start, names, entries, hstart, hfirst, hinside⟩

/-- One of the files of the run is written. -/
theorem Reached.edit (h : Reached folder id root e) (hroot : root.FolderAt [])
    (hlinks : HasNoLinks folder root) (hid : '/' ∉ id.toList) {name : String} (hname : name ∈ filesOf id)
    {f : String → String}
    (hedit : (e.makeFolders folder >>= fun made => made.edit (Path.join folder name) f) = .ok e') :
    Reached folder id root e' := by
  obtain ⟨made, hmade, hedit⟩ := exists_of_bind_eq_ok hedit
  obtain ⟨start, names, entries, hstart, hfirst, hinside⟩ := h.makeFolders hroot hlinks hmade
  exact .inr ⟨start, names, entries, hstart, hfirst,
    hinside.edit hname (isPlain_of_mem_filesOf hid hname) hedit⟩

theorem content?_congr {path path' : String} (h : e.read path = e'.read path') :
    content? path e = content? path' e' := by
  rw [content?, content?, h]

/-- Results that are read depend on the files of the run alone. -/
theorem reads_eq {other : String}
    (h : ∀ name ∈ filesOf other, e.read (Path.join folder name) = e'.read (Path.join folder name)) :
    nodeResults folder other e = nodeResults folder other e' ∧
      loadRun folder other e = loadRun folder other e' := by
  have hnodes := content?_congr (h (other ++ ".nodes.jsonl") (by simp [filesOf]))
  have hrun := content?_congr (h (other ++ ".json") (by simp [filesOf]))
  rw [nodeResults, nodeResults, loadRun, loadRun, nodesPath, runPath, hnodes, hrun]
  exact ⟨rfl, rfl⟩

/-- What calls on a run have left as it was. Before the first of them the folder was there, or it has been
made. -/
structure Confines (folder id : String) (root made e : Entry) (names : List String) : Prop where
  makes : root.makeFolders folder = .ok made
  place : e.locate folder = .ok (.taken names)
  /-- The files of the run lie right in the folder. -/
  inside : ∀ name ∈ filesOf id, ∀ found, e.canonical (Path.join folder name) = .ok found →
    found = names ++ [name]
  /-- No other file has changed, wherever it is; nor has a folder or a link. -/
  files : ∀ place, (∀ name ∈ filesOf id, place ≠ names ++ [name]) → e.fileAt? place = root.fileAt? place
  keeps : Keeps root e
  apart : ∀ other, other ≠ id → List.Disjoint (filesOf other) (filesOf id)
  /-- Other runs have the results that they had. -/
  others : ∀ other, other ≠ id → '/' ∉ other.toList →
    (∃ entries, root.entry folder = .ok (.folder entries)) →
      nodeResults folder other e = nodeResults folder other root ∧
        loadRun folder other e = loadRun folder other root
  /-- So it is when the folder is new, unless a name is too long. -/
  others_of_new : ∀ other, other ≠ id → '/' ∉ other.toList →
    root.IsMissing folder → made.entry folder = .ok (.folder []) →
    (∀ name ∈ filesOf other, name.utf8ByteSize ≤ Entry.maxName) →
      nodeResults folder other e = nodeResults folder other root ∧
        loadRun folder other e = loadRun folder other root

theorem confines_of_inside {made : Entry} {names : List String} {entries : List (String × Entry)}
    (hroot : root.FolderAt []) (hid : '/' ∉ id.toList) (hmade : root.makeFolders folder = .ok made)
    (hstart : Inside made folder (filesOf id) names entries made)
    (h : Inside made folder (filesOf id) names entries e) : Confines folder id root made e names := by
  obtain ⟨honly, -⟩ := Entry.makeFolders_spec hroot hmade
  -- what other runs have is as it was when the folder had been made
  have hreads : ∀ other, other ≠ id → '/' ∉ other.toList → ∀ name ∈ filesOf other,
      e.read (Path.join folder name) = made.read (Path.join folder name) := fun other hne hslash name hname =>
    h.read_eq hstart (disjoint_filesOf hne hname) (isPlain_of_mem_filesOf hslash hname)
  refine ⟨hmade, h.place, fun name hname found hfound => ?_, fun place hplace => ?_,
    honly.keeps.trans h.keeps, fun other hne => disjoint_filesOf hne, ?_, ?_⟩
  · exact h.canonical_join (isPlain_of_mem_filesOf hid hname) hfound
  · exact (h.files place hplace).trans (honly.files place)
  · rintro other hne hslash ⟨es, hentry⟩
    rw [Entry.makeFolders_eq hentry] at hmade
    cases hmade
    exact reads_eq (hreads other hne hslash)
  · intro other hne hslash hmissing hnew hfits
    refine reads_eq fun name hname => ?_
    have hplain := isPlain_of_mem_filesOf hslash hname
    rw [hreads other hne hslash name hname, hmissing.read_join hplain.not_slash]
    exact (Entry.read_join hnew (hplain.isName (hfits name hname))
      (show ([] : List (String × Entry)).lookup name = Option.map Entry.file none from rfl)).trans rfl

/-! ### Ids with a slash -/

/-- Two ids have their files in common, in every tree. -/
structure SharesFiles (folder id other : String) : Prop where
  nodesPath : ∀ root : Entry, root.locate (nodesPath folder id) = root.locate (nodesPath folder other)
  runPath : ∀ root : Entry, root.locate (runPath folder id) = root.locate (runPath folder other)
  recordNode : ∀ r root, recordNode folder id r root = recordNode folder other r root
  nodeResults : ∀ root, nodeResults folder id root = nodeResults folder other root
  loadRun : ∀ root, loadRun folder id root = loadRun folder other root

theorem isAbsolute_append_slash (a b : String) :
    Path.isAbsolute (a ++ "/" ++ b) = Path.isAbsolute (a ++ "/") := by
  rw [Bool.eq_iff_iff, Path.isAbsolute, Path.isAbsolute, String.startsWith_string_iff,
    String.startsWith_string_iff]
  simp only [String.toList_append]
  cases a.toList with
  | nil => exact iff_of_true (List.prefix_append _ _) (List.prefix_append _ _)
  | cons c cs => simp

/-- What comes behind the first slash of a path is looked for at the end. -/
theorem exists_join_eq (folder a : String) :
    ∃ p, ∀ b, Path.join folder (a ++ "/" ++ b) = p ++ "/" ++ b := by
  simp only [Path.join, isAbsolute_append_slash]
  by_cases habsolute : Path.isAbsolute (a ++ "/") = true
  · exact ⟨a, fun b => if_pos habsolute⟩
  · simp only [if_neg habsolute]
    by_cases hend : (folder.isEmpty || folder.endsWith "/") = true
    · exact ⟨folder ++ a, fun b => by rw [if_pos hend]; simp only [String.append_assoc]⟩
    · exact ⟨folder ++ "/" ++ a, fun b => by rw [if_neg hend]; simp only [String.append_assoc]⟩

/-- With a slash more, an id means the same paths. -/
theorem exists_other (folder : String) (h : '/' ∈ id.toList) :
    ∃ other, other ≠ id ∧ ∀ (root : Entry) (suffix : String),
      root.locate (Path.join folder (id ++ suffix)) = root.locate (Path.join folder (other ++ suffix)) := by
  obtain ⟨a, b, rfl⟩ : ∃ a b : String, id = a ++ "/" ++ b := by
    obtain ⟨before, behind, hid⟩ := List.append_of_mem h
    refine ⟨String.ofList before, String.ofList behind, ?_⟩
    rw [← String.toList_inj, hid]
    simp
  obtain ⟨p, hp⟩ := exists_join_eq folder a
  refine ⟨a ++ "/" ++ ("/" ++ b), fun heq => ?_, fun root suffix => ?_⟩
  · have hlength := congrArg (fun s : String => s.toList.length) heq
    simp at hlength
  · have hid : a ++ "/" ++ b ++ suffix = a ++ "/" ++ (b ++ suffix) := by
      simp only [String.append_assoc]
    have hother : a ++ "/" ++ ("/" ++ b) ++ suffix = a ++ "/" ++ ("" ++ "/" ++ (b ++ suffix)) := by
      simp only [String.append_assoc, String.empty_append]
    rw [hid, hother, hp, hp, Entry.locate, Entry.locate, Path.segments_append_slash,
      Path.segments_append_slash, Path.segments_append_slash]
    exact (Entry.follow_empty_segment root _ _ _ (Path.segments_ne_nil _)).symm

theorem edit_congr {path path' : String} (h : e.locate path = e.locate path') (f : String → String) :
    e.edit path f = e.edit path' f := by
  rw [Entry.edit, Entry.edit, h]

theorem read_congr {path path' : String} (h : e.locate path = e.locate path') :
    e.read path = e.read path' := by
  rw [Entry.read, Entry.read, Entry.entry, Entry.entry, Entry.canonical, Entry.canonical, h]

theorem exists_sharesFiles (folder : String) (h : '/' ∈ id.toList) :
    ∃ other, other ≠ id ∧ SharesFiles folder id other := by
  obtain ⟨other, hne, hplace⟩ := exists_other folder h
  have hread : ∀ (root : Entry) (suffix : String), root.read (Path.join folder (id ++ suffix)) =
      root.read (Path.join folder (other ++ suffix)) := fun root suffix => read_congr (hplace root suffix)
  refine ⟨other, hne, fun root => hplace root _, fun root => hplace root _, fun r root => ?_,
    fun root => ?_, fun root => ?_⟩
  · have hedit : ∀ made : Entry, made.append (nodesPath folder id) = made.append (nodesPath folder other) :=
      fun made => funext fun text => edit_congr (hplace made _) _
    simp only [recordNode, hedit]
  · rw [nodeResults, nodeResults, nodesPath, nodesPath, content?_congr (hread root ".nodes.jsonl")]
  · rw [loadRun, loadRun, runPath, runPath, content?_congr (hread root ".json")]

end FileStore

namespace ResultStore

open FileStore

variable {s : ResultStore} {folder id : String}

/-- What a call that fails has done: the folder is made before anything is recorded. -/
def failed (s : ResultStore) : StoreCall → ResultStore
  | .recordNode .. | .recordRun _ => match s.folder.map s.files.makeFolders with
    | some (.ok files) => { s with files }
    | _ => s
  | _ => s

/-- The store after a sequence of calls. -/
def after (s : ResultStore) (cs : List StoreCall) : ResultStore :=
  cs.foldl (fun s c => match calls.call c s with
    | .ok (_, s') => s'
    | .error _ => s.failed c) s

theorem eq_ok_of_stored {α : Type} {x : Except FileError α} {a : α} (h : stored x = .ok a) :
    x = .ok a := by
  cases x with
  | error fault => cases h
  | ok b => exact congrArg Except.ok (Except.ok.inj h)

/-- A store in a folder after calls on one run. -/
structure IsReached (folder id : String) (root : Entry) (s : ResultStore) : Prop where
  set : s.folder = some folder
  files : Reached folder id root s.files

/-- A call on the run writes the run's files at most. -/
theorem IsReached.call {root : Entry} (hs : IsReached folder id root s) (hroot : root.FolderAt [])
    (hlinks : HasNoLinks folder root) (hid : '/' ∉ id.toList) {c : StoreCall} (hc : c.runId = id)
    {a : StoreAnswer} {s' : ResultStore} (hcall : calls.call c s = .ok (a, s')) :
    IsReached folder id root s' := by
  -- what a call records goes to one of the files
  have hrecord : ∀ (name : String) (f : String → String) (s' : ResultStore), name ∈ filesOf id →
      s.withFiles (stored (s.files.makeFolders folder >>= fun made =>
        made.edit (Path.join folder name) f)) = .ok s' → IsReached folder id root s' := by
    intro name f s' hname hwritten
    obtain ⟨files, hfiles, rfl⟩ := exists_of_map_eq_ok hwritten
    exact ⟨hs.set, hs.files.edit hroot hlinks hid hname (eq_ok_of_stored hfiles)⟩
  cases c with
  | recordNode runId r =>
    obtain rfl := hc
    obtain ⟨k, hk, hpair⟩ := exists_of_map_eq_ok (x := s.recordNode runId r) hcall
    cases hpair
    simp only [ResultStore.recordNode, hs.set] at hk
    exact hrecord _ _ _ (List.mem_cons_self ..) hk
  | recordRun r =>
    obtain rfl := hc
    obtain ⟨k, hk, hpair⟩ := exists_of_map_eq_ok (x := s.recordRun r) hcall
    cases hpair
    simp only [ResultStore.recordRun, hs.set] at hk
    exact hrecord _ _ _ (List.mem_cons_of_mem _ (List.mem_cons_self ..)) hk
  | nodeResults runId =>
    obtain ⟨answer, -, hpair⟩ := exists_of_map_eq_ok (x := s.nodeResults runId) hcall
    cases hpair
    exact hs
  | loadRun runId =>
    obtain ⟨answer, -, hpair⟩ := exists_of_map_eq_ok (x := s.loadRun runId) hcall
    cases hpair
    exact hs

/-- So does a call that fails. -/
theorem IsReached.failed {root : Entry} (hs : IsReached folder id root s) (hroot : root.FolderAt [])
    (hlinks : HasNoLinks folder root) (c : StoreCall) : IsReached folder id root (s.failed c) := by
  have hmakes : IsReached folder id root (match s.folder.map s.files.makeFolders with
      | some (.ok files) => { s with files }
      | _ => s) := by
    rw [hs.set, Option.map_some]
    cases hmade : s.files.makeFolders folder with
    | error fault => exact hs
    | ok files => exact ⟨rfl, .inr (hs.files.makeFolders hroot hlinks hmade)⟩
  cases c with
  | recordNode runId r => exact hmakes
  | recordRun r => exact hmakes
  | nodeResults runId => exact hs
  | loadRun runId => exact hs

/-- All calls of a sequence on the run write the run's files at most. -/
theorem IsReached.after {root : Entry} (hs : IsReached folder id root s) (hroot : root.FolderAt [])
    (hlinks : HasNoLinks folder root) (hid : '/' ∉ id.toList) {cs : List StoreCall}
    (hcs : ∀ c ∈ cs, c.runId = id) : IsReached folder id root (s.after cs) := by
  induction cs generalizing s with
  | nil => exact hs
  | cons c cs ih =>
    obtain ⟨hc, hrest⟩ := List.forall_mem_cons.mp hcs
    rw [ResultStore.after, List.foldl_cons, ← ResultStore.after]
    refine ih ?_ hrest
    cases hcall : calls.call c s with
    | error fault => exact hs.failed hroot hlinks c
    | ok answer => exact hs.call hroot hlinks hid hc hcall

/-- Calls on a run whose id has no slash write the run's files and no others, so that other runs keep
their results; an id with a slash shares its files with another one. -/
theorem confined_unless_overlooked (folder id : String) :
    ('/' ∉ id.toList → ∀ s : ResultStore, s.folder = some folder → s.files.FolderAt [] →
      HasNoLinks folder s.files → ∀ cs : List StoreCall, (∀ c ∈ cs, c.runId = id) →
        (s.after cs).files = s.files ∨
          ∃ made names, Confines folder id s.files made (s.after cs).files names) ∧
    ('/' ∈ id.toList → ∃ other, other ≠ id ∧ SharesFiles folder id other) := by
  refine ⟨fun hid s hfolder hroot hlinks cs hcs => ?_, exists_sharesFiles folder⟩
  have hreached : IsReached folder id s.files (s.after cs) :=
    IsReached.after ⟨hfolder, .inl rfl⟩ hroot hlinks hid hcs
  refine hreached.files.imp_right ?_
  rintro ⟨made, names, entries, hmade, hstart, hinside⟩
  exact ⟨made, names, confines_of_inside hroot hid hmade hstart hinside⟩

theorem hasNoLinks_of_entry {root : Entry} {entries : List (String × Entry)}
    (h : root.entry folder = .ok (.folder entries)) (hlinks : NoLinks entries) :
    HasNoLinks folder root := by
  intro made entries' hmade hentry
  rw [Entry.makeFolders_eq h] at hmade
  cases hmade
  rw [h] at hentry
  cases hentry
  exact hlinks

def bareRun (id : String) : RunResult where
  runId := id
  pipelineId := "p"
  status := .completed
  results := []

theorem bareRun_confined :
    (∃ made names, Confines "/runs" "a" emptyFolder.files made
      (emptyFolder.after [.recordNode "a" loaded, .recordRun (bareRun "a")]).files names) ∧
    ∃ other, other ≠ "./a" ∧ SharesFiles "/runs" "./a" other := by
  have hlinks : HasNoLinks "/runs" emptyFolder.files :=
    hasNoLinks_of_entry (show _ = Except.ok (Entry.folder []) from rfl) fun _ _ => nofun
  obtain hsame | hconfined := (confined_unless_overlooked "/runs" "a").1 (by decide) emptyFolder rfl
    ⟨_, rfl⟩ hlinks [.recordNode "a" loaded, .recordRun (bareRun "a")] (by simp [StoreCall.runId, bareRun])
  · have hwritten := congrArg (fun e => (e.fileAt? ["runs", "a.json"]).isSome) hsame
    exact absurd hwritten (by decide +kernel)
  · exact ⟨hconfined, (confined_unless_overlooked "/runs" "./a").2 (by decide)⟩

/-- The result of a run is found under the id of another run, which has recorded nothing, and the file of a
run is written beside the folder of the store. -/
theorem dotted_ids_overlooked :
    (emptyFolder.loadRun "a").toOption.map (·.map (·.runId)) = some none ∧
    ((emptyFolder.after [.recordRun (bareRun "./a")]).loadRun "a").toOption.map
      (·.map (·.runId)) = some (some "./a") ∧
    emptyFolder.files.fileAt? ["a.json"] = none ∧
    ((emptyFolder.after [.recordRun (bareRun "../a")]).files.fileAt? ["a.json"]).isSome = true := by
  decide +kernel

end ResultStore
end Flowline
