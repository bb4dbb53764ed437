import Flowline.Files.Tree
import Flowline.Proofs.Text.Lines

/-!
# The tree of files

A path that leads to a folder leads there also when files below the folder are new or change. What is
read and written under a name in the folder is found in the folder's own list of entries.
-/
namespace Flowline

/-! ### Segments of paths -/

namespace Path

theorem segments_append_slash (a b : String) :
    segments (a ++ "/" ++ b) = segments a ++ segments b := by
  have hchars : (a ++ "/" ++ b).toList = a.toList ++ '/' :: b.toList := by
    rw [String.toList_append, String.toList_append, List.append_assoc]
    rfl
  rw [segments, Text.splitOn, hchars, Text.splitChars_append_sep, List.map_append]
  rfl

theorem segments_ne_nil (p : String) : segments p ≠ [] := by
  rw [segments, Text.splitOn, Ne, List.map_eq_nil_iff]
  exact Text.splitChars_ne_nil _ _

theorem segments_of_not_mem {name : String} (h : '/' ∉ name.toList) : segments name = [name] := by
  rw [segments, Text.splitOn, Text.splitChars_of_not_mem h, List.map_singleton,
    String.ofList_toList]

theorem not_mem_of_mem_segments {p seg : String} (h : seg ∈ segments p) : '/' ∉ seg.toList := by
  obtain ⟨piece, hpiece, rfl⟩ := List.mem_map.mp h
  rw [String.toList_ofList]
  exact Text.not_mem_of_mem_splitChars hpiece

/-- The segments that a path is made of. -/
theorem segments_intercalate {segs : List String} (hne : segs ≠ [])
    (h : ∀ seg ∈ segs, '/' ∉ seg.toList) : segments ("/".intercalate segs) = segs := by
  induction segs with
  | nil => exact absurd rfl hne
  | cons seg segs ih =>
    obtain ⟨hseg, hsegs⟩ := List.forall_mem_cons.mp h
    cases segs with
    | nil => rw [String.intercalate_singleton, segments_of_not_mem hseg]
    | cons next segs =>
      rw [String.intercalate_cons_cons, segments_append_slash, segments_of_not_mem hseg,
        ih (List.cons_ne_nil _ _) hsegs]
      rfl

/-- A name that a file can have in a folder. -/
structure IsName (name : String) : Prop where
  not_slash : '/' ∉ name.toList
  not_empty : name ≠ ""
  not_here : name ≠ "."
  not_above : name ≠ ".."
  size : name.utf8ByteSize ≤ Entry.maxName

/-- A path seen from a folder goes through the segments of the folder; an empty segment at the end of
the folder's path is left out. -/
theorem segments_join_relative {p : String} (h : isAbsolute p = false) (folder : String) :
    ∃ segs rest, segments folder = segs ++ rest ∧ (∀ seg ∈ rest, seg = "") ∧
      segments (join folder p) = segs ++ segments p := by
  rw [join, h, if_neg Bool.false_ne_true]
  by_cases hempty : folder = ""
  · subst hempty
    exact ⟨[], [""], rfl, List.forall_mem_singleton.mpr rfl,
      congrArg segments (String.empty_append ..)⟩
  by_cases hslash : folder.endsWith "/" = true
  · obtain ⟨cs, hcs⟩ : ['/'] <:+ folder.toList := by
      rwa [String.endsWith_eq_endsWith_toSlice, String.Slice.endsWith_string_iff,
        String.copy_toSlice] at hslash
    have hfolder : folder = String.ofList cs ++ "/" ++ "" := by
      rw [String.append_empty, ← String.toList_inj, String.toList_append, String.toList_ofList]
      exact hcs.symm
    refine ⟨segments (String.ofList cs), [""], ?_, List.forall_mem_singleton.mpr rfl, ?_⟩
    · rw [hfolder, segments_append_slash]
      rfl
    · rw [if_pos (by simp [hslash]), hfolder, String.append_empty, segments_append_slash]
  · refine ⟨segments folder, [], (List.append_nil _).symm, List.forall_mem_nil _, ?_⟩
    rw [if_neg (by simp [hslash, hempty]), segments_append_slash]

theorem isAbsolute_of_not_mem {name : String} (h : '/' ∉ name.toList) : isAbsolute name = false := by
  rw [isAbsolute, String.startsWith_string_eq_false_iff]
  exact fun hslash => h (hslash.subset (List.mem_singleton_self '/'))

/-- The path of a name in a folder. -/
theorem segments_join {name : String} (h : '/' ∉ name.toList) (folder : String) :
    ∃ segs rest, segments folder = segs ++ rest ∧ (∀ seg ∈ rest, seg = "") ∧
      segments (join folder name) = segs ++ [name] := by
  have hjoin := segments_join_relative (isAbsolute_of_not_mem h) folder
  rwa [segments_of_not_mem h] at hjoin

end Path

namespace Entry

/-! ### Entries below folders -/

theorem at?_cons (root : Entry) (name : String) (names : List String) :
    root.at? (name :: names) = (root.child? name).bind fun c => c.at? names := by
  cases root <;> rfl

theorem at?_append (root : Entry) (names more : List String) :
    root.at? (names ++ more) = (root.at? names).bind fun e => e.at? more := by
  induction names generalizing root with
  | nil => rw [List.nil_append, at?]; rfl
  | cons name names ih =>
    rw [List.cons_append, at?_cons, at?_cons, Option.bind_assoc]
    exact Option.bind_congr fun c _ => ih c

/-- The names of the folders down to a folder. -/
def FolderAt (root : Entry) (names : List String) : Prop :=
  ∃ entries, root.at? names = some (folder entries)

theorem FolderAt.root {root : Entry} {names : List String} (h : root.FolderAt names) :
    root.FolderAt [] := by
  obtain ⟨entries, h⟩ := h
  cases names with
  | nil => exact ⟨entries, h⟩
  | cons name names =>
    cases root with
    | folder es => exact ⟨es, rfl⟩
    | file _ | link _ => cases h

theorem FolderAt.dropLast {root : Entry} {names : List String} (h : root.FolderAt names) :
    root.FolderAt names.dropLast := by
  obtain rfl | ⟨above, name, rfl⟩ := List.eq_nil_or_concat names
  · exact h
  · obtain ⟨entries, h⟩ := h
    rw [List.concat_eq_append, at?_append, Option.bind_eq_some_iff] at h
    obtain ⟨e, he, hchild⟩ := h
    rw [List.concat_eq_append, List.dropLast_concat]
    cases e with
    | folder es => exact ⟨es, he⟩
    | file _ | link _ => cases hchild

/-! ### Following a path -/

/-- All folders and links stay where they are. -/
structure Keeps (root after : Entry) : Prop where
  folders : ∀ names, root.FolderAt names → after.FolderAt names
  links : ∀ names target, root.at? names = some (link target) →
    after.at? names = some (link target)

theorem Keeps.refl (root : Entry) : Keeps root root := ⟨fun _ => id, fun _ _ => id⟩

theorem follow_nil (root : Entry) (links : Nat) (here : List String) :
    follow root links here [] = .ok (.taken here) := by
  cases links <;> rfl

/-- One step of a path. -/
theorem follow_cons (root : Entry) (links : Nat) (here : List String) (seg : String)
    (rest : List String) : follow root links here (seg :: rest) =
      if seg.isEmpty || seg == "." then follow root links here rest
      else if seg == ".." then follow root links here.dropLast rest
      else if maxName < seg.utf8ByteSize then .error .nameTooLong
      else match root.at? (here ++ [seg]) with
        | none => if rest.isEmpty then .ok (.free here seg) else .error .missing
        | some (.folder _) => follow root links (here ++ [seg]) rest
        | some (.file _) =>
          if rest.isEmpty then .ok (.taken (here ++ [seg])) else .error .notFolder
        | some (.link target) =>
          match links with
          | 0 => .error .tooManyLinks
          | links + 1 => follow root links (if Path.isAbsolute target then [] else here)
              (Path.segments target ++ rest) := by
  cases links <;> rfl

/-- A path that leads to a folder comes through a folder behind each of its beginnings, and goes there
as well in any later state of the tree. -/
theorem exists_follow_append {root : Entry} {links : Nat} {here names : List String}
    (hhere : root.FolderAt here) {before more : List String}
    (h : follow root links here (before ++ more) = .ok (.taken names))
    (hnames : root.FolderAt names) :
    ∃ left mid, root.FolderAt mid ∧ ∀ after, Keeps root after → ∀ segs,
      follow after links here (before ++ segs) = follow after left mid segs := by
  -- a link starts anew with fewer links left
  induction links using Nat.strongRecOn generalizing here before with
  | ind links hlinks =>
  induction before generalizing here with
  | nil => exact ⟨links, here, hhere, fun after _ segs => rfl⟩
  | cons seg before ih =>
    rw [List.cons_append, follow_cons] at h
    simp only [List.cons_append, follow_cons]
    by_cases hempty : (seg.isEmpty || seg == ".") = true
    · simp only [if_pos hempty] at h ⊢
      exact ih hhere h
    by_cases hup : (seg == "..") = true
    · simp only [if_neg hempty, if_pos hup] at h ⊢
      exact ih hhere.dropLast h
    by_cases hlong : maxName < seg.utf8ByteSize
    · simp only [if_neg hempty, if_neg hup, if_pos hlong] at h
      cases h
    simp only [if_neg hempty, if_neg hup, if_neg hlong] at h ⊢
    split at h
    · split at h <;> cases h
    · rename_i entries hentry
      obtain ⟨left, mid, hmid, hfollow⟩ := ih ⟨entries, hentry⟩ h
      refine ⟨left, mid, hmid, fun after hkeeps segs => ?_⟩
      obtain ⟨es, hes⟩ := hkeeps.folders _ ⟨entries, hentry⟩
      simp only [hes]
      exact hfollow after hkeeps segs
    · rename_i hentry
      split at h
      · cases h
        obtain ⟨entries, hfolder⟩ := hnames
        rw [hentry] at hfolder
        cases hfolder
      · cases h
    · rename_i target hentry
      cases links with
      | zero => cases h
      | succ links =>
        have hstart : root.FolderAt (if Path.isAbsolute target then [] else here) := by
          split
          · exact hhere.root
          · exact hhere
        simp only [← List.append_assoc] at h
        obtain ⟨left, mid, hmid, hfollow⟩ := hlinks links (Nat.lt_succ_self links) hstart h
        refine ⟨left, mid, hmid, fun after hkeeps segs => ?_⟩
        simp only [hkeeps.links _ _ hentry, ← List.append_assoc]
        exact hfollow after hkeeps segs

/-! ### Changing the tree -/

theorem lookup_cons (p : String × Entry) (entries : List (String × Entry)) (key : String) :
    (p :: entries).lookup key = if key = p.1 then some p.2 else entries.lookup key := by
  rw [List.lookup_cons]
  by_cases hkey : key = p.1
  · rw [if_pos hkey, beq_iff_eq.mpr hkey]
  · rw [if_neg hkey, beq_eq_false_iff_ne.mpr hkey]

theorem any_eq_isSome_lookup (entries : List (String × Entry)) (name : String) :
    entries.any (·.1 == name) = (entries.lookup name).isSome := by
  induction entries with
  | nil => rfl
  | cons p entries ih =>
    rw [List.any_cons, lookup_cons, ih]
    by_cases hp : p.1 = name
    · simp [hp]
    · simp [hp, Ne.symm hp]

theorem lookup_replace (entries : List (String × Entry)) (name : String) (c : Entry)
    (key : String) : (entries.map fun p => if p.1 == name then (name, c) else p).lookup key =
      if key = name then (entries.lookup name).map fun _ => c else entries.lookup key := by
  induction entries with
  | nil => simp
  | cons p entries ih =>
    rw [List.map_cons, lookup_cons, lookup_cons, lookup_cons, ih]
    by_cases hp : p.1 = name
    · by_cases hkey : key = name
      · simp [hp, hkey]
      · simp [hp, hkey]
    · by_cases hkey : key = name
      · simp [hp, Ne.symm hp, hkey]
      · simp [hp, hkey]

/-- Of the children of a folder only the one that is set is new. -/
theorem exists_setChild (entries : List (String × Entry)) (name : String) (c : Entry) :
    ∃ entries', (folder entries).setChild name c = folder entries' ∧
      ∀ key, entries'.lookup key = if key = name then some c else entries.lookup key := by
  rw [setChild, any_eq_isSome_lookup]
  cases hname : entries.lookup name with
  | some e =>
    refine ⟨_, rfl, fun key => ?_⟩
    rw [lookup_replace, hname, Option.map_some]
  | none =>
    refine ⟨_, rfl, fun key => ?_⟩
    rw [List.lookup_append, lookup_cons]
    by_cases hkey : key = name
    · simp [hkey, hname]
    · simp [hkey]

/-- A tree keeps its folders and links when a child keeps them. -/
theorem keeps_setChild {root c' : Entry} {name : String}
    (h : ∀ c, root.child? name = some c → Keeps c c') : Keeps root (root.setChild name c') := by
  cases root with
  | file _ | link _ => exact Keeps.refl _
  | folder entries =>
    obtain ⟨entries', hset, hlookup⟩ := exists_setChild entries name c'
    rw [hset]
    -- below another child nothing is new
    have hother : ∀ key names, key ≠ name →
        (folder entries').at? (key :: names) = (folder entries).at? (key :: names) := by
      intro key names hkey
      rw [at?_cons, at?_cons, child?, child?, hlookup, if_neg hkey]
    have hchild : ∀ names, (folder entries').at? (name :: names) = c'.at? names := by
      intro names
      rw [at?_cons, child?, hlookup, if_pos rfl]
      rfl
    constructor
    · intro names hnames
      cases names with
      | nil => exact ⟨entries', rfl⟩
      | cons key names =>
        by_cases hkey : key = name
        · subst hkey
          obtain ⟨es, hes⟩ := hnames
          rw [at?_cons, Option.bind_eq_some_iff] at hes
          obtain ⟨c, hc, hes⟩ := hes
          obtain ⟨es', hes'⟩ := (h c hc).folders names ⟨es, hes⟩
          exact ⟨es', (hchild names).trans hes'⟩
        · rw [FolderAt, hother key names hkey]
          exact hnames
    · intro names target hnames
      cases names with
      | nil => cases hnames
      | cons key names =>
        by_cases hkey : key = name
        · subst hkey
          rw [at?_cons, Option.bind_eq_some_iff] at hnames
          obtain ⟨c, hc, hnames⟩ := hnames
          exact (hchild names).trans ((h c hc).links names target hnames)
        · exact (hother key names hkey).trans hnames

theorem keeps_of_isFile {e after : Entry} (h : e.isFile = true) : Keeps e after := by
  cases e with
  | folder _ | link _ => cases h
  | file _ =>
    constructor
    · rintro names ⟨_, hnames⟩
      cases names <;> cases hnames
    · intro names _ hnames
      cases names <;> cases hnames

/-- A tree keeps its folders and links when a file is put where none of them is. -/
theorem keeps_put {new : Entry} {names : List String} {root : Entry}
    (h : ∀ e, root.at? names = some e → e.isFile = true) : Keeps root (put new names root) := by
  induction names generalizing root with
  | nil => exact keeps_of_isFile (h root rfl)
  | cons name names ih =>
    rw [put]
    refine keeps_setChild fun c hc => ?_
    rw [hc]
    exact ih fun e he => h e (by rw [at?_cons, hc]; exact he)

/-- The folder in which an entry is put has the new entry under its name. -/
theorem exists_at?_put {root : Entry} {names : List String} {entries : List (String × Entry)}
    (h : root.at? names = some (folder entries)) (name : String) (new : Entry) :
    ∃ entries', (put new (names ++ [name]) root).at? names = some (folder entries') ∧
      ∀ key, entries'.lookup key = if key = name then some new else entries.lookup key := by
  induction names generalizing root with
  | nil =>
    cases h
    obtain ⟨entries', hset, hlookup⟩ := exists_setChild entries name new
    exact ⟨entries', congrArg some hset, hlookup⟩
  | cons above names ih =>
    rw [at?_cons, Option.bind_eq_some_iff] at h
    obtain ⟨c, hc, h⟩ := h
    obtain ⟨entries', hentries, hlookup⟩ := ih h
    refine ⟨entries', ?_, hlookup⟩
    cases root with
    | file _ | link _ => cases hc
    | folder es =>
      obtain ⟨es', hset, hes⟩ := exists_setChild es above (put new (names ++ [name]) c)
      rw [List.cons_append, put, hc, Option.getD_some, hset, at?_cons, child?, hes, if_pos rfl]
      exact hentries

/-! ### A folder by its path -/

/-- A path leads to a folder through the names of folders. -/
theorem entry_eq_folder_iff {root : Entry} {path : String} {entries : List (String × Entry)} :
    root.entry path = .ok (folder entries) ↔
      ∃ names, root.locate path = .ok (.taken names) ∧ root.at? names = some (folder entries) := by
  cases hplace : root.locate path with
  | error fault => simp [entry, canonical, hplace, Except.bind, bind]
  | ok place =>
    cases place with
    | free above name => simp [entry, canonical, hplace, Except.bind, bind]
    | taken names =>
      cases hat : root.at? names with
      | none => simp [entry, canonical, hplace, hat, Except.bind, bind]
      | some e => simp [entry, canonical, hplace, hat, Except.bind, bind]

theorem foldlM_eq_of_forall {α : Type} {f : Entry → α → Except FileError Entry} {root : Entry}
    {l : List α} (h : ∀ a ∈ l, f root a = .ok root) : l.foldlM f root = .ok root := by
  induction l with
  | nil => rfl
  | cons a l ih =>
    obtain ⟨ha, hl⟩ := List.forall_mem_cons.mp h
    rw [List.foldlM_cons, ha]
    exact ih hl

variable {root : Entry} {path : String} {entries : List (String × Entry)}

/-- There is no folder to make where all are there. -/
theorem makeFolders_eq (h : root.entry path = .ok (folder entries)) :
    root.makeFolders path = .ok root := by
  obtain ⟨names, hplace, hnames⟩ := entry_eq_folder_iff.mp h
  have hfolder : root.FolderAt names := ⟨entries, hnames⟩
  refine foldlM_eq_of_forall fun i hi => ?_
  have hi := List.mem_range.mp hi
  have hsegs : ∀ seg ∈ (Path.segments path).take (i + 1), '/' ∉ seg.toList :=
    fun seg hseg => Path.not_mem_of_mem_segments (List.mem_of_mem_take hseg)
  have hne : (Path.segments path).take (i + 1) ≠ [] := by
    rw [Ne, List.take_eq_nil_iff, ← List.length_eq_zero_iff]
    omega
  rw [locate, ← List.take_append_drop (i + 1) (Path.segments path)] at hplace
  obtain ⟨left, mid, ⟨es, hmid⟩, hfollow⟩ := exists_follow_append hfolder.root hplace hfolder
  have hbefore := hfollow root (Keeps.refl root) []
  rw [List.append_nil, follow_nil] at hbefore
  rw [locate, Path.segments_intercalate hne hsegs, hbefore]
  simp [hmid, isFolder]

theorem follow_empty (root : Entry) (links : Nat) (here : List String) {segs : List String}
    (h : ∀ seg ∈ segs, seg = "") : follow root links here segs = .ok (.taken here) := by
  induction segs with
  | nil => exact follow_nil root links here
  | cons seg segs ih =>
    obtain ⟨rfl, hsegs⟩ := List.forall_mem_cons.mp h
    rw [follow_cons, if_pos (by rfl), ih hsegs]

/-- A name in a folder is looked for in the folder, in any later state of the tree. -/
theorem exists_locate_join (h : root.entry path = .ok (folder entries)) {name : String}
    (hslash : '/' ∉ name.toList) :
    ∃ names left, root.at? names = some (folder entries) ∧ ∀ after, Keeps root after →
      after.locate path = .ok (.taken names) ∧
      after.locate (Path.join path name) = follow after left names [name] := by
  obtain ⟨names, hplace, hnames⟩ := entry_eq_folder_iff.mp h
  have hfolder : root.FolderAt names := ⟨entries, hnames⟩
  obtain ⟨segs, rest, hpath, hrest, hjoin⟩ := Path.segments_join hslash path
  rw [locate, hpath] at hplace
  obtain ⟨left, mid, -, hfollow⟩ := exists_follow_append hfolder.root hplace hfolder
  have hmid : mid = names := by
    have hend := hfollow root (Keeps.refl root) rest
    rw [hplace, follow_empty _ _ _ hrest] at hend
    cases hend
    rfl
  subst hmid
  refine ⟨mid, left, hnames, fun after hkeeps => ⟨?_, ?_⟩⟩
  · rw [locate, hpath, hfollow after hkeeps, follow_empty _ _ _ hrest]
  · rw [locate, hjoin, hfollow after hkeeps]

/-! ### Files in a folder -/

theorem at?_name {names : List String} (h : root.at? names = some (folder entries))
    (name : String) : root.at? (names ++ [name]) = entries.lookup name := by
  rw [at?_append, h, Option.bind_some, at?_cons, child?]
  cases entries.lookup name <;> rfl

theorem follow_name {names : List String} (h : root.at? names = some (folder entries)) (left : Nat)
    {name : String} (hname : Path.IsName name) {content : Option String}
    (hcontent : entries.lookup name = content.map file) :
    follow root left names [name] =
      .ok (match content with
        | none => .free names name
        | some _ => .taken (names ++ [name])) := by
  have hentry : root.at? (names ++ [name]) = content.map file := (at?_name h name).trans hcontent
  rw [follow_cons, if_neg (by simp [hname.not_empty, hname.not_here]),
    if_neg (by simp [hname.not_above]), if_neg (Nat.not_lt.mpr hname.size), hentry]
  cases content <;> rfl

/-- The content of a file in a folder. -/
theorem read_join (h : root.entry path = .ok (folder entries)) {name : String}
    (hname : Path.IsName name) {content : Option String}
    (hcontent : entries.lookup name = content.map file) :
    root.read (Path.join path name) =
      match content with
      | none => .error .missing
      | some c => .ok c := by
  obtain ⟨names, left, hnames, hlocate⟩ := exists_locate_join h hname.not_slash
  have hplace := (hlocate root (Keeps.refl root)).2
  rw [follow_name hnames left hname hcontent] at hplace
  have hentry : root.at? (names ++ [name]) = content.map file :=
    (at?_name hnames name).trans hcontent
  cases content with
  | none => simp [read, entry, canonical, hplace, Except.bind, bind]
  | some c => simp [read, entry, canonical, hplace, hentry, Except.bind, bind]

/-- Editing a file in a folder changes this file, or makes it, and nothing else in the folder. -/
theorem exists_edit_join (h : root.entry path = .ok (folder entries)) {name : String}
    (hname : Path.IsName name) {content : Option String}
    (hcontent : entries.lookup name = content.map file) (f : String → String) :
    ∃ after entries', root.edit (Path.join path name) f = .ok after ∧
      after.entry path = .ok (folder entries') ∧
      ∀ key, entries'.lookup key =
        if key = name then some (file (f (content.getD ""))) else entries.lookup key := by
  obtain ⟨names, left, hnames, hlocate⟩ := exists_locate_join h hname.not_slash
  have hplace := (hlocate root (Keeps.refl root)).2
  rw [follow_name hnames left hname hcontent] at hplace
  have hentry : root.at? (names ++ [name]) = content.map file :=
    (at?_name hnames name).trans hcontent
  let new := file (f (content.getD ""))
  have hkeeps : Keeps root (put new (names ++ [name]) root) := by
    refine keeps_put fun e he => ?_
    rw [hentry] at he
    obtain ⟨c, -, rfl⟩ := Option.map_eq_some_iff.mp he
    rfl
  obtain ⟨entries', hentries, hlookup⟩ := exists_at?_put hnames name new
  refine ⟨_, entries', ?_, entry_eq_folder_iff.mpr ⟨names, (hlocate _ hkeeps).1, hentries⟩, hlookup⟩
  cases content with
  | none => simp [edit, hplace, Except.bind, bind, new]
  | some c => simp [edit, hplace, hentry, Except.bind, bind, new]

end Entry
end Flowline
