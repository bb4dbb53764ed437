import Flowline.Proofs.Data.Record
import Flowline.Proofs.Files.Tree

/-!
# What a change leaves as it was

An entry that is put under a name of a folder changes no file elsewhere. Folders that are made along a
path change no file at all, and the path then leads to a folder.
-/
namespace Flowline

/-- A name that means itself in a path, though it may be too long for a file. -/
structure Path.IsPlain (name : String) : Prop where
  not_slash : '/' ∉ name.toList
  not_empty : name ≠ ""
  not_here : name ≠ "."
  not_above : name ≠ ".."

theorem Path.IsPlain.isName {name : String} (h : Path.IsPlain name)
    (hsize : name.utf8ByteSize ≤ Entry.maxName) : Path.IsName name :=
  { h with size := hsize }

namespace Entry

variable {root after new : Entry} {path name : String} {names : List String}
  {entries : List (String × Entry)}

/-- The content of the file below the named folders. -/
def fileAt? (root : Entry) (names : List String) : Option String :=
  match root.at? names with
  | some (.file content) => some content
  | _ => none

theorem fileAt?_cons (root : Entry) (name : String) (names : List String) :
    root.fileAt? (name :: names) = (root.child? name).bind fun c => c.fileAt? names := by
  rw [fileAt?, at?_cons]
  cases root.child? name <;> rfl

theorem fileAt?_folder (entries : List (String × Entry)) (names : List String) :
    (folder entries).fileAt? names = match names with
      | [] => none
      | name :: names => (entries.lookup name).bind fun c => c.fileAt? names := by
  cases names with
  | nil => rfl
  | cons name names => exact fileAt?_cons _ name names

/-- There is nothing below the entry. -/
def IsBare (e : Entry) : Prop := ∀ name, e.child? name = none

theorem isBare_file (content : String) : IsBare (file content) := fun _ => rfl

theorem isBare_empty : IsBare (folder []) := fun _ => rfl

theorem IsBare.fileAt?_cons (h : IsBare new) (name : String) (names : List String) :
    new.fileAt? (name :: names) = none := by
  rw [Entry.fileAt?_cons, h name, Option.bind_none]

/-- Files elsewhere are as before. -/
theorem fileAt?_put (h : root.at? names = some (folder entries)) (hnew : IsBare new)
    (hold : ∀ e, entries.lookup name = some e → IsBare e) {place : List String}
    (hplace : place ≠ names ++ [name]) :
    (put new (names ++ [name]) root).fileAt? place = root.fileAt? place := by
  induction names generalizing root place with
  | nil =>
    cases h
    obtain ⟨entries', hset, hlookup⟩ := exists_setChild entries name new
    change ((folder entries).setChild name new).fileAt? place = _
    rw [hset, fileAt?_folder, fileAt?_folder]
    cases place with
    | nil => rfl
    | cons key place =>
      by_cases hkey : key = name
      · subst hkey
        cases place with
        | nil => exact absurd rfl hplace
        | cons next place =>
          simp only [hlookup, if_true, Option.bind_some, hnew.fileAt?_cons]
          cases hchild : entries.lookup key with
          | none => rfl
          | some e => exact ((hold e hchild).fileAt?_cons next place).symm
      · simp only [hlookup, if_neg hkey]
  | cons above names ih =>
    rw [at?_cons, Option.bind_eq_some_iff] at h
    obtain ⟨c, hc, h⟩ := h
    cases root with
    | file _ | link _ => cases hc
    | folder es =>
      obtain ⟨es', hset, hes⟩ := exists_setChild es above (put new (names ++ [name]) c)
      rw [List.cons_append, put, hc, Option.getD_some, hset, fileAt?_folder, fileAt?_folder]
      cases place with
      | nil => rfl
      | cons key place =>
        by_cases hkey : key = above
        · subst hkey
          have hrest : place ≠ names ++ [name] := fun heq => hplace (by rw [heq, List.cons_append])
          have hchild : es.lookup key = some c := hc
          simp only [hes, if_true, hchild, Option.bind_some]
          exact ih h hrest
        · simp only [hes, if_neg hkey]

/-! ### Making folders -/

/-- A path that leads to a free name leads to the folder that is made there. -/
theorem follow_of_free {links : Nat} {here segs above : List String} (hhere : root.FolderAt here)
    (h : follow root links here segs = .ok (.free above name)) :
    root.FolderAt above ∧ root.at? (above ++ [name]) = none ∧
      ∀ after, Keeps root after → after.FolderAt (above ++ [name]) →
        follow after links here segs = .ok (.taken (above ++ [name])) := by
  -- a link starts anew with fewer links left
  induction links using Nat.strongRecOn generalizing here segs with
  | ind links hlinks =>
  induction segs generalizing here with
  | nil =>
    rw [follow_nil] at h
    cases h
  | cons seg segs ih =>
    rw [follow_cons] at h
    simp only [follow_cons]
    by_cases hempty : (seg.isEmpty || seg == ".") = true
    · simp only [if_pos hempty] at h ⊢
      exact ih hhere h
    by_cases hup : (seg == "..") = true
    · simp only [if_neg hempty, if_pos hup] at h ⊢
      exact ih hhere.dropLast h
    by_cases hlong : maxName < seg.utf8ByteSize
    · simp only [if_neg hempty, if_neg hup, if_pos hlong] at h
      cases h
    simp only [if_neg hempty, if_neg hup, if_neg hlong] at h ⊢
    split at h
    · rename_i hentry
      split at h
      · rename_i hlast
        cases h
        refine ⟨hhere, hentry, fun after hkeeps ⟨entries, hfolder⟩ => ?_⟩
        obtain rfl := List.isEmpty_iff.mp hlast
        simp only [hfolder, follow_nil]
      · cases h
    · rename_i entries hentry
      obtain ⟨habove, hfree, hfollow⟩ := ih ⟨entries, hentry⟩ h
      refine ⟨habove, hfree, fun after hkeeps hfolder => ?_⟩
      obtain ⟨es, hes⟩ := hkeeps.folders _ ⟨entries, hentry⟩
      simp only [hes]
      exact hfollow after hkeeps hfolder
    · split at h <;> cases h
    · rename_i target hentry
      cases links with
      | zero => cases h
      | succ links =>
        have hstart : root.FolderAt (if Path.isAbsolute target then [] else here) := by
          split
          · exact hhere.root
          · exact hhere
        obtain ⟨habove, hfree, hfollow⟩ := hlinks links (Nat.lt_succ_self links) hstart h
        refine ⟨habove, hfree, fun after hkeeps hfolder => ?_⟩
        simp only [hkeeps.links _ _ hentry]
        exact hfollow after hkeeps hfolder

/-- A path leads to nothing, or to a name that is free. -/
def IsMissing (root : Entry) (path : String) : Prop :=
  root.locate path = .error .missing ∨ ∃ above name, root.locate path = .ok (.free above name)

/-- There is nothing behind what is missing; empty segments at the end of its path are left out. -/
theorem follow_missing {links : Nat} {here segs rest more : List String}
    (hrest : ∀ seg ∈ rest, seg = "") (hmore : more ≠ [])
    (h : follow root links here (segs ++ rest) = .error .missing ∨
      ∃ above name, follow root links here (segs ++ rest) = .ok (.free above name)) :
    follow root links here (segs ++ more) = .error .missing := by
  -- a link starts anew with fewer links left
  induction links using Nat.strongRecOn generalizing here segs with
  | ind links hlinks =>
  induction segs generalizing here with
  | nil => simp [follow_empty root links here hrest] at h
  | cons seg segs ih =>
    rw [List.cons_append, follow_cons]
    rw [List.cons_append, follow_cons] at h
    by_cases hempty : (seg.isEmpty || seg == ".") = true
    · simp only [if_pos hempty] at h ⊢
      exact ih h
    by_cases hup : (seg == "..") = true
    · simp only [if_neg hempty, if_pos hup] at h ⊢
      exact ih h
    by_cases hlong : maxName < seg.utf8ByteSize
    · simp only [if_neg hempty, if_neg hup, if_pos hlong] at h
      rcases h with h | ⟨_, _, h⟩ <;> cases h
    simp only [if_neg hempty, if_neg hup, if_neg hlong] at h ⊢
    cases hentry : root.at? (here ++ [seg]) with
    | none => simp [hmore]
    | some e =>
      simp only [hentry] at h
      cases e with
      | folder entries => exact ih h
      | file content =>
        dsimp only at h
        rcases h with h | ⟨_, _, h⟩ <;> split at h <;> cases h
      | link target =>
        cases links with
        | zero => simp at h
        | succ links =>
          simp only [← List.append_assoc] at h ⊢
          exact hlinks links (Nat.lt_succ_self links) h

theorem IsMissing.read_join (h : root.IsMissing path) (hslash : '/' ∉ name.toList) :
    root.read (Path.join path name) = .error .missing := by
  obtain ⟨segs, rest, hpath, hrest, hjoin⟩ := Path.segments_join hslash path
  rw [IsMissing, locate, hpath] at h
  have hplace : root.locate (Path.join path name) = .error .missing := by
    rw [locate, hjoin]
    exact follow_missing hrest (List.cons_ne_nil _ _) h
  simp [Entry.read, Entry.entry, canonical, hplace, Except.bind, bind]

/-- Folders and links stay, and so do all files. -/
structure OnlyFolders (root after : Entry) : Prop where
  keeps : Keeps root after
  files : ∀ names, after.fileAt? names = root.fileAt? names

theorem OnlyFolders.refl (root : Entry) : OnlyFolders root root := ⟨.refl root, fun _ => rfl⟩

theorem Keeps.trans {e₁ e₂ e₃ : Entry} (h : Keeps e₁ e₂) (h' : Keeps e₂ e₃) : Keeps e₁ e₃ :=
  ⟨fun names hnames => h'.folders names (h.folders names hnames),
    fun names target hnames => h'.links names target (h.links names target hnames)⟩

theorem OnlyFolders.trans {e₁ e₂ e₃ : Entry} (h : OnlyFolders e₁ e₂) (h' : OnlyFolders e₂ e₃) :
    OnlyFolders e₁ e₃ :=
  ⟨h.keeps.trans h'.keeps, fun names => (h'.files names).trans (h.files names)⟩

/-- A folder that is put under a free name. -/
theorem onlyFolders_put (habove : root.FolderAt names) (hfree : root.at? (names ++ [name]) = none) :
    OnlyFolders root (put (folder []) (names ++ [name]) root) ∧
      (put (folder []) (names ++ [name]) root).at? (names ++ [name]) = some (folder []) := by
  obtain ⟨entries, hentries⟩ := habove
  have hnone : entries.lookup name = none := (at?_name hentries name).symm.trans hfree
  obtain ⟨entries', hentries', hlookup⟩ := exists_at?_put hentries name (folder [])
  have hmade : (put (folder []) (names ++ [name]) root).at? (names ++ [name]) = some (folder []) := by
    rw [at?_name hentries', hlookup, if_pos rfl]
  refine ⟨⟨keeps_put fun e he => ?_, fun place => ?_⟩, hmade⟩
  · rw [hfree] at he
    cases he
  · by_cases hplace : place = names ++ [name]
    · rw [hplace, fileAt?, fileAt?, hmade, hfree]
    · refine fileAt?_put hentries isBare_empty (fun e he => ?_) hplace
      rw [hnone] at he
      cases he

/-- Makes the folder at which segments end, if it is missing. -/
def makeFolder (root : Entry) (segs : List String) : Except FileError Entry :=
  match follow root maxLinks [] segs with
  | .ok (.free above name) => .ok (put (.folder []) (above ++ [name]) root)
  | .ok (.taken names) =>
    if (root.at? names).any Entry.isFolder then .ok root else .error .notFolder
  | .error fault => .error fault

theorem makeFolders_eq_foldlM (root : Entry) (path : String) :
    root.makeFolders path = (List.range (Path.segments path).length).foldlM
      (fun e i => e.makeFolder ((Path.segments path).take (i + 1))) root := by
  have hlocate : ∀ (e : Entry) (i : Nat),
      e.locate ("/".intercalate ((Path.segments path).take (i + 1))) =
        follow e maxLinks [] ((Path.segments path).take (i + 1)) := by
    intro e i
    have hne : (Path.segments path).take (i + 1) ≠ [] := by
      rw [Ne, List.take_eq_nil_iff, not_or]
      exact ⟨Nat.succ_ne_zero i, Path.segments_ne_nil path⟩
    rw [locate, Path.segments_intercalate hne fun seg hseg =>
      Path.not_mem_of_mem_segments (List.mem_of_mem_take hseg)]
  simp only [makeFolders, hlocate]
  rfl

theorem makeFolder_spec {segs : List String} (hroot : root.FolderAt [])
    (h : root.makeFolder segs = .ok after) :
    OnlyFolders root after ∧ ∃ names, follow after maxLinks [] segs = .ok (.taken names) ∧
      after.FolderAt names := by
  rw [makeFolder] at h
  split at h
  · rename_i above name hfree
    cases h
    obtain ⟨habove, hnone, hfollow⟩ := follow_of_free hroot hfree
    obtain ⟨honly, hmade⟩ := onlyFolders_put habove hnone
    exact ⟨honly, _, hfollow _ honly.keeps ⟨_, hmade⟩, _, hmade⟩
  · rename_i names htaken
    split at h
    · rename_i hfolder
      cases h
      obtain ⟨e, he, hisFolder⟩ := (Option.any_eq_true _ _).mp hfolder
      cases e with
      | folder entries => exact ⟨.refl root, names, htaken, entries, he⟩
      | file _ | link _ => cases hisFolder
    · cases h
  · cases h

theorem onlyFolders_foldlM {α : Type} (segs : α → List String) (l : List α)
    (hroot : root.FolderAt []) (h : l.foldlM (fun e a => e.makeFolder (segs a)) root = .ok after) :
    OnlyFolders root after := by
  induction l generalizing root with
  | nil =>
    cases h
    exact .refl _
  | cons a l ih =>
    rw [List.foldlM_cons] at h
    obtain ⟨e, he, hrest⟩ := exists_of_bind_eq_ok h
    have honly := (makeFolder_spec hroot he).1
    exact honly.trans (ih (honly.keeps.folders [] hroot) hrest)

/-- Making the folders of a path changes no file, and the path leads to a folder then. -/
theorem makeFolders_spec (hroot : root.FolderAt []) (h : root.makeFolders path = .ok after) :
    OnlyFolders root after ∧ ∃ entries, after.entry path = .ok (folder entries) := by
  rw [makeFolders_eq_foldlM] at h
  have honly := onlyFolders_foldlM _ _ hroot h
  obtain ⟨n, hn⟩ := Nat.exists_eq_succ_of_ne_zero
    (mt List.length_eq_zero_iff.mp (Path.segments_ne_nil path))
  -- the last step is about the whole path
  rw [hn, List.range_succ, List.foldlM_append] at h
  obtain ⟨e, he, hlast⟩ := exists_of_bind_eq_ok h
  obtain ⟨made, hmade, hnil⟩ := exists_of_bind_eq_ok hlast
  cases hnil
  have hbefore := (onlyFolders_foldlM _ _ hroot he).keeps.folders [] hroot
  obtain ⟨-, names, hplace, entries, hentries⟩ := makeFolder_spec hbefore hmade
  rw [List.take_of_length_le (Nat.le_of_eq hn)] at hplace
  exact ⟨honly, entries, entry_eq_folder_iff.mpr ⟨names, hplace, hentries⟩⟩

/-! ### Files of one folder -/

/-- None of the entries of a folder is a link. -/
def NoLinks (entries : List (String × Entry)) : Prop :=
  ∀ name target, entries.lookup name ≠ some (link target)

theorem follow_long {links : Nat} {here : List String} (hname : Path.IsPlain name)
    (hlong : maxName < name.utf8ByteSize) :
    follow root links here [name] = .error .nameTooLong := by
  rw [follow_cons, if_neg (by simp [hname.not_empty, hname.not_here]),
    if_neg (by simp [hname.not_above]), if_pos hlong]

/-- Where a name in a folder without links leads. -/
theorem follow_plain (h : root.at? names = some (folder entries)) (hlinks : NoLinks entries)
    (left : Nat) (hname : Path.IsPlain name) :
    follow root left names [name] =
      if maxName < name.utf8ByteSize then .error .nameTooLong
      else .ok (match entries.lookup name with
        | none => .free names name
        | some _ => .taken (names ++ [name])) := by
  by_cases hlong : maxName < name.utf8ByteSize
  · rw [if_pos hlong, follow_long hname hlong]
  · have hentry : root.at? (names ++ [name]) = entries.lookup name := at?_name h name
    rw [if_neg hlong, follow_cons, if_neg (by simp [hname.not_empty, hname.not_here]),
      if_neg (by simp [hname.not_above]), if_neg hlong, hentry]
    cases hchild : entries.lookup name with
    | none => rfl
    | some e =>
      cases e with
      | file content => rfl
      | folder es => exact follow_nil root left _
      | link target => exact absurd hchild (hlinks name target)

/-- In a tree that began as `made`, with a folder at `path`, files under some names of the folder have
been written, and nothing else has changed. -/
structure Inside (made : Entry) (path : String) (own names : List String)
    (entries : List (String × Entry)) (e : Entry) : Prop where
  keeps : Keeps made e
  place : e.locate path = .ok (.taken names)
  files : ∀ place, (∀ name ∈ own, place ≠ names ++ [name]) → e.fileAt? place = made.fileAt? place
  contents : ∃ entries', e.at? names = some (folder entries') ∧ NoLinks entries' ∧
    ∀ key ∉ own, entries'.lookup key = entries.lookup key

variable {made e : Entry} {own : List String}

theorem exists_inside (h : made.entry path = .ok (folder entries)) (hlinks : NoLinks entries)
    (own : List String) :
    ∃ names, made.at? names = some (folder entries) ∧ Inside made path own names entries made := by
  obtain ⟨names, hplace, hentries⟩ := entry_eq_folder_iff.mp h
  exact ⟨names, hentries, .refl made, hplace, fun _ _ => rfl, entries, hentries, hlinks,
    fun _ _ => rfl⟩

theorem Inside.entry (h : Inside made path own names entries e) :
    ∃ entries', e.entry path = .ok (folder entries') ∧ NoLinks entries' ∧
      ∀ key ∉ own, entries'.lookup key = entries.lookup key := by
  obtain ⟨entries', hentries, hrest⟩ := h.contents
  exact ⟨entries', entry_eq_folder_iff.mpr ⟨names, h.place, hentries⟩, hrest⟩

/-- Where the path of a name in the folder goes. -/
theorem Inside.exists_locate_join (h : Inside made path own names entries e)
    (hslash : '/' ∉ name.toList) :
    ∃ left, ∀ after, Keeps e after → after.locate path = .ok (.taken names) ∧
      after.locate (Path.join path name) = follow after left names [name] := by
  obtain ⟨entries', hentry, -⟩ := h.entry
  obtain ⟨names', left, -, hlocate⟩ := Entry.exists_locate_join hentry hslash
  have hplace := (hlocate e (.refl e)).1
  rw [h.place] at hplace
  cases hplace
  exact ⟨left, hlocate⟩

/-- A file that is written was a file before, or it is new. -/
theorem exists_put_of_edit {left : Nat} (h : root.at? names = some (folder entries))
    (hlinks : NoLinks entries) (hname : Path.IsPlain name)
    (hplace : root.locate path = follow root left names [name]) {f : String → String}
    (hedit : root.edit path f = .ok after) :
    ∃ content, after = put (.file content) (names ++ [name]) root ∧
      ∀ old, entries.lookup name = some old → ∃ c, old = .file c := by
  rw [Entry.edit, hplace, follow_plain h hlinks left hname] at hedit
  split at hedit
  · cases hedit
  · have hentry : root.at? (names ++ [name]) = entries.lookup name := at?_name h name
    cases hchild : entries.lookup name with
    | none =>
      rw [hchild] at hedit
      cases hedit
      exact ⟨_, rfl, fun old hold => by cases hold⟩
    | some old =>
      rw [hchild, ok_bind] at hedit
      dsimp only at hedit
      rw [hentry, hchild] at hedit
      cases old with
      | file c =>
        cases hedit
        exact ⟨_, rfl, fun old hold => ⟨c, (Option.some.inj hold).symm⟩⟩
      | folder _ | link _ => cases hedit

/-- One of the files is written. -/
theorem Inside.edit (h : Inside made path own names entries e) (hown : name ∈ own)
    (hname : Path.IsPlain name) {f : String → String}
    (hedit : e.edit (Path.join path name) f = .ok after) :
    Inside made path own names entries after := by
  obtain ⟨entries', hentries, hlinks, hothers⟩ := h.contents
  obtain ⟨left, hlocate⟩ := h.exists_locate_join hname.not_slash
  obtain ⟨content, rfl, hold⟩ :=
    exists_put_of_edit hentries hlinks hname (hlocate e (.refl e)).2 hedit
  have hkeeps : Keeps e (put (.file content) (names ++ [name]) e) := by
    refine keeps_put fun old hat => ?_
    rw [at?_name hentries] at hat
    obtain ⟨c, rfl⟩ := hold old hat
    rfl
  obtain ⟨after', hafter, hlookup⟩ := exists_at?_put hentries name (.file content)
  refine ⟨h.keeps.trans hkeeps, (hlocate _ hkeeps).1, fun place hplace => ?_, after', hafter,
    fun key target hkey => ?_, fun key hkey => ?_⟩
  · rw [fileAt?_put hentries (isBare_file content) (fun old hat => ?_) (hplace name hown)]
    · exact h.files place hplace
    · obtain ⟨c, rfl⟩ := hold old hat
      exact isBare_file c
  · rw [hlookup] at hkey
    split at hkey
    · cases hkey
    · exact hlinks key target hkey
  · have hne : key ≠ name := fun heq => hkey (heq ▸ hown)
    rw [hlookup, if_neg hne]
    exact hothers key hkey

theorem read_plain {left : Nat} (h : root.at? names = some (folder entries))
    (hlinks : NoLinks entries) (hname : Path.IsPlain name)
    (hplace : root.locate path = follow root left names [name]) :
    root.read path = if maxName < name.utf8ByteSize then .error .nameTooLong
      else match entries.lookup name with
        | none => .error .missing
        | some (.file content) => .ok content
        | some _ => .error .isFolder := by
  rw [follow_plain h hlinks left hname] at hplace
  by_cases hlong : maxName < name.utf8ByteSize
  · rw [if_pos hlong] at hplace ⊢
    simp [Entry.read, Entry.entry, canonical, hplace, Except.bind, bind]
  · have hentry : root.at? (names ++ [name]) = entries.lookup name := at?_name h name
    rw [if_neg hlong] at hplace ⊢
    cases hchild : entries.lookup name with
    | none =>
      rw [hchild] at hplace
      simp [Entry.read, Entry.entry, canonical, hplace, Except.bind, bind]
    | some e =>
      rw [hchild] at hplace hentry
      cases e <;> simp [Entry.read, Entry.entry, canonical, hplace, hentry, Except.bind, bind]

/-- What is read under another name is as it was. -/
theorem Inside.read_eq (h : Inside made path own names entries e)
    (hmade : Inside made path own names entries made) (hother : name ∉ own)
    (hname : Path.IsPlain name) : e.read (Path.join path name) = made.read (Path.join path name) := by
  obtain ⟨left, hlocate⟩ := hmade.exists_locate_join hname.not_slash
  obtain ⟨entries₁, hentries₁, hlinks₁, hothers₁⟩ := hmade.contents
  obtain ⟨entries₂, hentries₂, hlinks₂, hothers₂⟩ := h.contents
  rw [read_plain hentries₂ hlinks₂ hname (hlocate e h.keeps).2,
    read_plain hentries₁ hlinks₁ hname (hlocate made (.refl made)).2, hothers₁ name hother,
    hothers₂ name hother]

/-- A path of a name in the folder leads right into the folder. -/
theorem Inside.canonical_join (h : Inside made path own names entries e) (hname : Path.IsPlain name)
    {found : List String} (hfound : e.canonical (Path.join path name) = .ok found) :
    found = names ++ [name] := by
  obtain ⟨left, hlocate⟩ := h.exists_locate_join hname.not_slash
  obtain ⟨entries', hentries, hlinks, -⟩ := h.contents
  rw [canonical, (hlocate e (.refl e)).2, follow_plain hentries hlinks left hname] at hfound
  split at hfound
  · cases hfound
  · cases hchild : entries'.lookup name with
    | none =>
      rw [hchild] at hfound
      cases hfound
    | some child =>
      rw [hchild] at hfound
      exact (Except.ok.inj hfound).symm

end Entry
end Flowline
