import Flowline.Proofs.Files.Tree

/-!
# Where paths lead

A path goes from folder to folder, back up, and on behind links. `Entry.Leads` says so step by step, with
the links counted; following a path finds just what it leads to, as long as there are not too many.
-/
namespace Flowline.Entry

variable {root : Entry} {n : Nat} {here segs rest names : List String} {seg : String}

/-- From the folder `here` the segments of a path lead to the entry below `names`, through `n` links. -/
inductive Leads (root : Entry) : Nat → List String → List String → List String → Prop
  | arrived {here : List String} : Leads root 0 here [] here
  | stay {n : Nat} {here rest names : List String} {seg : String} (h : seg = "" ∨ seg = ".") :
      Leads root n here rest names → Leads root n here (seg :: rest) names
  | up {n : Nat} {here rest names : List String} :
      Leads root n here.dropLast rest names → Leads root n here (".." :: rest) names
  | folder {n : Nat} {here rest names : List String} {seg : String}
      {entries : List (String × Entry)} (hseg : Path.IsName seg)
      (hentry : root.at? (here ++ [seg]) = some (.folder entries)) :
      Leads root n (here ++ [seg]) rest names → Leads root n here (seg :: rest) names
  | file {here : List String} {seg content : String} (hseg : Path.IsName seg)
      (hentry : root.at? (here ++ [seg]) = some (.file content)) :
      Leads root 0 here [seg] (here ++ [seg])
  /-- The segments of the link come before those that are left. -/
  | link {n : Nat} {here rest names : List String} {seg target : String} (hseg : Path.IsName seg)
      (hentry : root.at? (here ++ [seg]) = some (.link target)) :
      Leads root n (if Path.isAbsolute target then [] else here) (Path.segments target ++ rest) names →
        Leads root (n + 1) here (seg :: rest) names

theorem follow_stay {links : Nat} (h : seg = "" ∨ seg = ".") :
    follow root links here (seg :: rest) = follow root links here rest := by
  rw [follow_cons, if_pos]
  rcases h with rfl | rfl <;> rfl

/-- An empty segment that is not the last one makes no difference. -/
theorem follow_empty_segment (root : Entry) (links : Nat) (here before : List String)
    (hrest : rest ≠ []) :
    follow root links here (before ++ "" :: rest) = follow root links here (before ++ rest) := by
  have hempty : ∀ before : List String,
      (before ++ "" :: rest).isEmpty = false ∧ (before ++ rest).isEmpty = false := by
    simp [List.isEmpty_eq_false_iff, hrest]
  -- a link starts anew with fewer links left
  induction links using Nat.strongRecOn generalizing here before with
  | ind links hlinks =>
  induction before generalizing here with
  | nil => exact follow_stay (.inl rfl)
  | cons seg before ih =>
    rw [List.cons_append, List.cons_append, follow_cons, follow_cons, ih here, ih here.dropLast,
      ih (here ++ [seg]), (hempty before).1, (hempty before).2]
    cases links with
    | zero => rfl
    | succ links => simp only [← List.append_assoc, hlinks links (Nat.lt_succ_self links)]

/-- The names lead straight from the root through folders to a folder or a file. -/
structure IsCanonical (root : Entry) (names : List String) : Prop where
  proper : ∀ name ∈ names, Path.IsName name
  folders : ∀ above below, names = above ++ below → below ≠ [] → root.FolderAt above
  ends : root.FolderAt names ∨ ∃ content, root.at? names = some (.file content)

theorem folderAt_of_append {above below : List String} {e : Entry} (hbelow : below ≠ [])
    (h : root.at? (above ++ below) = some e) : root.FolderAt above := by
  rw [at?_append, Option.bind_eq_some_iff] at h
  obtain ⟨mid, hmid, hchild⟩ := h
  cases below with
  | nil => exact absurd rfl hbelow
  | cons name below =>
    cases mid with
    | folder entries => exact ⟨entries, hmid⟩
    | file _ | link _ => cases hchild

/-- There is one way on from the name of a folder. -/
theorem leads_cons_iff {name : String} {entries : List (String × Entry)} (hname : Path.IsName name)
    (hentry : root.at? (here ++ [name]) = some (folder entries)) :
    Leads root n here (name :: rest) names ↔ Leads root n (here ++ [name]) rest names := by
  constructor
  · intro hleads
    cases hleads with
    | stay hstay => exact absurd hstay (not_or.mpr ⟨hname.not_empty, hname.not_here⟩)
    | up => exact absurd rfl hname.not_above
    | folder _ _ hleads => exact hleads
    | file _ hfile =>
      rw [hentry] at hfile
      cases hfile
    | link _ hlink =>
      rw [hentry] at hlink
      cases hlink
  · exact .folder hname hentry

/-- Names of folders are gone through one by one. -/
theorem leads_append_iff {base : List String} (hproper : ∀ name ∈ base, Path.IsName name)
    (h : root.FolderAt (here ++ base)) :
    Leads root n here (base ++ segs) names ↔ Leads root n (here ++ base) segs names := by
  induction base generalizing here with
  | nil => rw [List.nil_append, List.append_nil]
  | cons name base ih =>
    obtain ⟨hname, hrest⟩ := List.forall_mem_cons.mp hproper
    have hsplit : here ++ name :: base = here ++ [name] ++ base := by simp
    rw [hsplit] at h ⊢
    obtain ⟨entries, hentry⟩ : root.FolderAt (here ++ [name]) := by
      obtain ⟨entries, hentries⟩ := h
      cases base with
      | nil => exact ⟨entries, by simpa using hentries⟩
      | cons next base => exact folderAt_of_append (List.cons_ne_nil next base) hentries
    rw [List.cons_append, leads_cons_iff hname hentry, ih hrest h]

theorem leads_root_iff {base : List String} (hproper : ∀ name ∈ base, Path.IsName name)
    (h : root.FolderAt base) : Leads root n [] (base ++ segs) names ↔ Leads root n base segs names :=
  leads_append_iff hproper (show root.FolderAt ([] ++ base) from h)

theorem IsCanonical.leads (h : root.IsCanonical names) : Leads root 0 [] names names := by
  rcases h.ends with hfolder | ⟨content, hfile⟩
  · rw [← List.append_nil names, leads_root_iff h.proper hfolder, List.append_nil]
    exact .arrived
  · obtain rfl | ⟨above, name, rfl⟩ := List.eq_nil_or_concat names
    · exact .arrived
    · rw [List.concat_eq_append] at h hfile ⊢
      have habove := h.folders above [name] rfl (List.cons_ne_nil _ _)
      refine (leads_root_iff (fun n hn => h.proper n (List.mem_append_left _ hn)) habove).mpr ?_
      exact .file (h.proper name (by simp)) hfile

end Flowline.Entry
