import Flowline.Text.Blank

/-! A tree of files, folders and links, and the entries that paths lead to. -/
namespace Flowline

inductive Entry where
  | file (content : String)
  /-- Leads to another path; a relative one starts at the folder of the link. -/
  | link (target : String)
  | folder (entries : List (String × Entry))
deriving Inhabited

inductive FileError where
  | missing
  | notFolder
  | isFolder
  | nameTooLong
  | tooManyLinks
deriving DecidableEq

def FileError.message : FileError → String
  | missing => "No such file or directory (os error 2)"
  | notFolder => "Not a directory (os error 20)"
  | isFolder => "Is a directory (os error 21)"
  | nameTooLong => "File name too long (os error 36)"
  | tooManyLinks => "Too many levels of symbolic links (os error 40)"

namespace Path

def isAbsolute (p : String) : Bool := p.startsWith "/"

/-- A path seen from a folder; an absolute one stays. -/
def join (base p : String) : String :=
  if isAbsolute p then p else if base.isEmpty || base.endsWith "/" then base ++ p
  else base ++ "/" ++ p

def segments (p : String) : List String := Text.splitOn '/' p

/-- The absolute path through the named folders. -/
def ofNames (names : List String) : String := "/" ++ "/".intercalate names

end Path

namespace Entry

def isFile : Entry → Bool
  | file _ => true
  | _ => false

def isFolder : Entry → Bool
  | folder _ => true
  | _ => false

def child? : Entry → String → Option Entry
  | folder entries, name => entries.lookup name
  | _, _ => none

/-- The entry below the named folders; links are not followed. -/
def at? : Entry → List String → Option Entry
  | e, [] => some e
  | e, name :: rest => (e.child? name).bind fun c => c.at? rest

/-- Sets or adds a child. -/
def setChild (e : Entry) (name : String) (c : Entry) : Entry :=
  match e with
  | folder entries =>
    if entries.any (·.1 == name) then
      folder (entries.map fun p => if p.1 == name then (name, c) else p)
    else folder (entries ++ [(name, c)])
  | e => e

/-- Puts an entry below the named folders, which are made where they are missing. -/
def put (new : Entry) : List String → Entry → Entry
  | [], _ => new
  | name :: rest, e => e.setChild name (put new rest ((e.child? name).getD (folder [])))

/-- Where a path leads: to an entry, or to a free name in a folder. -/
inductive Place where
  | taken (names : List String)
  | free (names : List String) (name : String)

/-- Longest name in bytes. -/
def maxName : Nat := 255

/-- Follows the segments of a path from the folder `here`; `onLink` goes on behind a link. -/
def steps (root : Entry) (onLink : List String → List String → Except FileError Place)
    (here : List String) : List String → Except FileError Place
  | [] => .ok (.taken here)
  | seg :: rest =>
    if seg.isEmpty || seg == "." then steps root onLink here rest
    else if seg == ".." then steps root onLink here.dropLast rest
    else if maxName < seg.utf8ByteSize then .error .nameTooLong
    else match root.at? (here ++ [seg]) with
      | none => if rest.isEmpty then .ok (.free here seg) else .error .missing
      | some (.folder _) => steps root onLink (here ++ [seg]) rest
      | some (.file _) =>
        if rest.isEmpty then .ok (.taken (here ++ [seg])) else .error .notFolder
      | some (.link target) =>
        onLink (if Path.isAbsolute target then [] else here) (Path.segments target ++ rest)

/-- Follows a path through at most `links` links. -/
def follow (root : Entry) : Nat → List String → List String → Except FileError Place
  | 0 => steps root fun _ _ => .error .tooManyLinks
  | links + 1 => steps root (follow root links)

def maxLinks : Nat := 40

/-- Where an absolute path leads. -/
def locate (root : Entry) (path : String) : Except FileError Place :=
  follow root maxLinks [] (Path.segments path)

/-- The names of the folders down to an entry, with all links followed. -/
def canonical (root : Entry) (path : String) : Except FileError (List String) :=
  (root.locate path).bind fun
    | .taken names => .ok names
    | .free .. => .error .missing

def entry (root : Entry) (path : String) : Except FileError Entry := do
  let names ← root.canonical path
  match root.at? names with
  | some e => .ok e
  | none => .error .missing

def read (root : Entry) (path : String) : Except FileError String := do
  match ← root.entry path with
  | .file content => .ok content
  | _ => .error .isFolder

/-- Gives a file new content, made from its old one. -/
def edit (root : Entry) (path : String) (f : String → String) : Except FileError Entry := do
  match ← root.locate path with
  | .free above name => .ok (put (.file (f "")) (above ++ [name]) root)
  | .taken names =>
    match root.at? names with
    | some (.file content) => .ok (put (.file (f content)) names root)
    | _ => .error .isFolder

def write (root : Entry) (path content : String) : Except FileError Entry :=
  root.edit path fun _ => content

def append (root : Entry) (path content : String) : Except FileError Entry :=
  root.edit path (· ++ content)

/-- A path leads to a regular file. -/
def hasFile (root : Entry) (path : String) : Bool :=
  match root.entry path with
  | .ok e => e.isFile
  | .error _ => false

/-- Makes the folders of an absolute path that are missing. -/
def makeFolders (root : Entry) (path : String) : Except FileError Entry :=
  let segs := Path.segments path
  (List.range segs.length).foldlM (fun e i =>
    match e.locate ("/".intercalate (segs.take (i + 1))) with
    | .ok (.free above name) => .ok (put (.folder []) (above ++ [name]) e)
    | .ok (.taken names) =>
      if (e.at? names).any Entry.isFolder then .ok e else .error .notFolder
    | .error fault => .error fault) root

end Entry
end Flowline
