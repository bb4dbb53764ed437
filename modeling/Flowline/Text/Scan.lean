import Flowline.Text.Word

/-! Searching a text from left to right, each place seen with the character before it; texts cut at a
number of bytes; templates that are filled in. -/
namespace Flowline.Text

/-- What follows `pat`, if the text starts with it. -/
def after? : List Char → List Char → Option (List Char)
  | [], s => some s
  | _ :: _, [] => none
  | p :: pat, c :: s => if p = c then after? pat s else none

def skipBlank (s : List Char) : List Char := s.dropWhile isBlank

/-- At least one character of white space, then as much as there is. -/
def skipSomeBlank? : List Char → Option (List Char)
  | c :: s => if isBlank c then some (skipBlank s) else none
  | [] => none

/-- What follows a character of the given class. -/
def oneOf? (p : Char → Bool) : List Char → Option (List Char)
  | c :: s => if p c then some s else none
  | [] => none

/-- The longest run of at least one character of the given class, and what follows it. -/
def some? (p : Char → Bool) (s : List Char) : Option (List Char × List Char) :=
  let run := s.takeWhile p
  if run.isEmpty then none else some (run, s.dropWhile p)

/-- The answer of the first place that gives one. -/
def search (test : Option Char → List Char → Option α) (before : Option Char) (s : List Char) :
    Option α :=
  match test before s with
  | some a => some a
  | none => match s with
    | [] => none
    | c :: rest => search test (some c) rest

/-- The answers of all places, those within an earlier match left out. A test gives its answer and
what follows the match; the first `skip` characters belong to the last match. -/
def searchAll (test : Option Char → List Char → Option (α × List Char)) (skip : Nat)
    (before : Option Char) : List Char → List α
  | [] => []
  | c :: rest =>
    match skip with
    | k + 1 => searchAll test k (some c) rest
    | 0 => match test before (c :: rest) with
      | some (a, after) => a :: searchAll test (rest.length - after.length) (some c) rest
      | none => searchAll test 0 (some c) rest

/-- The number of bytes of a text in UTF-8. -/
def byteLength (s : List Char) : Nat := s.foldl (fun n c => n + c.utf8Size) 0

/-- Drops characters until the given number of bytes is gone. -/
def dropBytes : Nat → List Char → List Char
  | 0, s => s
  | _, [] => []
  | n, c :: s => dropBytes (n - c.utf8Size) s

/-- The longest beginning of at most the given number of bytes. -/
def takeBytes (n : Nat) : List Char → List Char
  | [] => []
  | c :: s => if c.utf8Size ≤ n then c :: takeBytes (n - c.utf8Size) s else []

/-- Stands for a byte of a character that was cut. -/
def cutMark : Char := '\uFFFD'

/-- Drops bytes from the front; each byte that is left of a cut character becomes a mark. -/
def dropFront : Nat → List Char → List Char
  | 0, s => s
  | _, [] => []
  | n + 1, c :: rest =>
    if c.utf8Size ≤ n + 1 then dropFront (n + 1 - c.utf8Size) rest
    else List.replicate (c.utf8Size - (n + 1)) cutMark ++ rest

/-- The last `n` bytes. -/
def lastBytes (n : Nat) (s : String) : String :=
  String.ofList (dropFront (s.utf8ByteSize - n) s.toList)

/-! ### Templates: texts with slots that other texts are put into -/

/-- The pieces between the occurrences of a slot, which are searched from the left; the first `skip`
characters belong to the last occurrence. -/
def piecesFrom (slot : List Char) (skip : Nat) : List Char → List (List Char)
  | [] => [[]]
  | c :: rest =>
    match skip with
    | k + 1 => piecesFrom slot k rest
    | 0 =>
      if slot.isPrefixOf (c :: rest) then [] :: piecesFrom slot (slot.length - 1) rest
      else match piecesFrom slot 0 rest with
        | [] => [[c]]
        | piece :: pieces => (c :: piece) :: pieces

/-- Puts a text into every slot of a template. What is put in is not searched for slots. -/
def fill (slot new template : String) : String :=
  String.ofList (new.toList.intercalate (piecesFrom slot.toList 0 template.toList))

end Flowline.Text
