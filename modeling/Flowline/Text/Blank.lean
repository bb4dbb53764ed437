/-! White space: the 25 characters of the property White_Space, and cutting it from the ends. -/
namespace Flowline.Text

/-- Closed ranges of code points, ascending and apart. -/
abbrev Ranges := List (Nat × Nat)

def Ranges.has : Ranges → Nat → Bool
  | [], _ => false
  | (lo, hi) :: rest, n => lo ≤ n && (n ≤ hi || has rest n)

def blankRanges : Ranges :=
  [(0x09, 0x0D), (0x20, 0x20), (0x85, 0x85), (0xA0, 0xA0), (0x1680, 0x1680), (0x2000, 0x200A),
   (0x2028, 0x2029), (0x202F, 0x202F), (0x205F, 0x205F), (0x3000, 0x3000)]

def isBlank (c : Char) : Bool := blankRanges.has c.toNat

def trimStartChars (p : Char → Bool) (s : List Char) : List Char := s.dropWhile p
def trimEndChars (p : Char → Bool) (s : List Char) : List Char := (s.reverse.dropWhile p).reverse
def trimChars (p : Char → Bool) (s : List Char) : List Char := trimEndChars p (trimStartChars p s)

def trim (s : String) : String := String.ofList (trimChars isBlank s.toList)
def trimEnd (s : String) : String := String.ofList (trimEndChars isBlank s.toList)
def trimStart (s : String) : String := String.ofList (trimStartChars isBlank s.toList)

/-- Nothing but white space. -/
def allBlank (s : String) : Bool := s.toList.all isBlank

/-- Lower case of the ASCII letters; other characters stay. -/
def lowerAscii (c : Char) : Char := if 'A' ≤ c ∧ c ≤ 'Z' then Char.ofNat (c.toNat + 32) else c
def lowerAsciiText (s : String) : String := String.ofList (s.toList.map lowerAscii)

/-- Pieces between the separator; the empty text has one empty piece. -/
def splitChars (sep : Char) : List Char → List (List Char)
  | [] => [[]]
  | c :: rest =>
    if c = sep then [] :: splitChars sep rest
    else match splitChars sep rest with
      | [] => [[c]]
      | piece :: pieces => (c :: piece) :: pieces

def splitOn (sep : Char) (s : String) : List String := (splitChars sep s.toList).map String.ofList

/-- Lines without their terminators (`\n` or `\r\n`); a final terminator opens no further line. -/
def lineChars (s : List Char) : List (List Char) :=
  let pieces := splitChars '\n' s
  let pieces := if pieces.getLast? = some [] then pieces.dropLast else pieces
  let last := pieces.length - 1
  let ends := s.getLast? = some '\n'
  pieces.mapIdx fun i piece =>
    if piece.getLast? = some '\r' ∧ (i < last ∨ ends) then piece.dropLast else piece

def lines (s : String) : List String := (lineChars s.toList).map String.ofList

/-- The pieces between runs of white space. -/
def wordsFrom (word : List Char) : List Char → List (List Char)
  | [] => if word.isEmpty then [] else [word.reverse]
  | c :: rest =>
    if !isBlank c then wordsFrom (c :: word) rest
    else if word.isEmpty then wordsFrom [] rest
    else word.reverse :: wordsFrom [] rest

def words (s : String) : List String := (wordsFrom [] s.toList).map String.ofList

/-- The first occurrence of `pat`: what stands before it and what follows it. -/
def cut? (pat : List Char) : List Char → Option (List Char × List Char)
  | [] => if pat.isEmpty then some ([], []) else none
  | c :: rest =>
    if pat.isPrefixOf (c :: rest) then some ([], (c :: rest).drop pat.length)
    else (cut? pat rest).map fun (a, b) => (c :: a, b)

def hasInfix (s pat : String) : Bool := (cut? pat.toList s.toList).isSome

/-! Digits of all scripts: ten in a row from each zero, and those that no numeral is written with. -/

/-- The zeros of the decimal digits. -/
def zeros : List Nat :=
  [0x30, 0x660, 0x6F0, 0x7C0, 0x966, 0x9E6, 0xA66, 0xAE6, 0xB66, 0xBE6, 0xC66, 0xCE6, 0xD66, 0xDE6,
   0xE50, 0xED0, 0xF20, 0x1040, 0x1090, 0x17E0, 0x1810, 0x1946, 0x19D0, 0x1A80, 0x1A90, 0x1B50,
   0x1BB0, 0x1C40, 0x1C50, 0xA620, 0xA8D0, 0xA900, 0xA9D0, 0xA9F0, 0xAA50, 0xABF0, 0xFF10, 0x104A0,
   0x10D30, 0x11066, 0x110F0, 0x11136, 0x111D0, 0x112F0, 0x11450, 0x114D0, 0x11650, 0x116C0,
   0x11730, 0x118E0, 0x11950, 0x11C50, 0x11D50, 0x11DA0, 0x16A60, 0x16AC0, 0x16B50, 0x1D7CE,
   0x1D7D8, 0x1D7E2, 0x1D7EC, 0x1D7F6, 0x1E140, 0x1E2F0, 0x1E950, 0x1FBF0]

/-- Superscripts, digits in circles and the like. -/
def figureRanges : Ranges :=
  [(0xB2, 0xB3), (0xB9, 0xB9), (0x1369, 0x1371), (0x19DA, 0x19DA), (0x2070, 0x2070),
   (0x2074, 0x2079), (0x2080, 0x2089), (0x2460, 0x2468), (0x2474, 0x247C), (0x2488, 0x2490),
   (0x24EA, 0x24EA), (0x24F5, 0x24FD), (0x24FF, 0x24FF), (0x2776, 0x277E), (0x2780, 0x2788),
   (0x278A, 0x2792), (0x10A40, 0x10A43), (0x10E60, 0x10E68), (0x11052, 0x1105A),
   (0x1F100, 0x1F10A)]

def digitOf? (c : Char) : Option Nat :=
  (zeros.find? fun z => z ≤ c.toNat && c.toNat < z + 10).map fun z => c.toNat - z

def isFigure (c : Char) : Bool := (digitOf? c).isSome || figureRanges.has c.toNat

/-- A decimal digit of any script as the same one of ASCII; other characters stay. -/
def asciiDigit (c : Char) : Char := ((digitOf? c).map fun d => Char.ofNat (0x30 + d)).getD c

end Flowline.Text
