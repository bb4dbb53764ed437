import Flowline.Toml.Table
import Flowline.Json.Reader
import Flowline.Time.Calendar

/-! TOML scalars: texts in four quotings, integers, floats, dates and times. The first characters
decide what is read, so a reader that stops has found the fault. -/
namespace Flowline.Toml

/-- Answers a value and the rest of the text, or the rest at which reading stops. -/
abbrev Reader (α : Type) := List Char → Except (List Char) (α × List Char)

def isSpace (c : Char) : Bool := c = ' ' || c = '\t'

/-- A character that may stand in comments and texts. -/
def isPrintable (c : Char) : Bool := c = '\t' || (32 ≤ c.toNat && c.toNat != 127)

def newLine? : List Char → Option (List Char)
  | '\n' :: r => some r
  | '\r' :: '\n' :: r => some r
  | _ => none

/-! ### Texts -/

def escape? : Char → Option Char
  | 'b' => some (Char.ofNat 8)
  | 't' => some '\t'
  | 'n' => some '\n'
  | 'f' => some (Char.ofNat 12)
  | 'r' => some '\r'
  | '"' => some '"'
  | '\\' => some '\\'
  | _ => none

/-- The character named by the hexadecimal digits. -/
def codePoint? (ds : List Char) : Option Char := do
  let n ← ds.foldlM (fun n c => (Json.hexValue? c).map (16 * n + ·)) 0
  if n.isValidChar then some (Char.ofNat n) else none

/-- A character by exactly `n` hexadecimal digits. -/
def hexEscape (n : Nat) : Reader Char := fun s =>
  let ds := s.take n
  match if ds.length = n then codePoint? ds else none with
  | some c => .ok (c, s.drop n)
  | none => .error s

/-- An escape after its backslash. -/
def escaped : Reader Char
  | 'u' :: r => hexEscape 4 r
  | 'U' :: r => hexEscape 8 r
  | c :: r => match escape? c with
    | some e => .ok (e, r)
    | none => .error r
  | [] => .error []

/-- The rest of a text in double quotes on one line. -/
def basicBody : Nat → List Char → Reader String
  | 0, _, s => .error s
  | fuel + 1, acc, s =>
    match s with
    | '"' :: r => .ok (String.ofList acc.reverse, r)
    | '\\' :: r => do
      let (c, r) ← escaped r
      basicBody fuel (c :: acc) r
    | c :: r => if isPrintable c then basicBody fuel (c :: acc) r else .error s
    | [] => .error s

/-- The rest of a text in single quotes on one line: no escapes. -/
def literalBody : Reader String := fun s =>
  let text := s.takeWhile fun c => c != '\'' && isPrintable c
  match s.drop text.length with
  | '\'' :: r => .ok (String.ofList text, r)
  | r => .error r

/-- Closing quotes of a text over several lines; up to two more quotes belong to the text. -/
def closing? (q : Char) (s : List Char) : Option (List Char × List Char) :=
  let n := (s.takeWhile (· == q)).length
  if n < 3 then none
  else
    let inside := min (n - 3) 2
    some (List.replicate inside q, s.drop (inside + 3))

/-- Drops blanks and line ends. -/
def skipMargin : List Char → List Char
  | '\r' :: '\n' :: r => skipMargin r
  | c :: r => if isSpace c || c = '\n' then skipMargin r else c :: r
  | [] => []

/-- Blanks and at least one line end after a backslash, and all blanks and line ends that follow. -/
def joined? (s : List Char) : Option (List Char) :=
  (newLine? (s.dropWhile isSpace)).map skipMargin

/-- The rest of a text over several lines; escapes count in double quotes only. -/
def multiBody (q : Char) : Nat → List Char → Reader String
  | 0, _, s => .error s
  | fuel + 1, acc, s =>
    match closing? q s with
    | some (more, r) => .ok (String.ofList (acc.reverse ++ more), r)
    | none => match newLine? s with
      | some r => multiBody q fuel ('\n' :: acc) r
      | none => match s with
        | [] => .error s
        | c :: r =>
          if c = '\\' && q = '"' then
            match joined? r with
            | some r => multiBody q fuel acc r
            | none => do
              let (e, r) ← escaped r
              multiBody q fuel (e :: acc) r
          else if isPrintable c then multiBody q fuel (c :: acc) r
          else .error s

/-- A line end directly after the opening quotes is dropped. -/
def multiText (q : Char) : Reader String := fun s => multiBody q (s.length + 1) [] ((newLine? s).getD s)

def text : Reader String
  | '"' :: '"' :: '"' :: r => multiText '"' r
  | '\'' :: '\'' :: '\'' :: r => multiText '\'' r
  | '"' :: r => basicBody (r.length + 1) [] r
  | '\'' :: r => literalBody r
  | s => .error s

/-- A certain character. -/
def mark (p : Char → Bool) : List Char → Except (List Char) (List Char)
  | c :: r => if p c then .ok r else .error (c :: r)
  | [] => .error []

/-- A certain word. -/
def word (w : String) (s : List Char) : Except (List Char) (List Char) :=
  if w.toList.isPrefixOf s then .ok (s.drop w.length) else .error s

/-! ### Numbers -/

/-- Further digits, with single underscores between them. -/
def moreDigits (isDigit : Char → Bool) (acc : List Char) : Reader (List Char)
  | '_' :: c :: r => if isDigit c then moreDigits isDigit (c :: acc) r else .error (c :: r)
  | ['_'] => .error []
  | c :: r => if isDigit c then moreDigits isDigit (c :: acc) r else .ok (acc.reverse, c :: r)
  | [] => .ok (acc.reverse, [])

def digits (isDigit : Char → Bool) : Reader (List Char)
  | c :: r => if isDigit c then moreDigits isDigit [c] r else .error (c :: r)
  | [] => .error []

def isHex (c : Char) : Bool := (Json.hexValue? c).isSome
def isOctal (c : Char) : Bool := '0' ≤ c && c ≤ '7'
def isBinary (c : Char) : Bool := c = '0' || c = '1'

def ofDigits (base : Nat) (ds : List Char) : Nat :=
  ds.foldl (fun n c => base * n + (Json.hexValue? c).getD 0) 0

def sign : List Char → Bool × List Char
  | '-' :: r => (true, r)
  | '+' :: r => (false, r)
  | r => (false, r)

/-- Decimal digits without a leading zero. -/
def whole : Reader (List Char)
  | '0' :: r => .ok (['0'], r)
  | r => digits Char.isDigit r

/-- The digits after a point, if there is one. -/
def fraction : Reader (Option (List Char))
  | '.' :: r => do
    let (ds, r) ← digits Char.isDigit r
    return (some ds, r)
  | s => .ok (none, s)

/-- The exponent, if there is one. -/
def exponent : Reader (Option Int)
  | 'e' :: r | 'E' :: r => do
    let (neg, r) := sign r
    let (ds, r) ← digits Char.isDigit r
    let n : Int := min (Decimal.natOfDigits ds) 1000000
    return (some (if neg then -n else n), r)
  | s => .ok (none, s)

/-- An integer has to fit 64 bits with a sign; a fault is reported at `stop`. -/
def integer (n : Int) (stop rest : List Char) : Except (List Char) (Datum × List Char) :=
  if Value.minInt ≤ n ∧ n ≤ Value.maxSigned then .ok (.int n, rest) else .error stop

/-- The number after its sign: a fraction or an exponent makes it a float. A float may be too small
but not too large. -/
def decimal (neg : Bool) : Reader Datum := fun s => do
  let (ds, s) ← whole s
  let (frac, s) ← fraction s
  let (exp, s) ← exponent s
  if frac.isNone && exp.isNone then
    let n : Int := Decimal.natOfDigits ds
    integer (if neg then -n else n) s s
  else
    let places := frac.getD []
    let x := Decimal.toFloat neg (Decimal.natOfDigits (ds ++ places)) (exp.getD 0 - places.length)
    if x.isFinite || neg then return (.float x, s) else throw s

/-- An integer of another base takes no sign. -/
def based (base : Nat) (isDigit : Char → Bool) (start : List Char) : Reader Datum := fun s => do
  let (ds, r) ← digits isDigit s
  integer (ofDigits base ds) start r

def number : Reader Datum := fun s =>
  match s with
  | '0' :: 'x' :: r => based 16 isHex s r
  | '0' :: 'o' :: r => based 8 isOctal s r
  | '0' :: 'b' :: r => based 2 isBinary s r
  | _ =>
    let (neg, r) := sign s
    match word "inf" r, word "nan" r with
    | .ok r, _ => .ok (.float (if neg then -(1.0 / 0.0) else 1.0 / 0.0), r)
    | _, .ok r => .ok (.float (0.0 / 0.0), r)
    | _, _ => decimal neg r

/-! ### Dates and times -/

/-- Exactly `n` digits whose value is within bounds. -/
def field (n lo hi : Nat) : Reader (List Char) := fun s =>
  let ds := s.take n
  let v := Decimal.natOfDigits ds
  if ds.length = n && ds.all Char.isDigit && lo ≤ v && v ≤ hi then .ok (ds, s.drop n) else .error s

/-- Four digits and a dash start a date. -/
def startsDate (s : List Char) : Bool :=
  match field 4 0 9999 s with
  | .ok (_, '-' :: _) => true
  | _ => false

/-- An hour and a colon start a time. -/
def startsTime (s : List Char) : Bool :=
  match field 2 0 23 s with
  | .ok (_, ':' :: _) => true
  | _ => false

def date : Reader (List Char) := fun s => do
  let (y, s) ← field 4 0 9999 s
  let s ← mark (· = '-') s
  let (m, s) ← field 2 1 12 s
  let s ← mark (· = '-') s
  let (d, r) ← field 2 1 31 s
  if Decimal.natOfDigits d ≤ Date.daysIn (Decimal.natOfDigits y) (Decimal.natOfDigits m) then
    return (y ++ '-' :: m ++ '-' :: d, r)
  else throw s

/-- A time; of its fraction nine digits count, and zeros at their end are dropped. -/
def time : Reader (List Char) := fun s => do
  let (h, s) ← field 2 0 23 s
  let s ← mark (· = ':') s
  let (m, s) ← field 2 0 59 s
  let s ← mark (· = ':') s
  let (sec, s) ← field 2 0 60 s
  let base := h ++ ':' :: m ++ ':' :: sec
  match s with
  | '.' :: r =>
    match Decimal.spanDigits r with
    | ([], _) => return (base, s)
    | (ds, r) =>
      let frac := ((ds.take 9).reverse.dropWhile (· == '0')).reverse
      return (if frac.isEmpty then base else base ++ '.' :: frac, r)
  | _ => return (base, s)

/-- The offset of a time, if it has one. -/
def offset : Reader (List Char)
  | 'Z' :: r | 'z' :: r => .ok (['Z'], r)
  | c :: r => do
    if c != '+' && c != '-' then return ([], c :: r)
    let (h, r) ← field 2 0 23 r
    let r ← mark (· = ':') r
    let (m, r) ← field 2 0 59 r
    return (c :: h ++ ':' :: m, r)
  | [] => .ok ([], [])

/-- A date with or without a time. -/
def dated : Reader (List Char) := fun s => do
  let (d, s) ← date s
  match s with
  | c :: r =>
    if (c = 'T' || c = 't' || c = ' ') && startsTime r then
      let (t, r) ← time r
      let (o, r) ← offset r
      return (d ++ 'T' :: t ++ o, r)
    else return (d, s)
  | [] => return (d, s)

/-- A scalar value. -/
def scalar : Reader Datum := fun s => do
  match s with
  | '"' :: _ | '\'' :: _ =>
    let (t, r) ← text s
    return (.str t, r)
  | 't' :: _ => return (.bool true, ← word "true" s)
  | 'f' :: _ => return (.bool false, ← word "false" s)
  | _ =>
    if startsDate s || startsTime s then
      let (t, r) ← if startsDate s then dated s else time s
      return (.moment (String.ofList t), r)
    else number s

end Flowline.Toml
