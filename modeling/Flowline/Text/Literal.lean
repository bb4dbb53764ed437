import Flowline.Data.Value
import Flowline.Decimal.Notation
import Flowline.Text.Blank

/-! The text of a value in the messages of the market scripts, and the white space that they cut. -/
namespace Flowline.Text

/-- White space and the four information separators. -/
def isPadding (c : Char) : Bool := isBlank c || (0x1C ≤ c.toNat && c.toNat ≤ 0x1F)

def unpadded (s : String) : String := String.ofList (trimChars isPadding s.toList)

/-- Characters without a shape: controls, formats, separators, private ones. -/
def shapelessRanges : Ranges :=
  [(0x00, 0x1F), (0x7F, 0xA0), (0xAD, 0xAD), (0x600, 0x605), (0x61C, 0x61C), (0x6DD, 0x6DD),
   (0x70F, 0x70F), (0x890, 0x891), (0x8E2, 0x8E2), (0x1680, 0x1680), (0x180E, 0x180E),
   (0x2000, 0x200F), (0x2028, 0x202F), (0x205F, 0x206F), (0x3000, 0x3000), (0xE000, 0xF8FF),
   (0xFEFF, 0xFEFF), (0xFFF0, 0xFFFB), (0xFFFE, 0xFFFF), (0x110BD, 0x110BD), (0x110CD, 0x110CD),
   (0x13430, 0x13438), (0x1BCA0, 0x1BCA3), (0x1D173, 0x1D17A), (0xE0000, 0xE00FF),
   (0xE01F0, 0x10FFFF)]

def hexDigits (width n : Nat) : List Char :=
  let ds := Nat.toDigits 16 n
  List.replicate (width - ds.length) '0' ++ ds

/-- One character of a literal. -/
def literalChar (quote c : Char) : List Char :=
  if c == quote || c == '\\' then ['\\', c]
  else if c == '\n' then ['\\', 'n']
  else if c == '\r' then ['\\', 'r']
  else if c == '\t' then ['\\', 't']
  else if !shapelessRanges.has c.toNat then [c]
  else if c.toNat < 0x100 then '\\' :: 'x' :: hexDigits 2 c.toNat
  else if c.toNat < 0x10000 then '\\' :: 'u' :: hexDigits 4 c.toNat
  else '\\' :: 'U' :: hexDigits 8 c.toNat

/-- A text in quotes: double ones only if it has single ones and no double ones. -/
def literal (s : String) : String :=
  let cs := s.toList
  let quote := if cs.contains '\'' && !cs.contains '"' then '"' else '\''
  String.ofList (quote :: cs.flatMap (literalChar quote) ++ [quote])

mutual

/-- The literal of a value. -/
def valueLiteral : Value → String
  | .null => "None"
  | .bool b => if b then "True" else "False"
  | .int n => toString n
  | .float x => Decimal.Notation.script.render x
  | .str s => literal s
  | .list vs => "[" ++ ", ".intercalate (itemLiterals vs) ++ "]"
  | .map fs => "\x7b" ++ ", ".intercalate (fieldLiterals fs) ++ "\x7d"

def itemLiterals : List Value → List String
  | [] => []
  | v :: rest => valueLiteral v :: itemLiterals rest

def fieldLiterals : List (String × Value) → List String
  | [] => []
  | (k, v) :: rest => (literal k ++ ": " ++ valueLiteral v) :: fieldLiterals rest

end

/-- A text as it is, any other value as its literal. -/
def shownValue : Value → String
  | .str s => s
  | v => valueLiteral v

end Flowline.Text
