import Flowline.Data.Value
import Flowline.Decimal.Notation

/-! Values as JSON text, on one line or indented by two blanks per level. -/
namespace Flowline.Json

def hexDigit (n : Nat) : Char :=
  if n < 10 then Char.ofNat (48 + n) else Char.ofNat (87 + n)

/-- A character inside a quoted text. -/
def escapeChar (c : Char) : List Char :=
  if c = '"' then ['\\', '"']
  else if c = '\\' then ['\\', '\\']
  else if c = '\n' then ['\\', 'n']
  else if c = '\r' then ['\\', 'r']
  else if c = '\t' then ['\\', 't']
  else if c.toNat = 8 then ['\\', 'b']
  else if c.toNat = 12 then ['\\', 'f']
  else if c.toNat < 32 then
    ['\\', 'u', '0', '0', hexDigit (c.toNat / 16), hexDigit (c.toNat % 16)]
  else [c]

def quoteChars (s : List Char) : List Char := '"' :: s.flatMap escapeChar ++ ['"']

def quote (s : String) : String := String.ofList (quoteChars s.toList)

def number (x : Float) : String :=
  if x.isFinite then Decimal.Notation.document.render x else "null"

mutual

/-- Text without any blanks. -/
def compact : Value → String
  | .null => "null"
  | .bool b => if b then "true" else "false"
  | .int n => toString n
  | .float x => number x
  | .str s => quote s
  | .list xs => "[" ++ compactItems xs ++ "]"
  | .map fs => "\x7b" ++ compactFields fs ++ "\x7d"

def compactItems : List Value → String
  | [] => ""
  | [v] => compact v
  | v :: rest => compact v ++ "," ++ compactItems rest

def compactFields : List (String × Value) → String
  | [] => ""
  | [(k, v)] => quote k ++ ":" ++ compact v
  | (k, v) :: rest => quote k ++ ":" ++ compact v ++ "," ++ compactFields rest

end

def indent (level : Nat) : String := String.ofList (List.replicate (2 * level) ' ')

mutual

/-- Indented text: one line per item and per field. -/
def prettyAt (level : Nat) : Value → String
  | .list [] => "[]"
  | .list xs => "[\n" ++ prettyItems level xs ++ "\n" ++ indent level ++ "]"
  | .map [] => "\x7b\x7d"
  | .map fs => "\x7b\n" ++ prettyFields level fs ++ "\n" ++ indent level ++ "\x7d"
  | .null => "null"
  | .bool b => if b then "true" else "false"
  | .int n => toString n
  | .float x => number x
  | .str s => quote s

def prettyItems (level : Nat) : List Value → String
  | [] => ""
  | [v] => indent (level + 1) ++ prettyAt (level + 1) v
  | v :: rest => indent (level + 1) ++ prettyAt (level + 1) v ++ ",\n" ++ prettyItems level rest

def prettyFields (level : Nat) : List (String × Value) → String
  | [] => ""
  | [(k, v)] => indent (level + 1) ++ quote k ++ ": " ++ prettyAt (level + 1) v
  | (k, v) :: rest =>
    indent (level + 1) ++ quote k ++ ": " ++ prettyAt (level + 1) v ++ ",\n"
      ++ prettyFields level rest

end

def pretty (v : Value) : String := prettyAt 0 v

end Flowline.Json
