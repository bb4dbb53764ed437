import Flowline.Market.Coerce
import Flowline.Market.Column

/-! The tables among the inputs of a script. -/
namespace Flowline.Market

def tableTypes : List String := ["dataframe", "signals"]

def priceColumns : List String := ["open", "high", "low", "close", "volume"]

def table? : Value → Option (List Value)
  | .map fs => match field fs "type", field fs "data" with
    | .str type, .list rows => if tableTypes.contains type then some rows else none
    | _, _ => none
  | _ => none

def tables (inputs : Fields) : List (List Value) := inputs.filterMap fun f => table? f.2

/-- The first row has all price columns. -/
def hasPrices : List Value → Except Fault Bool
  | [] => .ok false
  | row :: _ => priceColumns.allM fun c => holds row (.str c)

/-- The first table with prices. -/
def prices? (ts : List (List Value)) : Except Fault (Option (List Value)) := ts.findM? hasPrices

def numbers (rows : List Fields) (name : String) : Column Float :=
  rows.map fun r => number (field r name)

def cell : Option Float → Value
  | some x => .float x
  | none => .null

/-- Gives each row its cell of a column. -/
def setCells (rows : List Fields) (name : String) (cells : List Value) : List Fields :=
  rows.zipWith (fun r v => r.insert name v) cells

def setNumbers (rows : List Fields) (name : String) (c : Column Float) : List Fields :=
  setCells rows name (c.map cell)

/-- A table as a script hands it on. -/
def tableValue (rows : List Fields) (metadata : Fields) : Value :=
  .map [("type", .str "dataframe"), ("data", .list (rows.map .map)), ("metadata", .map metadata)]

end Flowline.Market
