import Flowline.Files.Tree
import Flowline.Market.Clock
import Flowline.Market.Fault
import Flowline.Market.Table
import Flowline.Text.Csv

/-! Loads price rows from a dataset: names the columns, keeps what has prices, sorts by time and
cuts a span of time out. -/
namespace Flowline.Market.Loader

def aliases : List (String × String) :=
  [("ts", "timestamp"), ("time", "timestamp"), ("datetime", "timestamp"), ("date", "timestamp"),
   ("o", "open"), ("h", "high"), ("l", "low"), ("c", "close"), ("v", "volume"), ("vol", "volume")]

def timeColumn : String := "timestamp"

def required : List String := timeColumn :: priceColumns

/-- What a column is called in rows. -/
def columnName (header : String) : String :=
  let name := Text.lowerAsciiText (Text.unpadded header)
  (aliases.lookup name).getD name

def datasetPath (params : Fields) (context : Value) (files : Entry) : Except Fault String := do
  let name := field params "dataset"
  if !isTruthy name then throw .datasetRequired
  let shown := Text.shownValue name
  if !(Text.lowerAsciiText shown).endsWith ".csv" then throw (.datasetFormat shown)
  let datasets ← asFields (orElse (context.get? "datasets") (.map []))
  match field datasets shown with
  | .str path => if files.hasFile path then return path else throw (.datasetMissing shown)
  | _ => throw (.datasetMissing shown)

/-- The fields of a record under the headers of the table: a repeated header keeps its first place
and takes its last field, fields without a header are one list at the end. -/
def rawRow (headers fields : List String) : List Value :=
  let named := (headers.zip (fields.map Value.str ++ List.replicate headers.length .null))
  let row := (Fields.ofList named).map (·.2)
  if headers.length < fields.length then row ++ [.strs (fields.drop headers.length)] else row

/-- Rows of a table, each cell under the name of its column. -/
def rowsOf (headers : List String) (records : List (List String)) : List Fields :=
  let names := headers.map columnName
  (records.filter fun r => !r.isEmpty).map fun r => Fields.ofList (names.zip (rawRow headers r))

def readRows (path content : String) : Script (List Fields) := do
  let (headers, records) := match Csv.records content with
    | [] => ([], [])
    | h :: rest => (h, rest)
  let names := headers.map columnName
  let missing := required.filter fun c => !names.contains c
  if !missing.isEmpty then throw (.headersMissing (Text.valueLiteral (.strs missing)))
  let rows := rowsOf headers records
  Script.print s!"Loaded {rows.length} rows from {(Path.segments path).getLast?.getD path}"
  return rows

/-- The time of a row: an integer, or the text. -/
def timeCell (v : Value) : Except Fault Value :=
  match orElse (some v) (.str "") with
  | .str s =>
    let text := Text.unpadded s
    if isIntegral text.toList then (toInt (.str text)).map .int else .ok (.str text)
  | v => .error (.noAttribute (typeName v) "strip")

/-- The row with its numbers, unless it has no time or lacks a price. -/
def standardRow? (row : Fields) : Except Fault (Option Fields) := do
  let time ← timeCell (field row timeColumn)
  let cells := priceColumns.map fun c => (c, cell (number (field row c)))
  let complete := ["open", "high", "low", "close"].all fun c => !(field cells c).isNull
  return if complete && !time.same (.str "") then some ((timeColumn, time) :: cells) else none

def standardize (rows : List Fields) : Except Fault (List Fields) := do
  let kept ← rows.mapM standardRow?
  sortByTime (fun r => field r timeColumn) (kept.filterMap id)

/-- A bound of time; what counts as false is no bound. -/
def bound (v : Value) : Except Fault (Option Stamp) :=
  if isTruthy v then readTime v else .ok none

/-- The row lies between the bounds. -/
def isWithin (lo hi : Option Stamp) (row : Fields) : Except Fault Bool := do
  let time ← readTime (field row timeColumn)
  let early ← if lo.isSome then before time lo else .ok false
  let late ← if !early && hi.isSome then before hi time else .ok false
  return !early && !late

def within (start stop : Value) (rows : List Fields) : Script (List Fields) := do
  let lo ← bound start
  let hi ← bound stop
  let kept ← rows.filterM fun r => (isWithin lo hi r : Except Fault Bool)
  Script.print s!"Date filtered: {kept.length} rows remaining"
  return kept

/-- The columns to select; the time is always one of them. -/
def columns (params : Fields) : Except Fault (List Value) := do
  let given := orElse (Fields.get? params "columns") (.strs required)
  let hasTime ← holds given (.str timeColumn)
  let cs ← elements given
  return if hasTime then cs else .str timeColumn :: cs

/-- The names of known columns. -/
def selected (cs : List Value) : Except Fault (List String) :=
  let isKnown (v : Value) : Bool := required.any fun c => alike v (.str c)
  match cs.filter fun v => !isKnown v with
  | [] => .ok (cs.filterMap Value.asStr?)
  | unknown => .error (.columnsUnknown (Text.valueLiteral (.list unknown)))

def select (names : List String) (row : Fields) : Fields :=
  Fields.ofList (names.map fun c => (c, field row c))

def load (params : Fields) (context : Value) (files : Entry) : Script Value := do
  let path ← datasetPath params context files
  let rows ← readRows path ((files.read path).toOption.getD "")
  let rows ← standardize rows
  let start := field params "start_date"
  let stop := field params "end_date"
  let rows ← if isTruthy start || isTruthy stop then within start stop rows else pure rows
  let names ← selected (← columns params)
  let rows := rows.map (select names)
  return tableValue rows [("symbol", field params "symbol"),
    ("timeframe", field params "timeframe"), ("rows", .ofNat rows.length),
    ("columns", .strs names), ("date_range", ← dateRange rows)]

end Flowline.Market.Loader
