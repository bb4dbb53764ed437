import Flowline.Time.Stamp

/-! Why a market script fails. -/
namespace Flowline.Market

inductive Fault where
  -- values that a script cannot use; most name the type of the value
  | notNumeral (text : String)
  | notReal (type : String)
  | notInteger (text : String)
  | notIntegral (type : String)
  | nanInteger
  | infiniteInteger
  | hugeInteger
  | notHashable (type : String)
  | notIterable (type : String)
  | notSearchable (type : String)
  | notSearched (type : String)
  | noAttribute (type name : String)
  | notIndexed (type : String)
  | notExtended (type : String)
  | notPair (index : Nat)
  | pairLength (index length : Nat)
  | listIndex
  | textIndex
  | noKey (index : Int)
  -- times
  | stamp (fault : StampFault)
  | unordered (left right : String)
  | noStamp
  -- arithmetic
  | quotient
  | emptyMean
  | emptyMinimum
  | emptyMaximum
  | outOfRange
  -- loading
  | datasetRequired
  | datasetFormat (name : String)
  | datasetMissing (name : String)
  | headersMissing (names : String)
  | columnsUnknown (names : String)
  -- features
  | featuresRequired
  | noPrices
  | featureColumn (type column : String)
  -- labels
  | noMethod (method : String)
  | noFrame
  | noRows
  | crossoverColumns
  | noColumn (name : String)
  | noStrength
  | noBands
  | noConvergence
  -- backtests
  | noBars
  | incompleteRows
deriving DecidableEq

namespace Fault

def message : Fault → String
  | notNumeral t => s!"could not convert string to float: {Text.literal t}"
  | notReal type => s!"float() argument must be a string or a real number, not '{type}'"
  | notInteger t => s!"invalid literal for int() with base 10: {Text.literal t}"
  | notIntegral type =>
    s!"int() argument must be a string, a bytes-like object or a real number, not '{type}'"
  | nanInteger => "cannot convert float NaN to integer"
  | infiniteInteger => "cannot convert float infinity to integer"
  | hugeInteger => "int too large to convert to float"
  | notHashable type => s!"unhashable type: '{type}'"
  | notIterable type => s!"'{type}' object is not iterable"
  | notSearchable type => s!"argument of type '{type}' is not iterable"
  | notSearched type => s!"'in <string>' requires string as left operand, not {type}"
  | noAttribute type name => s!"'{type}' object has no attribute '{name}'"
  | notIndexed type => s!"'{type}' object is not subscriptable"
  | notExtended type =>
    if type == "list" then "can only concatenate list (not \"str\") to list"
    else s!"unsupported operand type(s) for +: '{type}' and 'str'"
  | notPair i => s!"cannot convert dictionary update sequence element #{i} to a sequence"
  | pairLength i n => s!"dictionary update sequence element #{i} has length {n}; 2 is required"
  | listIndex => "list index out of range"
  | textIndex => "string index out of range"
  | noKey i => toString i
  | stamp fault => fault.message
  | unordered left right => s!"'<' not supported between instances of '{left}' and '{right}'"
  | noStamp => "'NoneType' object has no attribute 'isoformat'"
  | quotient => "float division by zero"
  | emptyMean => "division by zero"
  | emptyMinimum => "min() arg is an empty sequence"
  | emptyMaximum => "max() arg is an empty sequence"
  | outOfRange => "(34, 'Numerical result out of range')"
  | datasetRequired => "parameter 'dataset' is required"
  | datasetFormat name => s!"Unsupported dataset format: {name}"
  | datasetMissing name => s!"Dataset not found: {name}"
  | headersMissing names => s!"Missing required columns: {names}"
  | columnsUnknown names => s!"Unknown columns requested: {names}"
  | featuresRequired => "parameter 'features' must list at least one feature"
  | noPrices => "No valid OHLCV data found in inputs"
  | featureColumn type column => s!"feature '{type}' reads missing column '{column}'"
  | noMethod method => s!"labeling method '{method}' is not available"
  | noFrame => "No valid dataframe found in inputs"
  | noRows => "input frame has no rows"
  | crossoverColumns => "crossover labeling needs fast_column and slow_column"
  | noColumn name => s!"column '{name}' not found in data"
  | noStrength => "No RSI column found in data for RSI signals"
  | noBands => "No Bollinger Band columns (<name>_upper, _lower, _position) found"
  | noConvergence => "No MACD columns (<name>, _signal, _histogram) found"
  | noBars => "BacktestNode requires a frame with timestamp and close columns"
  | incompleteRows => "frame rows need timestamp and close columns"

end Fault

/-! Scripts: they print lines, and fail or give a result. -/

/-- The lines that were printed stay when a script fails. -/
abbrev Script := ExceptT Fault (StateM (List String))

namespace Script

def print (line : String) : Script Unit := modify (· ++ [line])

instance : MonadLift (Except Fault) Script where
  monadLift e := ExceptT.mk (pure e)

/-- The outcome of a script and the lines that it printed. -/
def outcome (s : Script α) : Except Fault α × List String := (ExceptT.run s).run []

end Script

end Flowline.Market
