import Flowline.Market.Clock
import Flowline.Market.Coerce
import Flowline.Market.Fault
import Flowline.Market.Indicator
import Flowline.Market.Table

/-! Features: columns derived from prices as a list of wishes says. -/
namespace Flowline.Market

/-! Filling the gaps of columns: from the row before, from the row behind, or with zeros. -/

inductive FillMethod where
  /-- Rows with a gap are left out. -/
  | drop
  | forward
  | backward
  | zeros
deriving DecidableEq, Inhabited

namespace FillMethod

/-- A method that has no name of its own is `zeros`. -/
def ofValue : Value → FillMethod
  | .str "drop" => drop
  | .str "forward" => forward
  | .str "backward" => backward
  | _ => zeros

end FillMethod

def isGap (name : String) (row : Fields) : Bool := (field row name).isNull

/-- Gaps take the last value before them. -/
def carry (name : String) (last : Value) : List Fields → List Fields
  | [] => []
  | row :: rest =>
    if isGap name row then row.insert name last :: carry name last rest
    else row :: carry name (field row name) rest

def fillZeros (name : String) (rows : List Fields) : List Fields :=
  rows.map fun r => if isGap name r then r.insert name (.float 0.0) else r

def fillColumn (method : FillMethod) (rows : List Fields) (name : String) : List Fields :=
  fillZeros name (match method with
    | .forward => carry name .null rows
    | .backward => (carry name .null rows.reverse).reverse
    | _ => rows)

def fill (method : FillMethod) (names : List String) (rows : List Fields) : List Fields :=
  match method with
  | .drop => rows.filter fun r => !names.any fun n => isGap n r
  | method => names.foldl (fillColumn method) rows

/-! Features by their types, and the node that generates them. -/

inductive FeatureType where
  | sma
  | ema
  | rsi
  | macd
  | bollingerBands
  | atr
  | stochastic
  | volumeSma
  | priceChange
  | volatility
deriving DecidableEq, Inhabited

def FeatureType.ofName? : String → Option FeatureType
  | "sma" => some .sma
  | "ema" => some .ema
  | "rsi" => some .rsi
  | "macd" => some .macd
  | "bollinger_bands" => some .bollingerBands
  | "atr" => some .atr
  | "stochastic" => some .stochastic
  | "volume_sma" => some .volumeSma
  | "price_change" => some .priceChange
  | "volatility" => some .volatility
  | _ => none

namespace Feature

/-- The columns that features read, prices first, then earlier features. -/
abbrev Columns := List (String × Column Float)

def put (cols : Columns) (name : String) (c : Column Float) : Columns :=
  (name, c) :: cols.filter fun p => p.1 != name

def get (cols : Columns) (name : String) : Column Float := (cols.lookup name).getD []

def pricesOf (cols : Columns) : Prices Float :=
  ⟨get cols "high", get cols "low", get cols "close", get cols "volume"⟩

def int (spec : Fields) (key : String) (default : Int) : Except Fault Int :=
  toInt (param spec key (.int default))

/-- The columns of a feature. -/
def build (type : FeatureType) (cols : Columns) (source : Column Float) (spec : Fields) :
    Except Fault (Derived Float) := do
  let p := pricesOf cols
  let period (default : Int) := int spec "period" default
  match type with
  | .sma => Indicator.sma (← period 20) source
  | .ema => Indicator.ema (← period 20) source
  | .rsi => Indicator.rsi (← period 14) source
  | .macd =>
    Indicator.macd (int spec "fast_period" 12) (int spec "slow_period" 26)
      (int spec "signal_period" 9) source
  | .bollingerBands =>
    Indicator.bands (← period 20) (← toFloat (param spec "std_dev" (.int 2))) source
  | .atr => Indicator.atr (← period 14) p
  | .stochastic =>
    let k ← toInt (param spec "k_period" (param spec "period" (.int 14)))
    Indicator.stochastic k (← int spec "d_period" 3) p
  | .volumeSma => Indicator.volumeSma (← period 20) p
  | .priceChange => return Indicator.priceChange (← period 1) source
  | .volatility => Indicator.volatility (← period 20) source p

/-- The name of a feature: the given one, or its type, with the period if there is one. -/
def baseName (spec : Fields) (type : String) : Except Fault String :=
  match orElse (Fields.get? spec "name") .null with
  | .str name => .ok name
  | .null => .ok (match field spec "period" with
    | .null => type
    | period => s!"{type}_{Text.shownValue period}")
  | v => .error (.notExtended (typeName v))

/-- Rows in the making, with the names of the columns that were added. -/
structure Work where
  rows : List Fields
  cols : Columns
  added : List String := []

def Work.add (w : Work) (name : String) (c : Column Float) : Work :=
  ⟨setNumbers w.rows name c, put w.cols name c, w.added ++ [name]⟩

/-- The column that a feature reads. -/
def sourceOf (cols : Columns) (spec : Fields) (type : String) : Except Fault (Column Float) := do
  let wanted := param spec "column" (.str "close")
  match ← asKey wanted with
  | .str name => match cols.lookup name with
    | some c => return c
    | none => throw (.featureColumn type name)
  | _ => throw (.featureColumn type (Text.shownValue wanted))

/-- Adds one feature; a feature of an unknown type only gives a warning. -/
def addFeature (w : Work) (spec : Value) : Script Work := do
  let spec ← asFields spec
  let type := field spec "type"
  let name := Text.shownValue (← asKey type)
  match type.asStr?.bind FeatureType.ofName? with
  | none =>
    Script.print s!"Warning: unknown feature type: {Text.shownValue type}"
    return w
  | some t =>
    let derived ← build t w.cols (← sourceOf w.cols spec name) spec
    let base ← baseName spec name
    return derived.foldl (fun w (ending, c) => w.add (base ++ ending) c) w

def generate (params inputs : Fields) : Script Value := do
  let wishes := field params "features"
  if !isTruthy wishes then throw .featuresRequired
  let source ← match ← prices? (tables inputs) with
    | some rows => pure rows
    | none => throw .noPrices
  let rows ← (source.mapM toRow : Except Fault (List Fields))
  let given := Fields.keys (rows.head?.getD [])
  let cols : Columns := given.map fun name => (name, numbers rows name)
  Script.print s!"Generating features from {rows.length} rows"
  let w ← (← elements wishes).foldlM addFeature { rows, cols }
  let method := FillMethod.ofValue (param params "fill_na_method" (.str "forward"))
  let rows := fill method w.added w.rows
  Script.print s!"Generated {w.added.length} feature columns"
  return tableValue rows [("original_columns", .ofNat given.length),
    ("total_columns", .ofNat (given.length + w.added.length)),
    ("features_added", .ofNat w.added.length), ("feature_names", .strs w.added),
    ("rows", .ofNat rows.length), ("date_range", ← dateRange rows)]

end Feature

end Flowline.Market
