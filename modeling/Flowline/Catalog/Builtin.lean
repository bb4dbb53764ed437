import Flowline.Catalog.Rule
import Flowline.Text.Blank

/-! The node types of the platform. -/
namespace Flowline.Builtin

def ohlcvColumns : List String := ["timestamp", "open", "high", "low", "close", "volume"]
def indicators : List String := ["SMA", "EMA", "RSI", "MACD", "BB"]
def timeframes : List String := ["1m", "5m", "15m", "30m", "1h", "4h", "1d", "1w"]

def labelingMethods : List String :=
  ["future_returns", "crossover", "threshold", "pattern", "rsi_signals", "bollinger_signals",
    "macd_signals", "multi_class"]

def aggregateOps : List String := ["sum", "mean", "min", "max", "count", "first", "last"]
def fillMethods : List String := ["forward", "backward", "drop", "zero"]

def defaultFastPeriod : Int := 20
def defaultSlowPeriod : Int := 50
def defaultSignalColumn : String := "signal"
def maxScriptInputs : Nat := 8

def text? (params : Fields) (key : String) : Option String := (params.get? key).bind Value.asStr?

def int (params : Fields) (key : String) (default : Int) : Int :=
  ((params.get? key).bind Value.asInt?).getD default

/-- The texts in a list; other items are passed over. -/
def texts? (params : Fields) (key : String) : Option (List String) :=
  ((params.get? key).bind Value.asList?).map (·.filterMap Value.asStr?)

def items (params : Fields) (key : String) : List Value :=
  ((params.get? key).bind Value.asList?).getD []

/-! ### Output columns -/

def inlineOutput (params : Fields) : Schema :=
  match texts? params "columns" with
  | some columns => ⟨.dataframe, columns, false, false⟩
  | none => match (items params "rows").head? with
    | some (.map row) => ⟨.dataframe, Fields.keys row, false, false⟩
    | _ => ⟨.dataframe, [], false, false⟩

def loaderOutput (params : Fields) : Schema :=
  ⟨.dataframe, (texts? params "columns").getD ohlcvColumns, false, false⟩

/-- The columns an indicator adds, in order. -/
def indicatorOutputColumns (params : Fields) : List String :=
  let period := int params "period" 14
  match (text? params "indicator").getD "SMA" with
  | "EMA" => [s!"EMA_{period}"]
  | "RSI" => [s!"RSI_{period}"]
  | "MACD" => ["MACD", "MACD_Signal", "MACD_Histogram"]
  | "BB" => [s!"BB_Middle_{period}", s!"BB_Upper_{period}", s!"BB_Lower_{period}",
      s!"BB_Percent_{period}"]
  | _ => [s!"SMA_{period}"]

def indicatorOutput (params : Fields) : Schema :=
  ⟨.dataframe, indicatorOutputColumns params, true, false⟩

def signalColumn (params : Fields) : String :=
  (text? params "signal_column").getD defaultSignalColumn

def crossoverOutput (params : Fields) : Schema :=
  ⟨.signals, [signalColumn params, "position"], true, false⟩

/-- The column that a feature adds. -/
def featureColumn? (feature : Value) : Option String :=
  match (feature.get? "name").bind Value.asStr? with
  | some name => some name
  | none => ((feature.get? "type").bind Value.asStr?).map fun kind =>
    match (feature.get? "period").bind Value.asInt? with
    | some period => s!"{kind}_{period}"
    | none => kind

def featureOutput (params : Fields) : Schema :=
  ⟨.dataframe, (items params "features").filterMap featureColumn?, true, false⟩

/-- The column that an aggregation yields. -/
def aggregationColumn? (aggregation : Value) : Option String :=
  match (aggregation.get? "as").bind Value.asStr? with
  | some column => some column
  | none => ((aggregation.get? "op").bind Value.asStr?).map fun op =>
    match (aggregation.get? "column").bind Value.asStr? with
    | some column => s!"{column}_{op}"
    | none => op

def aggregateOutput (params : Fields) : Schema :=
  ⟨.dataframe, (text? params "group_by").toList
    ++ (items params "aggregations").filterMap aggregationColumn?, false, false⟩

def labelingOutput : Schema := ⟨.dataframe, ["label", "signal"], true, false⟩

def backtestOutput : Schema := ⟨.backtestResults, ["metrics", "trades", "equity_curve"], false, false⟩

def scriptOutput (params : Fields) : Schema :=
  let shape := ((text? params "output_shape").bind Shape.ofName?).getD .any
  match texts? params "output_columns" with
  | some columns => ⟨shape, columns, false, false⟩
  | none => .unknown shape

/-! ### Required input columns -/

def indicatorColumns (params : Fields) : List String := [(text? params "column").getD "close"]

def crossoverColumns (params : Fields) : List String :=
  "timestamp" :: ["fast_ma_column", "slow_ma_column"].filterMap (text? params)

def backtestColumns (params : Fields) : List String := ["timestamp", "close", signalColumn params]

def aggregateColumns (params : Fields) : List String :=
  distinct ((text? params "group_by").toList
    ++ (items params "aggregations").filterMap fun a => (a.get? "column").bind Value.asStr?)

/-! ### Rules -/

open Rule

def inlineRules : Rule := fun n =>
  textList n "columns" ++ eachItem n "rows" (items n.params "rows") Value.isMap index
    "Each row must be a mapping of column to value"

def loaderRules : Rule := fun n =>
  let csv := whenGiven n "dataset" (n.text? "dataset")
    (fun s => (Text.lowerAsciiText s).endsWith ".csv") fun s => s!"Dataset '{s}' must be a .csv file"
  let dates := match n.text? "start_date", n.text? "end_date" with
    | some start, some stop =>
      if stop < start then
        [conflict n "start_date" s!"start_date ({start}) must not be after end_date ({stop})"]
      else []
    | _, _ => []
  oneOf n "timeframe" timeframes ++ csv ++ dates ++ textList n "columns"

def periodConflict (n : Declaration) (fast slow : Int) : Diagnostic :=
  conflict n "fast_period" s!"fast_period ({fast}) must be less than slow_period ({slow})"

def indicatorRules : Rule := fun n =>
  let fast := (n.int? "fast_period").getD 12
  let slow := (n.int? "slow_period").getD 26
  oneOf n "indicator" indicators ++ intInRange n "period" 1 1000
    ++ intAtLeast n "fast_period" 1 ++ intAtLeast n "slow_period" 1
    ++ intAtLeast n "signal_period" 1 ++ positive n "std_dev"
    ++ (if n.text? "indicator" = some "MACD" ∧ slow ≤ fast then [periodConflict n fast slow] else [])

def crossoverRules : Rule := fun n =>
  let fast := (n.int? "fast_period").getD defaultFastPeriod
  let slow := (n.int? "slow_period").getD defaultSlowPeriod
  let periods := if 0 < fast ∧ 0 < slow ∧ slow ≤ fast then [periodConflict n fast slow] else []
  let together := match (n.param? "fast_ma_column").isSome, (n.param? "slow_ma_column").isSome with
    | true, false => ["slow_ma_column"]
    | false, true => ["fast_ma_column"]
    | _, _ => []
  let thresholds := match n.number? "buy_threshold", n.number? "sell_threshold" with
    | some buy, some sell =>
      if sell > buy then
        [conflict n "sell_threshold"
          s!"sell_threshold ({number sell}) must not exceed buy_threshold ({number buy})"]
      else []
    | _, _ => []
  intAtLeast n "fast_period" 1 ++ intAtLeast n "slow_period" 1
    ++ intAtLeast n "confirmation_periods" 1 ++ periods
    ++ together.map (conflict n · "fast_ma_column and slow_ma_column must be given together")
    ++ thresholds

def featureRules : Rule := fun n =>
  nonEmptyList n "features" ++ intAtLeast n "lookback_period" 1
    ++ oneOf n "fill_na_method" fillMethods
    ++ eachItem n "features" (items n.params "features")
      (fun f => (f.get? "type").any Value.isStr) (fun i => index i ++ ".type")
      "Each feature must be a mapping with a string 'type'"

def forwardRules (n : Declaration) : List Diagnostic :=
  match n.param? "forward_periods" with
  | some (.list periods) =>
    nonEmptyList n "forward_periods"
      ++ eachItem n "forward_periods" periods (fun p => p.asInt?.any (1 ≤ ·)) index
        "Forward periods must be positive integers"
  | some _ => intAtLeast n "forward_periods" 1
  | none => []

def classRules (n : Declaration) : List Diagnostic :=
  match n.param? "class_names" with
  | some (.list names) =>
    let classes := (n.int? "num_classes").getD 3
    if (names.length : Int) = classes then []
    else [conflict n "class_names"
      s!"class_names has {names.length} entries but num_classes is {classes}"]
  | _ => []

def labelingRules : Rule := fun n =>
  let columns := if n.text? "method" = some "crossover" then
      ["fast_column", "slow_column"].filter fun key => (n.text? key).isNone
    else []
  oneOf n "method" labelingMethods ++ positive n "return_threshold"
    ++ intAtLeast n "num_classes" 2 ++ fraction n "stop_loss_pct" false
    ++ fraction n "take_profit_pct" false ++ forwardRules n
    ++ columns.map (fun key => conflict n key s!"crossover labeling requires '{key}'")
    ++ textList n "class_names" ++ classRules n

def backtestRules : Rule := fun n =>
  positive n "initial_capital" ++ nonNegative n "commission" ++ nonNegative n "slippage"
    ++ fraction n "position_size" true ++ intAtLeast n "max_positions" 1

/-- What is wrong with one aggregation on its own. -/
def aggregationFaults (n : Declaration) (place : String) (obj : Fields) : List Diagnostic :=
  let op := (obj.get? "op").bind Value.asStr?
  let opFaults := match op with
    | some op => if aggregateOps.contains op then []
      else [bad n (place ++ ".op")
        s!"Unknown aggregation '{op}', expected one of: {Finding.joined aggregateOps}"]
    | none => [bad n (place ++ ".op") "Aggregation is missing 'op'"]
  opFaults ++ if op ≠ some "count" ∧ !(obj.get? "column").any Value.isStr then
    [bad n (place ++ ".column") "Aggregation is missing 'column'"] else []

/-- Faults of the aggregations from index `i` on; `seen` are the output columns before them. -/
def aggregationsFaults (n : Declaration) : Nat → List String → List Value → List Diagnostic
  | _, _, [] => []
  | i, seen, agg :: rest =>
    let place := "aggregations" ++ index i
    match agg with
    | .map obj =>
      let (repeated, seen) := match aggregationColumn? agg with
        | some name =>
          if seen.contains name then ([conflict n place s!"Duplicate output column '{name}'"], seen)
          else ([], seen ++ [name])
        | none => ([], seen)
      aggregationFaults n place obj ++ repeated ++ aggregationsFaults n (i + 1) seen rest
    | _ => bad n place "Each aggregation must be a mapping" :: aggregationsFaults n (i + 1) seen rest

def aggregateRules : Rule := fun n =>
  nonEmptyList n "aggregations"
    ++ aggregationsFaults n 0 (n.text? "group_by").toList (items n.params "aggregations")

def scriptRules : Rule := fun n =>
  oneOf n "output_shape" (Shape.all.map Shape.name)
    ++ whenGiven n "code" (n.text? "code") (fun c => !Text.allBlank c) (fun _ => "'code' must not be empty")
    ++ textList n "output_columns"

/-! ### Contracts -/

def tabular : List Shape := [.dataframe, .signals]

def specs (kind : ParamKind) (names : List String) : List ParamSpec := names.map (⟨·, kind⟩)

def inlineData : Contract where
  type := "InlineDataNode"
  backend := .builtin
  description := "Emit a dataframe from records embedded in the pipeline"
  required := specs .array ["rows"]
  optional := specs .array ["columns"]
  output := inlineOutput
  rules := [inlineRules]

def dataLoader : Contract where
  type := "DataLoaderNode"
  backend := .python
  description := "Load OHLCV market data from a dataset file"
  required := specs .string ["symbol", "timeframe", "dataset"]
  optional := specs .string ["start_date", "end_date"] ++ specs .array ["columns"]
  output := loaderOutput
  rules := [loaderRules]

def indicator : Contract where
  type := "IndicatorNode"
  backend := .builtin
  description := "Compute a technical indicator column"
  required := specs .string ["indicator"] ++ specs .integer ["period"]
  optional := specs .string ["column"]
    ++ specs .integer ["fast_period", "slow_period", "signal_period"] ++ specs .number ["std_dev"]
  input := ⟨.exactly 1, tabular, indicatorColumns⟩
  output := indicatorOutput
  rules := [indicatorRules]

def crossoverSignal : Contract where
  type := "CrossoverSignalNode"
  backend := .builtin
  description := "Generate buy/sell signals from moving average crossovers"
  optional := specs .integer ["fast_period", "slow_period"]
    ++ specs .string ["signal_column", "fast_ma_column", "slow_ma_column"]
    ++ specs .number ["buy_threshold", "sell_threshold"] ++ specs .integer ["confirmation_periods"]
  input := ⟨.between 1 2, [.dataframe], crossoverColumns⟩
  output := crossoverOutput
  rules := [crossoverRules]

def featureGenerator : Contract where
  type := "FeatureGeneratorNode"
  backend := .python
  description := "Derive model features from OHLCV data"
  required := specs .array ["features"]
  optional := specs .integer ["lookback_period"] ++ specs .string ["fill_na_method"]
  input := ⟨.exactly 1, [.dataframe], fun _ => ["open", "high", "low", "close", "volume"]⟩
  output := featureOutput
  rules := [featureRules]

def labeling : Contract where
  type := "LabelingNode"
  backend := .python
  description := "Attach supervised-learning labels to a dataframe"
  optional := specs .string ["method"] ++ specs .integerOrArray ["forward_periods"]
    ++ specs .number ["return_threshold"] ++ specs .integer ["num_classes"]
    ++ specs .array ["class_names"] ++ specs .string ["fast_column", "slow_column"]
    ++ specs .number ["stop_loss_pct", "take_profit_pct"]
  input := ⟨.exactly 1, [.dataframe], fun _ => ["close"]⟩
  output := fun _ => labelingOutput
  rules := [labelingRules]

def backtest : Contract where
  type := "BacktestNode"
  backend := .python
  description := "Simulate trading on signals and report performance"
  optional := specs .number ["initial_capital", "commission", "slippage", "position_size"]
    ++ specs .integer ["max_positions"] ++ specs .string ["signal_column"]
  input := ⟨.between 1 2, tabular, backtestColumns⟩
  output := fun _ => backtestOutput
  rules := [backtestRules]

def aggregate : Contract where
  type := "AggregateNode"
  backend := .builtin
  description := "Group rows and aggregate columns"
  required := specs .array ["aggregations"]
  optional := specs .string ["group_by"]
  input := ⟨.exactly 1, [.dataframe], aggregateColumns⟩
  output := aggregateOutput
  rules := [aggregateRules]

/-- A type that runs the code in its parameters. -/
def script (type : String) (backend : Backend) (description : String) : Contract where
  type := type
  backend := backend
  description := description
  required := specs .string ["code"]
  optional := specs .string ["output_shape"] ++ specs .array ["output_columns"]
  input := ⟨.between 0 maxScriptInputs, [.any], fun _ => []⟩
  output := scriptOutput
  rules := [scriptRules]

def contracts : List Contract :=
  [inlineData, dataLoader, indicator, crossoverSignal, featureGenerator, labeling, backtest, aggregate,
    script "PythonScriptNode" .python "Run user-authored Python code in the sandbox",
    script "JavaScriptNode" .javaScript "Run user-authored JavaScript code in the sandbox"]

end Flowline.Builtin
