/-
# Market feeds

A feed lists symbols and gives the market of a symbol. A directory is a feed: each of its entries
whose name ends in `.csv` is the price file of a symbol.
-/
import TradingRules.Market.PriceFile

namespace TradingRules

/-- A source of markets. -/
structure Feed where
  /-- The symbols for which there are markets. -/
  symbols : Except Market.Error (List String)
  /-- The market of a symbol. -/
  market : String → Except Market.Error Market

namespace Feed

/-- The market of a symbol that is listed. -/
def fetch (feed : Feed) (symbol : String) : Except Market.Error Market := do
  let symbols ← feed.symbols
  if symbol ∈ symbols then feed.market symbol
  else .error (.unknownSymbol symbol symbols)

/-! ## Directories -/

/-- What the name of a price file ends in. -/
def extension : List Char := ".csv".toList

/-- The symbol whose price file has the given name. -/
def symbolOf (name : String) : Option String :=
  if extension.isSuffixOf name.toList then
    some (String.ofList (name.toList.take (name.toList.length - extension.length)))
  else none

/-- The name of the price file of a symbol. -/
def fileName (symbol : String) : String :=
  symbol ++ String.ofList extension

/-- The symbols among the entries of a directory, in their order. -/
def symbolsAmong (names : List String) : List String :=
  (names.filterMap symbolOf).mergeSort fun a b => decide (a ≤ b)

/-- The feed of a directory. -/
def ofDirectory (files : FileSystem) (directory : String) : Feed where
  symbols :=
    match files.entries directory with
    | .ok names => .ok (symbolsAmong names)
    | .error e => .error (.unreadableDirectory directory e)
  market symbol :=
    let path := joinPath directory (fileName symbol)
    match files.read path with
    | .ok text => Market.ofPriceFile text
    | .error e => .error (.unreadableFile path e)

end Feed

end TradingRules
