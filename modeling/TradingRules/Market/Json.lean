/-
# Signals and markets as JSON

Both are objects whose members may be missing; they are also read from lists of the fields in order.
-/
import TradingRules.Market.Basic
import TradingRules.Json.Print
import TradingRules.Json.Read

namespace TradingRules

open Json (Reading)

namespace Signal

/-- A signal as JSON. -/
def toJson (s : Signal) : Json :=
  .object [("text", .string s.text)]

/-- How the fields of a signal are read. -/
def shape : Json.RecordShape Signal where
  names := ["text"]
  store _ _ _ t := return { text := ← t.readText }

/-- The signal of a JSON text. -/
def fromText (text : String) : Reading Signal :=
  Json.readWith (shape.read {} .ok) text

end Signal

namespace Market

/-- A market as JSON. -/
def toJson (m : Market) : Json :=
  .object
    [("price", .ofFloat m.price), ("volume", .ofFloat m.volume),
      ("prices", .array (m.prices.map .ofFloat))]

/-- How the fields of a market are read. -/
def shape : Json.RecordShape Market where
  names := ["price", "volume", "prices"]
  store room place market t :=
    match place with
    | 0 => return { market with price := ← t.readFloat }
    | 1 => return { market with volume := ← t.readFloat }
    | _ => return { market with prices := ← t.readList room fun _ => Json.Tree.readFloat }

/-- The market of a JSON text. -/
def fromText (text : String) : Reading Market :=
  Json.readWith (shape.read {} .ok) text

end Market

end TradingRules
