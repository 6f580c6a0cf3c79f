/-
# Price files

A price file holds comma-separated records. The first is a heading, and each of the others begins
with a date, a price and a volume. Every record must have as many fields as the heading. Records are
checked one after the other, and the fields of a record in their order.
-/
import TradingRules.Market.Basic
import TradingRules.Market.Error
import TradingRules.Text.Blank

namespace TradingRules

/-- The field in a given place, trimmed. -/
def Csv.Record.column (r : Csv.Record) (place : Nat) (name : String) :
    Except Market.Error (List Char) :=
  match r.fields[place]? with
  | some field => .ok (Text.trim field.toList)
  | none => .error (.missingColumn name)

/-- The number in a given place. -/
def Csv.Record.number (r : Csv.Record) (place : Nat) (name : String) :
    Except Market.Error Float := do
  (Decimal.read (← r.column place name)).mapError (.invalidNumber name)

/-- The date in the first place. -/
def Csv.Record.date (r : Csv.Record) : Except Market.Error Date := do
  (Date.read (← r.column 0 "date")).mapError .invalidDate

/-- Reads a record. -/
def Observation.ofRecord (r : Csv.Record) : Except Market.Error Observation := do
  let date ← r.date
  let price ← r.number 1 "price"
  let volume ← r.number 2 "volume"
  return ⟨date, price, volume⟩

/-- Reads records, each with the given number of fields. -/
def Observation.ofRecords (width : Nat) : List Csv.Record → Except Market.Error (List Observation)
  | [] => .ok []
  | r :: rest => do
    (r.checkWidth width).mapError .unequalWidth
    let observation ← Observation.ofRecord r
    let observations ← Observation.ofRecords width rest
    return observation :: observations

/-- The market of a price file. -/
def Market.ofPriceFile (text : String) : Except Market.Error Market :=
  match Csv.records text.toList with
  | [] => .ok {}
  | heading :: rest => do
    return .ofObservations (← Observation.ofRecords heading.fields.length rest)

end TradingRules
