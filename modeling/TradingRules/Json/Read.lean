/-
# Reading values out of a tree

A reader walks a tree in the order of the text and stops at the first thing that is wrong. It may
open at most 127 nested lists and objects; what it passes over may nest to any depth, hold numbers
that are out of range and strings that denote no text.
-/
import TradingRules.Json.Tree

namespace TradingRules.Json

/-- How many lists and objects may be open at once. -/
def nestingLimit : Nat := 127

/-- What comes of reading. -/
abbrev Reading (α : Type) := Except ReadError α

/-! ## Passing over -/

/-- Whether the end is as it should be, for a reader who passes over it. -/
def Ending.skip : Ending → Reading Unit
  | .closed => .ok ()
  | .broken b => .error b.skip

/-- Whether the end is as it should be, for a reader who wants what it ends. -/
def Ending.read : Ending → Reading Unit
  | .closed => .ok ()
  | .broken b => .error b.read

mutual

/-- Passes over a value. -/
def Tree.skip : Tree → Reading Unit
  | .null | .bool _ | .number _ | .string _ => .ok ()
  | .array items ending => do skipItems items; ending.skip
  | .object members ending => do skipMembers members; ending.skip
  | .broken b => .error b.skip
termination_by structural t => t

/-- Passes over items. -/
def skipItems : List Tree → Reading Unit
  | [] => .ok ()
  | item :: rest => do item.skip; skipItems rest
termination_by structural items => items

/-- Passes over members. -/
def skipMembers : List (Option String × Tree) → Reading Unit
  | [] => .ok ()
  | (_, value) :: rest => do value.skip; skipMembers rest
termination_by structural members => members

end

/-! ## Reading any value -/

/-- The text of a string that denotes one. -/
def readName : Option String → Reading String
  | some text => .ok text
  | none => .error .malformed

/-- The number that a numeral stands for. -/
def Numeral.read (n : Numeral) : Reading Number :=
  match n.value? with
  | some x => .ok x
  | none => .error .malformed

/-- Opens one more list or object, if there is room for it. -/
def openNested (room : Nat) : Reading Nat :=
  match room with
  | 0 => .error .malformed
  | room + 1 => .ok room

mutual

/-- Reads a value of any shape, with room for a number of nested lists and objects. -/
def Tree.read (room : Nat) : Tree → Reading Json
  | .null => .ok .null
  | .bool b => .ok (.bool b)
  | .number n => return .number (← n.read)
  | .string text => return .string (← readName text)
  | .array items ending => do
    let room ← openNested room
    let items ← readItems room items
    ending.read
    return .array items
  | .object members ending => do
    let room ← openNested room
    let members ← readMembers room members
    ending.read
    return .object members
  | .broken b => .error b.read
termination_by structural t => t

/-- Reads items of any shape. -/
def readItems (room : Nat) : List Tree → Reading (List Json)
  | [] => .ok []
  | item :: rest => do
    let item ← item.read room
    let rest ← readItems room rest
    return item :: rest
termination_by structural items => items

/-- Reads members of any shape. -/
def readMembers (room : Nat) : List (Option String × Tree) → Reading (List (String × Json))
  | [] => .ok []
  | (name, value) :: rest => do
    let name ← readName name
    let value ← value.read room
    let rest ← readMembers room rest
    return (name, value) :: rest
termination_by structural members => members

end

/-! ## Reading a value of a certain shape -/

/-- What is wrong with a value of a shape that is not wanted: a number or a string is looked at
closely before it is refused, a list or an object is not. -/
def Tree.refuse : Tree → ReadError
  | .number n => if n.value?.isNone then .malformed else .mismatch
  | .string none => .malformed
  | .broken b => b.read
  | _ => .mismatch

/-- Reads a text. -/
def Tree.readText : Tree → Reading String
  | .string (some text) => .ok text
  | t => .error t.refuse

/-- Reads a number as one of double precision. -/
def Tree.readFloat : Tree → Reading Float
  | .number n => return (← n.read).toFloat
  | t => .error t.refuse

/-- Reads items one after the other. -/
def readEach {α : Type} (read : Tree → Reading α) : List Tree → Reading (List α)
  | [] => .ok []
  | item :: rest => do
    let item ← read item
    let rest ← readEach read rest
    return item :: rest

/-- Reads a list. -/
def Tree.readList {α : Type} (room : Nat) (read : Nat → Tree → Reading α) : Tree → Reading (List α)
  | .array items ending => do
    let room ← openNested room
    let items ← readEach (read room) items
    ending.read
    return items
  | t => .error t.refuse

/-! ### Records -/

/-- How a record with fields in a fixed order is read: the names of its fields, and how the value of
the field in a given place is stored. -/
structure RecordShape (σ : Type) where
  names : List String
  store : Nat → Nat → σ → Tree → Reading σ

/-- Reads the members of an object into a record. A field may come only once; members that are no
fields are passed over. -/
def RecordShape.members {σ : Type} (shape : RecordShape σ) (room : Nat) (seen : List String)
    (record : σ) : List (Option String × Tree) → Reading σ
  | [] => .ok record
  | (name, value) :: rest => do
    let name ← readName name
    match shape.names.findIdx? (· = name) with
    | none =>
      value.skip
      shape.members room seen record rest
    | some place =>
      if name ∈ seen then .error .mismatch
      else
        let record ← shape.store room place record value
        shape.members room (name :: seen) record rest

/-- Reads items into the fields of a record, in their order, as far as there are items; gives the
record with the items that are left. -/
def RecordShape.items {σ : Type} (shape : RecordShape σ) (room : Nat) (place : Nat) (record : σ) :
    List Tree → Reading (σ × List Tree)
  | [] => .ok (record, [])
  | item :: rest =>
    if place < shape.names.length then do
      let record ← shape.store room place record item
      shape.items room (place + 1) record rest
    else .ok (record, item :: rest)

/-- Reads a record from an object, or from a list that gives its fields in their order. A list must
end where the fields do; whether fields are missing is for `complete` to say. -/
def RecordShape.read {σ α : Type} (shape : RecordShape σ) (start : σ) (complete : σ → Reading α)
    (room : Nat) : Tree → Reading α
  | .object members ending => do
    let room ← openNested room
    let record ← shape.members room [] start members
    ending.read
    complete record
  | .array items ending => do
    let room ← openNested room
    let (record, left) ← shape.items room 0 start items
    if left.isEmpty then ending.read else .error .malformed
    complete record
  | t => .error t.refuse

/-- The value of a field that must be there. -/
def required {α : Type} : Option α → Reading α
  | some value => .ok value
  | none => .error .mismatch

/-! ### Tagged values -/

/-- What a tagged value holds beside its tag. -/
inductive Body where
  | members (members : List (String × Json))
  | items (items : List Json)

/-- Reads a tag: a text that is known. -/
def Tree.readTag {τ : Type} (known : String → Option τ) (t : Tree) : Reading τ := do
  required (known (← t.readText))

/-- Reads the members of a tagged object: exactly one gives the tag, and the others are kept. -/
def readTaggedMembers {τ : Type} (known : String → Option τ) (room : Nat) (tag : Option τ) :
    List (Option String × Tree) → Reading (Option τ × List (String × Json))
  | [] => .ok (tag, [])
  | (name, value) :: rest => do
    let name ← readName name
    if name = "type" then
      if tag.isSome then .error .mismatch
      else
        let tag ← value.readTag known
        readTaggedMembers known room (some tag) rest
    else
      let value ← value.read room
      let (tag, members) ← readTaggedMembers known room tag rest
      return (tag, (name, value) :: members)

/-- Reads a tagged value: an object with a member `type`, or a list that begins with the tag. -/
def Tree.readTagged {τ : Type} (known : String → Option τ) (room : Nat) : Tree → Reading (τ × Body)
  | .object members ending => do
    let room ← openNested room
    let (tag, members) ← readTaggedMembers known room none members
    ending.read
    return (← required tag, .members members)
  | .array [] ending => do
    let _ ← openNested room
    ending.read
    .error .mismatch
  | .array (first :: items) ending => do
    let room ← openNested room
    let tag ← first.readTag known
    let items ← readItems room items
    ending.read
    return (tag, .items items)
  | t => .error t.refuse

/-! ## Whole texts -/

/-- Reads a text as a single value. -/
def readWith {α : Type} (read : Nat → Tree → Reading α) (text : String) : Reading α := do
  let doc := document text.toList
  let value ← read nestingLimit doc.root
  if doc.trailing then .error .malformed else return value

/-- Reads a text as a value of any shape; of several members with one name the last counts. -/
def parse (text : String) : Reading Json :=
  return (← readWith Tree.read text).sorted

end TradingRules.Json
