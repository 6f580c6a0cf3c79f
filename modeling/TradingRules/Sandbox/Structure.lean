/-
# The structure of a tree

A tree in JSON is walked from its root along the members that hold nodes and lists of nodes. Every
node has to be within the depth limit, and the tag of every object that has one must be known. The
first node that is at fault decides, in the order of the walk: a node before what is below it.
-/
import TradingRules.Json.Print
import TradingRules.Sandbox.Error

namespace TradingRules.Sandbox

/-- The tags that nodes may have. -/
def allowedTags : List String :=
  ["and", "or", "comparison", "function", "tweet.contains", "token.volume", "price", "rsi", "sma",
    "ema", "literal", "buy", "sell"]

/-- The members that hold a node. -/
def childNames : List String := ["left", "right", "expression", "condition"]

/-- The members that hold a list of nodes. -/
def childListNames : List String := ["rules", "actions", "conditions"]

/-- The nodes of a list under a member. -/
def listedChildren (node : Json) (name : String) : List Json :=
  match node.member? name with
  | some (.array items) => items
  | _ => []

/-- The nodes right below a node, in the order of the walk. -/
def children (node : Json) : List Json :=
  childNames.filterMap node.member? ++ childListNames.flatMap (listedChildren node)

/-- What is wrong with the tag of a node. -/
def tagFault? (node : Json) : Option Error :=
  match node.member? "type" with
  | none => none
  | some (.string tag) => if tag ∈ allowedTags then none else some (.disallowedOperation tag)
  | some other => some (.disallowedOperation other.compact)

/-- What is wrong with a node itself. -/
def nodeFault? (maxDepth depth : Nat) (node : Json) : Option Error :=
  if maxDepth < depth then some (.maxDepthExceeded maxDepth) else tagFault? node

/-! ## Children are smaller -/

theorem mem_of_lookup_eq_some {β : Type} {name : String} {members : List (String × β)} {value : β}
    (h : members.lookup name = some value) : (name, value) ∈ members := by
  obtain ⟨front, back, rfl, _⟩ := List.lookup_eq_some_iff.mp h
  simp

theorem sizeOf_member?_lt {node value : Json} {name : String} (h : node.member? name = some value) :
    sizeOf value < sizeOf node := by
  unfold Json.member? at h
  split at h
  · rename_i members
    have := List.sizeOf_lt_of_mem (mem_of_lookup_eq_some h)
    simp only [Prod.mk.sizeOf_spec, Json.object.sizeOf_spec] at this ⊢
    omega
  · cases h

theorem sizeOf_lt_of_mem_listedChildren {node child : Json} {name : String}
    (h : child ∈ listedChildren node name) : sizeOf child < sizeOf node := by
  unfold listedChildren at h
  split at h
  · rename_i items hm
    have := sizeOf_member?_lt hm
    have := List.sizeOf_lt_of_mem h
    simp only [Json.array.sizeOf_spec] at *
    omega
  · cases h

theorem sizeOf_lt_of_mem_children {node child : Json} (h : child ∈ children node) :
    sizeOf child < sizeOf node := by
  rcases List.mem_append.mp h with h | h
  · obtain ⟨_, _, hm⟩ := List.mem_filterMap.mp h
    exact sizeOf_member?_lt hm
  · obtain ⟨_, _, hm⟩ := List.mem_flatMap.mp h
    exact sizeOf_lt_of_mem_listedChildren hm

/-! ## The walk -/

/-- The first fault in a tree whose root is at the given depth. -/
def structureFault? (maxDepth depth : Nat) (node : Json) : Option Error :=
  match nodeFault? maxDepth depth node with
  | some fault => some fault
  | none =>
    (children node).attach.findSome? fun ⟨child, _⟩ => structureFault? maxDepth (depth + 1) child
termination_by sizeOf node
decreasing_by exact sizeOf_lt_of_mem_children ‹_›

/-- Refuses a tree with a fault. -/
def checkStructure (maxDepth : Nat) (root : Json) : Except Error Unit :=
  match structureFault? maxDepth 0 root with
  | some fault => .error fault
  | none => .ok ()

end TradingRules.Sandbox
