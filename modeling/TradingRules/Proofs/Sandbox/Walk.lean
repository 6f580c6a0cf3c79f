/-
# The walk of a tree and its first fault

A tree is walked along the members that hold a node and along the items of the members that hold a
list of nodes. The walk is described here on its own, by the paths from the root, and compared with
the check of the structure: a tree passes exactly when no node on the walk is at fault, and otherwise
the fault is that of the first such node, where a node comes before all that is below it.
-/
import Mathlib.Tactic.ByContra
import Mathlib.Tactic.FinCases
import Mathlib.Tactic.Push
import Mathlib.Tactic.SplitIfs
import TradingRules.Sandbox.Structure

namespace TradingRules.Sandbox

/-! ## Paths -/

/-- A way down from a node: a member that holds a node, or an item of a member that holds a list. -/
inductive Branch where
  | left
  | right
  | expression
  | condition
  | rules (place : Nat)
  | actions (place : Nat)
  | conditions (place : Nat)
deriving DecidableEq, Repr

namespace Branch

/-- The item at a place of the list under a member. -/
def item? (node : Json) (name : String) (place : Nat) : Option Json := do
  let items ← (← node.member? name).items?
  items[place]?

/-- The node to which a branch leads, if there is one. -/
def child? (node : Json) : Branch → Option Json
  | .left => node.member? "left"
  | .right => node.member? "right"
  | .expression => node.member? "expression"
  | .condition => node.member? "condition"
  | .rules place => item? node "rules" place
  | .actions place => item? node "actions" place
  | .conditions place => item? node "conditions" place

/-- The place of a branch among all branches: that of its member, then that of the item. -/
def rank : Branch → Nat × Nat
  | .left => (0, 0)
  | .right => (1, 0)
  | .expression => (2, 0)
  | .condition => (3, 0)
  | .rules place => (4, place)
  | .actions place => (5, place)
  | .conditions place => (6, place)

/-- Whether a branch is walked before another one of the same node. -/
def Before (b b' : Branch) : Prop :=
  b.rank.1 < b'.rank.1 ∨ b.rank.1 = b'.rank.1 ∧ b.rank.2 < b'.rank.2

end Branch

/-- A node is reached from a root by following a path; the length of the path is its depth. -/
inductive NodeAt : Json → List Branch → Json → Prop where
  | root (node : Json) : NodeAt node [] node
  | down {node child target : Json} {b : Branch} {path : List Branch} :
      b.child? node = some child → NodeAt child path target → NodeAt node (b :: path) target

/-- The order of the walk: a node before those below it, and what is below one branch before what is
below a later one. -/
inductive Precedes : List Branch → List Branch → Prop where
  | above (b : Branch) (path : List Branch) : Precedes [] (b :: path)
  | beside {b b' : Branch} (h : b.Before b') (path path' : List Branch) :
      Precedes (b :: path) (b' :: path')
  | within (b : Branch) {path path' : List Branch} (h : Precedes path path') :
      Precedes (b :: path) (b :: path')

/-- What a node is at fault with: its depth, or else a tag that is not allowed. -/
inductive Offends (maxDepth depth : Nat) (node : Json) : Error → Prop where
  | tooDeep : maxDepth < depth → Offends maxDepth depth node (.maxDepthExceeded maxDepth)
  | unknownTag {tag : String} : depth ≤ maxDepth → node.member? "type" = some (.string tag) →
      tag ∉ allowedTags → Offends maxDepth depth node (.disallowedOperation tag)
  | oddTag {value : Json} : depth ≤ maxDepth → node.member? "type" = some value →
      (∀ tag, value ≠ .string tag) → Offends maxDepth depth node (.disallowedOperation value.compact)

/-! ### A path has one end, a node one fault, and the order is strict -/

/-- A path leads to one node. -/
theorem NodeAt.unique {node target target' : Json} {path : List Branch}
    (h : NodeAt node path target) (h' : NodeAt node path target') : target = target' := by
  induction h with
  | root node =>
    cases h'
    rfl
  | down hb _ ih =>
    cases h' with
    | down hb' hbelow =>
      rw [hb] at hb'
      cases hb'
      exact ih hbelow

/-- The branch taken before another one is not taken after it. -/
theorem Branch.Before.asymm {b b' : Branch} (h : b.Before b') : ¬ b'.Before b := by
  unfold Branch.Before at *
  omega

/-- Of two paths at most one precedes the other. -/
theorem Precedes.asymm {path path' : List Branch} (h : Precedes path path') :
    ¬ Precedes path' path := by
  induction h with
  | above b path =>
    intro h'
    cases h'
  | beside h path path' =>
    intro h'
    cases h' with
    | beside h' => exact h.asymm h'
    | within => exact h.asymm h
  | within b _ ih =>
    intro h'
    cases h' with
    | beside h' => exact h'.asymm h'
    | within _ h' => exact ih h'

/-- The check of a single node finds what it is at fault with. -/
theorem nodeFault?_eq_some_iff {maxDepth depth : Nat} {node : Json} {e : Error} :
    nodeFault? maxDepth depth node = some e ↔ Offends maxDepth depth node e := by
  unfold nodeFault?
  by_cases hdepth : maxDepth < depth
  · rw [if_pos hdepth, Option.some_inj]
    constructor
    · rintro rfl
      exact .tooDeep hdepth
    · rintro (⟨_⟩ | ⟨hle, _⟩ | ⟨hle, _⟩)
      · rfl
      · omega
      · omega
  · rw [if_neg hdepth]
    have hle : depth ≤ maxDepth := Nat.le_of_not_lt hdepth
    unfold tagFault?
    constructor
    · intro h
      split at h
      · cases h
      · rename_i tag htag
        split_ifs at h with hallowed
        cases h
        exact .unknownTag hle htag hallowed
      · rename_i value hodd hvalue
        cases h
        exact .oddTag hle hvalue hodd
    · rintro (hlt | ⟨_, htag, hallowed⟩ | ⟨_, hvalue, hodd⟩)
      · exact absurd hlt hdepth
      · simp only [htag, if_neg hallowed]
      · rw [hvalue]
        split
        · rename_i h
          cases h
        · rename_i tag h
          cases h
          exact absurd rfl (hodd tag)
        · rename_i value _ h
          cases h
          rfl

/-- A node is at fault with one thing. -/
theorem Offends.unique {maxDepth depth : Nat} {node : Json} {e e' : Error}
    (h : Offends maxDepth depth node e) (h' : Offends maxDepth depth node e') : e = e' := by
  rw [← nodeFault?_eq_some_iff] at h h'
  exact Option.some.inj (h.symm.trans h')

/-- A node within the depth limit is at no fault exactly if it has no tag or an allowed one. -/
theorem not_offends_iff {maxDepth depth : Nat} {node : Json} :
    (∀ e, ¬ Offends maxDepth depth node e) ↔
      depth ≤ maxDepth ∧ (node.member? "type" = none ∨
        ∃ tag ∈ allowedTags, node.member? "type" = some (.string tag)) := by
  constructor
  · intro h
    have hle : depth ≤ maxDepth := Nat.le_of_not_lt fun hlt => h _ (.tooDeep hlt)
    refine ⟨hle, ?_⟩
    cases hvalue : node.member? "type" with
    | none => exact Or.inl rfl
    | some value =>
      right
      by_cases hodd : ∀ tag, value ≠ .string tag
      · exact absurd (.oddTag hle hvalue hodd) (h _)
      · push Not at hodd
        obtain ⟨tag, rfl⟩ := hodd
        refine ⟨tag, ?_, rfl⟩
        by_contra hallowed
        exact h _ (.unknownTag hle hvalue hallowed)
  · rintro ⟨hle, htype⟩ e (hlt | ⟨_, hvalue, hallowed⟩ | ⟨_, hvalue, hodd⟩)
    · omega
    · rcases htype with hnone | ⟨tag, hmem, htag⟩
      · rw [hnone] at hvalue
        cases hvalue
      · rw [htag] at hvalue
        cases hvalue
        exact hallowed hmem
    · rcases htype with hnone | ⟨tag, hmem, htag⟩
      · rw [hnone] at hvalue
        cases hvalue
      · rw [htag] at hvalue
        cases hvalue
        exact hodd tag rfl

/-! ## The branches of a node in their order -/

/-- The branches into the list under a member, with the nodes to which they lead. -/
def listBranches (node : Json) (name : String) (branch : Nat → Branch) : List (Branch × Json) :=
  (listedChildren node name).zipIdx.map fun (child, place) => (branch place, child)

/-- The branches of a node that lead along members holding a node. -/
def memberBranches (node : Json) : List (Branch × Json) :=
  [Branch.left, .right, .expression, .condition].filterMap fun b => (b.child? node).map (b, ·)

/-- The branches of a node with the nodes to which they lead, in the order of the walk. -/
def branches (node : Json) : List (Branch × Json) :=
  memberBranches node ++ listBranches node "rules" .rules ++ listBranches node "actions" .actions ++
    listBranches node "conditions" .conditions

/-- A member that holds a node is a branch with at most one node below it. -/
theorem listedChildren_getElem? (node : Json) (name : String) (place : Nat) :
    (listedChildren node name)[place]? = Branch.item? node name place := by
  unfold listedChildren Branch.item?
  split
  · rename_i items hitems
    rw [hitems]
    rfl
  · rename_i hother
    cases hvalue : node.member? name with
    | none => rfl
    | some value =>
      cases value with
      | array items => exact absurd hvalue (hother items)
      | _ => rfl

theorem map_snd_listBranches (node : Json) (name : String) (branch : Nat → Branch) :
    (listBranches node name branch).map Prod.snd = listedChildren node name := by
  rw [listBranches, List.map_map]
  show (listedChildren node name).zipIdx.map Prod.fst = _
  rw [List.zipIdx_map_fst]

/-- The branches lead to the children, in their order. -/
theorem map_snd_branches (node : Json) : (branches node).map Prod.snd = children node := by
  have hmembers : (memberBranches node).map Prod.snd = childNames.filterMap node.member? := by
    rw [memberBranches, List.map_filterMap]
    simp [childNames, Branch.child?, List.filterMap_cons, Function.comp_def]
  rw [branches, children, List.map_append, List.map_append, List.map_append, hmembers]
  simp only [map_snd_listBranches, childListNames, List.flatMap_cons, List.flatMap_nil,
    List.append_assoc, List.append_nil]

/-- A branch into a list is listed with the item to which it leads. -/
theorem mem_listBranches {node child : Json} {name : String} {branch : Nat → Branch} {b : Branch} :
    (b, child) ∈ listBranches node name branch ↔
      ∃ place, b = branch place ∧ Branch.item? node name place = some child := by
  rw [listBranches, List.mem_map]
  constructor
  · rintro ⟨⟨item, place⟩, hmem, heq⟩
    cases heq
    rw [List.mem_zipIdx_iff_getElem?, listedChildren_getElem?] at hmem
    exact ⟨place, rfl, hmem⟩
  · rintro ⟨place, rfl, hitem⟩
    refine ⟨(child, place), ?_, rfl⟩
    rw [List.mem_zipIdx_iff_getElem?, listedChildren_getElem?]
    exact hitem

/-- A branch is listed with the node to which it leads, if there is one. -/
theorem mem_branches {node child : Json} {b : Branch} :
    (b, child) ∈ branches node ↔ b.child? node = some child := by
  rw [branches, memberBranches]
  simp only [List.mem_append, mem_listBranches]
  cases b <;> simp [Branch.child?]

/-- The branches into a list ascend if the places do. -/
theorem pairwise_listBranches (node : Json) (name : String) {branch : Nat → Branch}
    (hbranch : ∀ i j, i < j → (branch i).Before (branch j)) :
    (listBranches node name branch).Pairwise fun x y => x.1.Before y.1 := by
  rw [listBranches, List.pairwise_map]
  have hplaces : (listedChildren node name).zipIdx.Pairwise fun x y => x.2 < y.2 := by
    rw [← List.pairwise_map (f := Prod.snd) (R := (· < ·)), List.zipIdx_map_snd]
    exact List.pairwise_lt_range'
  exact hplaces.imp fun h => hbranch _ _ h

/-- Branches along members that hold a node come first. -/
theorem rank_memberBranches {node : Json} {x : Branch × Json} (h : x ∈ memberBranches node) :
    x.1.rank.1 < 4 := by
  rw [memberBranches, List.mem_filterMap] at h
  obtain ⟨b, hb, hx⟩ := h
  rw [Option.map_eq_some_iff] at hx
  obtain ⟨child, -, rfl⟩ := hx
  show b.rank.1 < 4
  fin_cases hb <;> decide

/-- All branches into the list under one member have the same first rank. -/
theorem rank_listBranches {node : Json} {name : String} {branch : Nat → Branch} {n : Nat}
    (hbranch : ∀ i, (branch i).rank.1 = n) {x : Branch × Json}
    (h : x ∈ listBranches node name branch) : x.1.rank.1 = n := by
  obtain ⟨place, hx, -⟩ := mem_listBranches.mp h
  rw [hx]
  exact hbranch place

/-- The branches are listed in the order of the walk. -/
theorem pairwise_branches (node : Json) :
    (branches node).Pairwise fun x y => x.1.Before y.1 := by
  have hmembers : (memberBranches node).Pairwise fun x y => x.1.Before y.1 := by
    rw [memberBranches, List.pairwise_filterMap]
    simp [Branch.Before, Branch.rank]
  have hlist (name : String) {branch : Nat → Branch} {n : Nat}
      (hbranch : ∀ i, (branch i).rank = (n, i)) :
      (listBranches node name branch).Pairwise fun x y => x.1.Before y.1 :=
    pairwise_listBranches node name fun i j hij => Or.inr (by simp [hbranch, hij])
  have hrules {x} (h : x ∈ listBranches node "rules" .rules) : x.1.rank.1 = 4 :=
    rank_listBranches (n := 4) (fun _ => rfl) h
  have hactions {x} (h : x ∈ listBranches node "actions" .actions) : x.1.rank.1 = 5 :=
    rank_listBranches (n := 5) (fun _ => rfl) h
  have hconditions {x} (h : x ∈ listBranches node "conditions" .conditions) : x.1.rank.1 = 6 :=
    rank_listBranches (n := 6) (fun _ => rfl) h
  rw [branches, List.pairwise_append, List.pairwise_append, List.pairwise_append]
  refine ⟨⟨⟨hmembers, hlist _ fun _ => rfl, ?_⟩, hlist _ fun _ => rfl, ?_⟩, hlist _ fun _ => rfl, ?_⟩
  · intro x hx y hy
    have := rank_memberBranches hx
    have := hrules hy
    exact Or.inl (by omega)
  · intro x hx y hy
    have := hactions hy
    rcases List.mem_append.mp hx with hx | hx
    · have := rank_memberBranches hx
      exact Or.inl (by omega)
    · have := hrules hx
      exact Or.inl (by omega)
  · intro x hx y hy
    have := hconditions hy
    simp only [List.mem_append] at hx
    rcases hx with (hx | hx) | hx
    · have := rank_memberBranches hx
      exact Or.inl (by omega)
    · have := hrules hx
      exact Or.inl (by omega)
    · have := hactions hx
      exact Or.inl (by omega)

/-! ## The walk finds the first fault -/

/-- A fault is the first one of a tree: some node on the walk is at fault with it, and every other
node at fault comes later. The root is at the given depth. -/
def IsFirstFault (maxDepth depth : Nat) (root : Json) (fault : Error) : Prop :=
  ∃ path node, NodeAt root path node ∧ Offends maxDepth (depth + path.length) node fault ∧
    ∀ path' node' fault', NodeAt root path' node' →
      Offends maxDepth (depth + path'.length) node' fault' → path' = path ∨ Precedes path path'

/-- A tree whose root is at fault has its first fault there. -/
theorem IsFirstFault.root {maxDepth depth : Nat} {root : Json} {fault : Error}
    (h : Offends maxDepth depth root fault) : IsFirstFault maxDepth depth root fault := by
  refine ⟨[], root, .root root, h, ?_⟩
  intro path' node' fault' _ _
  cases path' with
  | nil => exact Or.inl rfl
  | cons b path' => exact Or.inr (.above b path')

/-- If a root is at no fault, and neither is anything below its earlier branches, its first fault is
that below the next branch. -/
theorem IsFirstFault.down {maxDepth depth : Nat} {root child : Json} {fault : Error}
    {b : Branch} {front back : List (Branch × Json)}
    (hroot : ∀ e, ¬ Offends maxDepth depth root e)
    (hbranches : branches root = front ++ (b, child) :: back)
    (hfront : ∀ x ∈ front, ∀ path node e, NodeAt x.2 path node →
      ¬ Offends maxDepth (depth + 1 + path.length) node e)
    (h : IsFirstFault maxDepth (depth + 1) child fault) :
    IsFirstFault maxDepth depth root fault := by
  have hchild : b.child? root = some child := by
    rw [← mem_branches, hbranches]
    exact List.mem_append_right _ List.mem_cons_self
  obtain ⟨path, node, hnode, hoffends, hfirst⟩ := h
  refine ⟨b :: path, node, .down hchild hnode, ?_, ?_⟩
  · rw [List.length_cons, Nat.add_comm path.length, ← Nat.add_assoc]
    exact hoffends
  · intro path' node' fault' hnode' hoffends'
    cases hnode' with
    | root => exact absurd hoffends' (hroot fault')
    | @down _ child' _ b' tail hchild' htail =>
      rw [List.length_cons, Nat.add_comm tail.length, ← Nat.add_assoc] at hoffends'
      -- the other branch is an earlier one, this one, or a later one
      have hmem := mem_branches.mpr hchild'
      rw [hbranches, List.mem_append, List.mem_cons] at hmem
      rcases hmem with hearlier | hsame | hlater
      · exact absurd hoffends' (hfront _ hearlier tail node' fault' htail)
      · cases hsame
        rcases hfirst tail node' fault' htail hoffends' with rfl | hprecedes
        · exact Or.inl rfl
        · exact Or.inr (.within b hprecedes)
      · have hpairwise := pairwise_branches root
        rw [hbranches, List.pairwise_append, List.pairwise_cons] at hpairwise
        exact Or.inr (.beside (hpairwise.2.1.1 _ hlater) path tail)

/-- A tree without a fault at its root and below its branches has none. -/
theorem not_offends_of_branches {maxDepth depth : Nat} {root : Json}
    (hroot : ∀ e, ¬ Offends maxDepth depth root e)
    (hbelow : ∀ x ∈ branches root, ∀ path node e, NodeAt x.2 path node →
      ¬ Offends maxDepth (depth + 1 + path.length) node e)
    (path : List Branch) (node : Json) (e : Error) (hnode : NodeAt root path node) :
    ¬ Offends maxDepth (depth + path.length) node e := by
  cases hnode with
  | root => exact hroot e
  | @down _ child _ b tail hchild htail =>
    rw [List.length_cons, Nat.add_comm tail.length, ← Nat.add_assoc]
    exact hbelow _ (mem_branches.mpr hchild) tail node e htail

/-- The check of a root that is at no fault goes on with its branches. -/
theorem structureFault?_of_root {maxDepth depth : Nat} {root : Json}
    (h : nodeFault? maxDepth depth root = none) :
    structureFault? maxDepth depth root =
      (branches root).findSome? fun x => structureFault? maxDepth (depth + 1) x.2 := by
  rw [structureFault?, h]
  show (children root).attach.findSome? _ = _
  rw [List.findSome?_subtype (g := structureFault? maxDepth (depth + 1)) fun _ _ => rfl,
    List.unattach_attach, ← map_snd_branches, List.findSome?_map]
  rfl

/-- The walk finds the first fault of a tree, or nothing if no node is at fault. -/
theorem structureFault?_spec (maxDepth depth : Nat) (root : Json) :
    match structureFault? maxDepth depth root with
    | some fault => IsFirstFault maxDepth depth root fault
    | none => ∀ path node e, NodeAt root path node →
        ¬ Offends maxDepth (depth + path.length) node e := by
  induction depth, root using structureFault?.induct maxDepth with
  | case1 depth root fault hfault =>
    rw [structureFault?, hfault]
    exact .root (nodeFault?_eq_some_iff.mp hfault)
  | case2 depth root hsound ih =>
    have hroot : ∀ e, ¬ Offends maxDepth depth root e := by
      intro e h
      rw [← nodeFault?_eq_some_iff, hsound] at h
      cases h
    -- what the walk says below a branch is what it says of the child as a root
    have hbranch : ∀ x ∈ branches root, structureFault? maxDepth (depth + 1) x.2 = none →
        ∀ path node e, NodeAt x.2 path node →
          ¬ Offends maxDepth (depth + 1 + path.length) node e := by
      intro x hx hnone
      have := ih x.2 (map_snd_branches root ▸ List.mem_map_of_mem hx)
      rwa [hnone] at this
    rw [structureFault?_of_root hsound]
    split
    · rename_i fault hfault
      obtain ⟨front, x, back, hbranches, hx, hfront⟩ := List.findSome?_eq_some_iff.mp hfault
      have hmem : x ∈ branches root := hbranches ▸ List.mem_append_right _ List.mem_cons_self
      have hfirst := ih x.2 (map_snd_branches root ▸ List.mem_map_of_mem hmem)
      rw [hx] at hfirst
      refine hfirst.down hroot hbranches fun y hy => hbranch y ?_ (hfront y hy)
      exact hbranches ▸ List.mem_append_left _ hy
    · rename_i hnone
      rw [List.findSome?_eq_none_iff] at hnone
      exact not_offends_of_branches hroot fun x hx => hbranch x hx (hnone x hx)

/-- A tree has at most one first fault. -/
theorem IsFirstFault.unique {maxDepth depth : Nat} {root : Json} {fault fault' : Error}
    (h : IsFirstFault maxDepth depth root fault) (h' : IsFirstFault maxDepth depth root fault') :
    fault = fault' := by
  obtain ⟨path, node, hnode, hoffends, hfirst⟩ := h
  obtain ⟨path', node', hnode', hoffends', hfirst'⟩ := h'
  have hpath : path' = path := by
    rcases hfirst path' node' fault' hnode' hoffends' with heq | hprecedes
    · exact heq
    · rcases hfirst' path node fault hnode hoffends with heq | hprecedes'
      · exact heq.symm
      · exact absurd hprecedes' hprecedes.asymm
  subst hpath
  rw [hnode'.unique hnode] at hoffends'
  exact hoffends.unique hoffends'

/-- The fault that the walk finds is the first one of the tree. -/
theorem structureFault?_eq_some_iff {maxDepth depth : Nat} {root : Json} {fault : Error} :
    structureFault? maxDepth depth root = some fault ↔ IsFirstFault maxDepth depth root fault := by
  have hspec := structureFault?_spec maxDepth depth root
  constructor
  · intro h
    rwa [h] at hspec
  · intro h
    cases hfound : structureFault? maxDepth depth root with
    | none =>
      rw [hfound] at hspec
      obtain ⟨path, node, hnode, hoffends, -⟩ := h
      exact absurd hoffends (hspec path node fault hnode)
    | some found =>
      rw [hfound] at hspec
      rw [hspec.unique h]

/-- The walk finds nothing exactly if no node on it is at fault. -/
theorem structureFault?_eq_none_iff {maxDepth depth : Nat} {root : Json} :
    structureFault? maxDepth depth root = none ↔
      ∀ path node e, NodeAt root path node → ¬ Offends maxDepth (depth + path.length) node e := by
  have hspec := structureFault?_spec maxDepth depth root
  constructor
  · intro h
    rwa [h] at hspec
  · intro h
    cases hfound : structureFault? maxDepth depth root with
    | none => rfl
    | some found =>
      rw [hfound] at hspec
      obtain ⟨path, node, hnode, hoffends, -⟩ := hspec
      exact absurd hoffends (h path node found hnode)

/-- **The check of the structure is exact.** A tree passes if and only if every node on the walk is
within the depth limit and has no tag or an allowed one; otherwise the error is that of the first
node at fault in the order of the walk, where the depth of a node counts before its tag. -/
theorem checkStructure_exact (maxDepth : Nat) (root : Json) :
    (checkStructure maxDepth root = .ok () ↔
      ∀ path node, NodeAt root path node →
        path.length ≤ maxDepth ∧ (node.member? "type" = none ∨
          ∃ tag ∈ allowedTags, node.member? "type" = some (.string tag))) ∧
    ∀ fault, checkStructure maxDepth root = .error fault ↔
      ∃ path node, NodeAt root path node ∧ Offends maxDepth path.length node fault ∧
        ∀ path' node' fault', NodeAt root path' node' →
          Offends maxDepth path'.length node' fault' → path' = path ∨ Precedes path path' := by
  have hnone : structureFault? maxDepth 0 root = none ↔ _ := structureFault?_eq_none_iff
  have hsome (fault : Error) : structureFault? maxDepth 0 root = some fault ↔ _ :=
    structureFault?_eq_some_iff
  simp only [IsFirstFault, Nat.zero_add] at hnone hsome
  unfold checkStructure
  constructor
  · constructor
    · intro h path node hnode
      split at h
      · cases h
      · rename_i hfound
        exact not_offends_iff.mp fun e => hnone.mp hfound path node e hnode
    · intro h
      rw [hnone.mpr fun path node e hnode => not_offends_iff.mpr (h path node hnode) e]
  · intro fault
    rw [← hsome fault]
    constructor
    · intro h
      split at h
      · rename_i found hfound
        cases h
        exact hfound
      · cases h
    · intro h
      rw [h]

end TradingRules.Sandbox
