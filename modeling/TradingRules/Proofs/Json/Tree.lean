/-
# The tree of what is written

A pretty text is built into a tree again that has the shape of the value that was written, with the
numeral of every number in its place: nothing breaks off, and nothing is left behind the value. The
builder is followed from where it waits for a value to where it has placed it.
-/
import TradingRules.Json.Tree
import TradingRules.Proofs.Json.Token

namespace TradingRules.Json

/-! ## The tree of a value -/

mutual

/-- The tree of the text of a value. -/
def tree : Json → Tree
  | .null => .null
  | .bool b => .bool b
  | .number n => .number n.numeral
  | .string s => .string (some s)
  | .array items => .array (itemTrees items) .closed
  | .object members => .object (memberTrees members) .closed
termination_by structural j => j

/-- The trees of items. -/
def itemTrees : List Json → List Tree
  | [] => []
  | item :: rest => item.tree :: itemTrees rest
termination_by structural items => items

/-- The trees of members. -/
def memberTrees : List (String × Json) → List (Option String × Tree)
  | [] => []
  | (name, value) :: rest => (some name, value.tree) :: memberTrees rest
termination_by structural members => members

end

/-! ## Following the builder -/

/-- How far a text brings the builder. -/
def Progress.through (p : Progress) (text : List Char) : Progress :=
  (tokens text).foldl Progress.step p

theorem document_eq (text : List Char) :
    document text = ((Progress.value []).through text).finish :=
  rfl

theorem Progress.through_nil (p : Progress) : p.through [] = p := by
  rw [through, tokens, List.foldl_nil]

/-- The builder goes on with the token that a text begins with. -/
theorem Progress.through_token (p : Progress) {text after : List Char} {t : Token}
    (h : tokens text = t :: tokens after) : p.through text = (p.step t).through after := by
  rw [through, h, List.foldl_cons, through]

/-- The builder goes on with a mark. -/
theorem Progress.through_mark (p : Progress) {c : Char} {t : Token} (hblank : isJsonBlank c = false)
    (hscan : ∀ rest, scanToken c rest = (t, rest)) (after : List Char) :
    p.through (c :: after) = (p.step t).through after := by
  refine p.through_token ?_
  rw [tokens_cons hblank, hscan]

/-- The start of a line does not bring the builder any further. -/
theorem Progress.through_newLine (p : Progress) (level : Nat) (after : List Char) :
    p.through (newLine level after) = p.through after := by
  rw [through, tokens_newLine, through]

/-- The builder waits for a value; it may also take the end of a list. -/
def Progress.Awaits (p : Progress) (outer : List Frame) : Prop :=
  ∀ t, t ≠ .closeArray → p.step t = startValue outer t

theorem Progress.awaits_value (outer : List Frame) : (Progress.value outer).Awaits outer :=
  fun _ _ => rfl

theorem Progress.awaits_firstItem (outer : List Frame) :
    (Progress.firstItem outer).Awaits (.item [] :: outer) := by
  intro t ht
  rw [step, if_neg ht]

/-- The builder waits for the name of a member, behind other members. -/
def Progress.AwaitsName (p : Progress) (before : List (Option String × Tree))
    (outer : List Frame) : Prop :=
  ∀ name, p.step (.string name) = .colon before name outer

/-- A name and its colon bring the builder to the value. -/
theorem Progress.AwaitsName.through {p : Progress} {before : List (Option String × Tree)}
    {outer : List Frame} (h : p.AwaitsName before outer) (level : Nat) (name : String)
    (after : List Char) :
    p.through (newLine level (writeString name (':' :: ' ' :: after))) =
      (Progress.value (.member before (some name) :: outer)).through after := by
  have hblank : tokens (' ' :: after) = tokens after := tokens_blank rfl after
  rw [through_newLine, p.through_token (tokens_writeString name _), h,
    through_mark _ rfl (fun _ => rfl), Progress.through, hblank]
  rfl

/-! ## What follows a value -/

theorem endsNumeral_newLine (level : Nat) (after : List Char) :
    EndsNumeral (newLine level after) :=
  EndsNumeral.cons (by decide) _

/-- An item is followed by a comma, or by what follows the items. -/
theorem endsNumeral_prettyItems (level : Nat) (items : List Json) {after : List Char}
    (h : EndsNumeral after) : EndsNumeral (prettyItems level false items after) := by
  cases items with
  | nil => exact h
  | cons item rest => exact EndsNumeral.cons (by decide) _

/-- A member is followed by a comma, or by what follows the members. -/
theorem endsNumeral_prettyMembers (level : Nat) (members : List (String × Json))
    {after : List Char} (h : EndsNumeral after) :
    EndsNumeral (prettyMembers level false members after) := by
  cases members with
  | nil => exact h
  | cons member rest => exact EndsNumeral.cons (by decide) _

/-! ## Values, items and members -/

mutual

/-- The text of a value brings the builder to where its tree is placed. -/
theorem through_writePretty (level : Nat) (j : Json) {p : Progress} {outer : List Frame}
    (hp : p.Awaits outer) {after : List Char} (hafter : EndsNumeral after) :
    p.through (writePretty level j after) = (place j.tree outer).through after := by
  match j with
  | .null =>
    show p.through ("null".toList ++ after) = _
    rw [p.through_token (tokens_null after), hp _ (by decide)]
    rfl
  | .bool true =>
    show p.through ("true".toList ++ after) = _
    rw [p.through_token (tokens_true after), hp _ (by decide)]
    rfl
  | .bool false =>
    show p.through ("false".toList ++ after) = _
    rw [p.through_token (tokens_false after), hp _ (by decide)]
    rfl
  | .number n =>
    show p.through (n.text ++ after) = _
    rw [p.through_token (tokens_number n hafter), hp _ (by simp)]
    rfl
  | .string s =>
    show p.through (writeString s after) = _
    rw [p.through_token (tokens_writeString s after), hp _ (by simp)]
    rfl
  | .array [] =>
    show p.through ('[' :: ']' :: after) = _
    rw [p.through_mark rfl (fun _ => rfl), hp _ (by decide),
      Progress.through_mark _ rfl (fun _ => rfl)]
    rfl
  | .array (item :: rest) =>
    have hend : EndsNumeral (newLine level (']' :: after)) := endsNumeral_newLine _ _
    show p.through ('[' :: newLine (level + 1) (writePretty (level + 1) item
      (prettyItems (level + 1) false rest (newLine level (']' :: after))))) = _
    rw [p.through_mark rfl (fun _ => rfl), hp _ (by decide)]
    -- the first item is taken by a builder that would also take the end of the list
    show (Progress.firstItem outer).through _ = _
    rw [Progress.through_newLine, through_writePretty (level + 1) item
      (Progress.awaits_firstItem outer) (endsNumeral_prettyItems _ rest hend)]
    show (Progress.afterItem [item.tree] outer).through _ = _
    rw [through_prettyItems (level + 1) rest _ _ hend, Progress.through_newLine,
      Progress.through_mark _ rfl (fun _ => rfl)]
    -- the builder has kept the items latest first
    show (place (.array ((itemTrees rest).reverse ++ [item.tree]).reverse .closed) outer).through
      after = _
    rw [List.reverse_append, List.reverse_reverse]
    rfl
  | .object [] =>
    show p.through ('\x7b' :: '\x7d' :: after) = _
    rw [p.through_mark rfl (fun _ => rfl), hp _ (by decide),
      Progress.through_mark _ rfl (fun _ => rfl)]
    rfl
  | .object ((name, value) :: rest) =>
    have hend : EndsNumeral (newLine level ('\x7d' :: after)) := endsNumeral_newLine _ _
    have hname : (Progress.firstName outer).AwaitsName [] outer := fun _ => rfl
    show p.through ('\x7b' :: newLine (level + 1) (writeString name (':' :: ' ' ::
      writePretty (level + 1) value
        (prettyMembers (level + 1) false rest (newLine level ('\x7d' :: after)))))) = _
    rw [p.through_mark rfl (fun _ => rfl), hp _ (by decide)]
    show (Progress.firstName outer).through _ = _
    rw [hname.through, through_writePretty (level + 1) value (Progress.awaits_value _)
      (endsNumeral_prettyMembers _ rest hend)]
    show (Progress.afterMember [(some name, value.tree)] outer).through _ = _
    rw [through_prettyMembers (level + 1) rest _ _ hend, Progress.through_newLine,
      Progress.through_mark _ rfl (fun _ => rfl)]
    show (place (.object ((memberTrees rest).reverse ++ [(some name, value.tree)]).reverse .closed)
      outer).through after = _
    rw [List.reverse_append, List.reverse_reverse]
    rfl
termination_by structural j

/-- The text of further items brings the builder behind them. -/
theorem through_prettyItems (level : Nat) (items : List Json) (before : List Tree)
    (outer : List Frame) {after : List Char} (hafter : EndsNumeral after) :
    (Progress.afterItem before outer).through (prettyItems level false items after) =
      (Progress.afterItem ((itemTrees items).reverse ++ before) outer).through after := by
  match items with
  | [] => rfl
  | item :: rest =>
    show (Progress.afterItem before outer).through (',' :: newLine level _) = _
    rw [Progress.through_mark _ rfl (fun _ => rfl), Progress.through_newLine]
    show (Progress.value (.item before :: outer)).through _ = _
    rw [through_writePretty level item (Progress.awaits_value _)
      (endsNumeral_prettyItems level rest hafter)]
    show (Progress.afterItem (item.tree :: before) outer).through _ = _
    rw [through_prettyItems level rest _ _ hafter, itemTrees, List.reverse_cons,
      List.append_assoc, List.singleton_append]
termination_by structural items

/-- The text of further members brings the builder behind them. -/
theorem through_prettyMembers (level : Nat) (members : List (String × Json))
    (before : List (Option String × Tree)) (outer : List Frame) {after : List Char}
    (hafter : EndsNumeral after) :
    (Progress.afterMember before outer).through (prettyMembers level false members after) =
      (Progress.afterMember ((memberTrees members).reverse ++ before) outer).through after := by
  match members with
  | [] => rfl
  | (name, value) :: rest =>
    have hname : (Progress.nextName before outer).AwaitsName before outer := fun _ => rfl
    show (Progress.afterMember before outer).through (',' :: newLine level _) = _
    rw [Progress.through_mark _ rfl (fun _ => rfl)]
    show (Progress.nextName before outer).through _ = _
    rw [hname.through, through_writePretty level value (Progress.awaits_value _)
      (endsNumeral_prettyMembers level rest hafter)]
    show (Progress.afterMember ((some name, value.tree) :: before) outer).through _ = _
    rw [through_prettyMembers level rest _ _ hafter, memberTrees, List.reverse_cons,
      List.append_assoc, List.singleton_append]
termination_by structural members

end

/-- The pretty text of a value is built into its tree, with nothing behind it. -/
theorem document_pretty (j : Json) : document j.pretty.toList = ⟨j.tree, false⟩ := by
  rw [document_eq, pretty, String.toList_ofList,
    through_writePretty 0 j (Progress.awaits_value []) EndsNumeral.nil, Progress.through_nil]
  rfl

end TradingRules.Json
