import Fallback.Proofs.Lowering

/-!
Lowering equals its reference.

`runOn_lower_of_isFree` is about the trees that a parser hands over: rules and tokens are named as
the grammar names them, or by names that mean nothing to the transformer. Lowering such a tree gives
the expression that it describes, or reports that the tree is broken. There is one limit, which is
not that of the evaluation: how deep rules and tokens may be nested is up to the interpreter, and
what is nested deeper is never lowered. What says of itself that it is to be dropped leaves no trace
in either.

`runOn_lower_of_reads` is about all trees. A label or a kind may collide with a name that the
transformer has for something else, and then lowering may fail for another reason than that the
tree is broken, or accept what it should refuse. What the names mean that the transformer has from
its base is up to the interpreter, too.
-/
namespace Fallback

open Attempt

variable {s : Store} {p : Phrase} {v : Value}

/-! ## Trees without collisions -/

/-- The tokens of `x ??? 1`, the rule over them and a group around it. -/
def chainStore : Store :=
  let token (kind text : String) (column : Int) : Token :=
    ⟨text, .str kind 1, .str text 2, [(lineName, .int 1 3), (columnName, .int column 4)]⟩
  { Store.empty with
    tokens := #[token "NAME" "x" 2, token "QQQ" "???" 4, token "NUMBER" "1" 8, token "LPAR" "(" 1,
      token "RPAR" ")" 9]
    trees := #[
      ⟨.str "catch_coalesce" 5, .list [.token ⟨0⟩, .token ⟨1⟩, .token ⟨2⟩] 6, .extent ⟨0⟩, []⟩,
      ⟨.str "group" 7, .list [.token ⟨3⟩, .tree ⟨0⟩, .token ⟨4⟩] 8, .extent ⟨1⟩, []⟩]
    extents := #[[(blankName, .bool false), (lineName, .int 1 3), (columnName, .int 2 4)],
      [(blankName, .bool false), (lineName, .int 1 3), (columnName, .int 1 4)]]
    nextStamp := 9 }

/-- A line and a column as marks. -/
def markAt (line column : Int) : Mark :=
  some [(lineName, .int line 3), (columnName, .int column 4)]

/-- What the group of `chainStore` reads as. -/
def chainPhrase : Phrase :=
  .rule "group" (markAt 1 1)
    [.token "LPAR" "(" (markAt 1 1),
      .rule "catch_coalesce" (markAt 1 2)
        [.token "NAME" "x" (markAt 1 2), .token "QQQ" "???" (markAt 1 4),
          .token "NUMBER" "1" (markAt 1 8)],
      .token "RPAR" ")" (markAt 1 9)]

theorem reads_chainPhrase : chainPhrase.Reads chainStore (.tree ⟨1⟩) := by
  have source (x : ExtentRef)
      (blank : chainStore.attribute? (.extent x) blankName = some (.bool false)) :
      chainStore.Marked (.extent x) (chainStore.mark? (.extent x)) :=
    Store.marked_of_blank rfl blank
  refine ⟨⟨1⟩, _, rfl, rfl, source ⟨1⟩ rfl, rfl, ⟨⟨3⟩, 2, rfl, rfl, rfl, rfl, rfl⟩, ?_,
    ⟨⟨4⟩, 2, rfl, rfl, rfl, rfl, rfl⟩, trivial⟩
  exact ⟨⟨0⟩, _, rfl, rfl, source ⟨0⟩ rfl, rfl, ⟨⟨0⟩, 2, rfl, rfl, rfl, rfl, rfl⟩,
    ⟨⟨1⟩, 2, rfl, rfl, rfl, rfl, rfl⟩, ⟨⟨2⟩, 2, rfl, rfl, rfl, rfl, rfl⟩, trivial⟩

theorem isFree_chainPhrase : chainPhrase.IsFree chainStore.interpreter := by
  intro q hq
  simp only [chainPhrase, Phrase.parts, Phrase.partsOfAll, List.cons_append, List.nil_append,
    List.append_nil, List.mem_cons, List.not_mem_nil, or_false] at hq
  obtain rfl | rfl | rfl | rfl | rfl | rfl | rfl := hq
  · exact .inl ⟨.group, rfl⟩
  · exact .inr rfl
  · exact .inl ⟨.chain .onFault, rfl⟩
  · exact .inl ⟨.name, rfl⟩
  · exact .inr rfl
  · exact .inl ⟨.number, rfl⟩
  · exact .inr rfl

theorem isOrderly_chainStore : chainStore.IsOrderly :=
  nofun

/-- A name in so many groups. -/
def Phrase.nested : Nat → Phrase
  | 0 => .token "NAME" "x" none
  | depth + 1 => .rule "group" none [nested depth]

namespace Phrase

theorem translate_nested (depth : Nat) :
    (nested depth).translate = some (.node (.reference none "x")) := by
  induction depth with
  | zero => rfl
  | succ depth ih =>
    rw [nested, translate, translateAll, ih]
    rfl

theorem isFree_nested (i : Interpreter) (depth : Nat) : (nested depth).IsFree i := by
  induction depth with
  | zero => exact List.forall_mem_singleton.2 (.inl ⟨.name, rfl⟩)
  | succ depth ih =>
    refine List.forall_mem_cons.2 ⟨.inl ⟨.group, rfl⟩, ?_⟩
    rw [partsOfAll, partsOfAll, List.append_nil]
    exact ih

theorem height_nested (depth : Nat) : (nested depth).height = depth + 1 := by
  induction depth with
  | zero => rfl
  | succ depth ih => rw [nested, height, heightOfAll, heightOfAll, ih, Nat.max_zero]

theorem translated_nested (depth : Nat) :
    (nested depth).translated = some (.reference none "x") := by
  have root : (nested depth).root.translate = some (.node (.reference none "x")) := by
    cases depth with
    | zero => exact translate_nested 1
    | succ depth => exact translate_nested (depth + 1)
  rw [translated, root]

/-- Groups that are nested at most as deep as the interpreter allows are lowered. -/
theorem verdict_nested_of_le (i : Interpreter) {depth : Nat} (shallow : depth + 2 ≤ i.treeDepth) :
    (nested (depth + 1)).verdict i = .ok (.reference none "x") := by
  rw [verdict_of_isFree (isFree_nested i (depth + 1))
    (Nat.le_trans (Nat.le_of_eq (height_nested (depth + 1))) shallow), translated_nested]
  rfl

/-- Groups that are nested deeper than the interpreter allows let the recursion run out. -/
theorem verdict_nested_of_lt (i : Interpreter) {depth : Nat} (deep : i.treeDepth < depth + 2) :
    (nested (depth + 1)).verdict i = .error i.exhaustion := by
  obtain exhausted | ⟨broken, -⟩ := verdict_of_isFree_of_lt (isFree_nested i (depth + 1))
    (Nat.lt_of_lt_of_eq deep (height_nested (depth + 1)).symm)
  · exact exhausted
  · rw [translated_nested] at broken
    cases broken

end Phrase

/-- A name and so many groups, each around the one before. -/
def nestedStore (i : Interpreter) (count : Nat) : Store :=
  { Store.empty with
    tokens := #[⟨"x", .str "NAME" 1, .str "x" 2, []⟩]
    extents := #[[(blankName, .bool true)]]
    trees := Array.ofFn fun group : Fin count =>
      ⟨.str "group" 3, .tuple [if group.val = 0 then .token ⟨0⟩ else .tree ⟨group.val - 1⟩] 4,
        .extent ⟨0⟩, []⟩
    nextStamp := 5
    interpreter := i }

theorem reads_nested (i : Interpreter) {count depth : Nat} (h : depth < count) :
    (Phrase.nested (depth + 1)).Reads (nestedStore i count) (.tree ⟨depth⟩) := by
  have cell : (nestedStore i count).tree ⟨depth⟩ = ⟨.str "group" 3,
      .tuple [if depth = 0 then .token ⟨0⟩ else .tree ⟨depth - 1⟩] 4, .extent ⟨0⟩, []⟩ := by
    simp [nestedStore, Store.tree, h]
  have marked : (nestedStore i count).Marked (.extent ⟨0⟩) none :=
    Store.marked_of_blank (b := true) rfl rfl
  refine ⟨⟨depth⟩, [if depth = 0 then .token ⟨0⟩ else .tree ⟨depth - 1⟩], rfl, ?_, ?_, ?_, ?_⟩
  · rw [cell]
    rfl
  · rw [cell]
    exact marked
  · rw [cell]
    rfl
  · cases depth with
    | zero => exact ⟨⟨⟨0⟩, 2, rfl, rfl, rfl, rfl, rfl⟩, trivial⟩
    | succ depth => exact ⟨reads_nested i (Nat.lt_of_succ_lt h), trivial⟩

end Fallback
