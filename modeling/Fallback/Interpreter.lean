import Fallback.Fault

/-!
The interpreter that everything runs in.

Some answers depend on it and not on the language: how deep a recursion may go before it runs out
(`RecursionError`), and what the names mean that the transformer behind lowering has from its base,
`Transformer`. `Interpreter` holds them as they are; everything else is said for every interpreter.
Limits are given in levels of what is walked over, where the host counts calls. A level takes the
same number of calls wherever it is; only at the innermost level do callbacks differ by a few, which
is not looked into.

What is asked of an operation of the base is that it knows a rule by the number of its children and
a token by its text, that of the transformer it changes only what `Mode` holds, and that it never
asks for anything to be dropped.
-/
namespace Fallback

/-- The type of the only thing that says that a part of a tree is to be dropped (`Discard`). -/
def discardName : String :=
  "_DiscardType"

/-- A type of what is not dropped. -/
abbrev KeptType :=
  {name : String // name ≠ discardName}

/-- What changes in the transformer while it walks over a tree: whether tokens are visited
(`__visit_tokens__`), as far as the transformer has a say of its own in it, and the type of what
stands in front of the operations for tokens (`visit_wrapper`), if anything does. -/
structure Mode where
  visits? : Option Bool
  wrapper? : Option String
  deriving DecidableEq

/-- Tokens are visited, unless it is said otherwise. -/
def Mode.visitsTokens (mode : Mode) : Bool :=
  mode.visits?.getD true

/-- What becomes of the rule or the token that is handed to an operation of the base: it fails, is
handed back, leaves nothing but whether tokens are visited from then on, or becomes something of
which only the type counts; in the last case what was handed over may also be put in front of the
operations for tokens that nothing stands in front of. -/
inductive Effect
  | fails (m : Misuse)
  | handsBack
  | setsVisits (visits? : Option Bool)
  | yields (typeName : KeptType)
  | wraps (wrapper : String) (typeName : KeptType)

/-- An operation of the base: what it does with a rule, which it gets as the list of what its
children became, and with a token, which it gets as a text. -/
structure Operation where
  onRule : (mode : Mode) → (count : Nat) → Effect
  onToken : (mode : Mode) → (text : String) → Effect

/-- An interpreter: the room that it has for nested values beyond the least, the deepest nesting of
rules and tokens that is lowered, whether a recursion that goes deeper runs out within a callback of
the transformer, how the transformer starts, and the operations that it has from its base, by their
names. -/
structure Interpreter where
  spareRoom : Nat
  treeDepth : Nat
  strikesCallback : Bool
  wrapper? : Option String
  inherited : String → Option Operation

namespace Interpreter

/-- The nesting of values for which there is always room, so that every message about a fault can be
written. -/
def leastRoom : Nat :=
  16

/-- The deepest nesting of values that is shown or compared. A node counts three levels in both, an
outcome two. -/
def valueDepth (i : Interpreter) : Nat :=
  i.spareRoom + leastRoom

theorem valueDepth_eq (i : Interpreter) : i.valueDepth = i.spareRoom + 14 + 2 :=
  rfl

/-- There is room for a few levels in any case. -/
theorem le_valueDepth (i : Interpreter) {levels : Nat} (few : levels ≤ leastRoom) :
    levels ≤ i.valueDepth :=
  Nat.le_trans few (Nat.le_add_left _ _)

/-- How a walk over a tree starts. A new transformer visits tokens. -/
def mode (i : Interpreter) : Mode :=
  ⟨some true, i.wrapper?⟩

theorem visitsTokens_mode (i : Interpreter) : i.mode.visitsTokens = true :=
  rfl

/-- An interpreter with the usual room, and with a transformer that inherits nothing. -/
def standard : Interpreter :=
  ⟨974, 490, false, none, fun _ => none⟩

instance : Inhabited Interpreter :=
  ⟨standard⟩

end Interpreter

end Fallback
