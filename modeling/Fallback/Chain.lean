import Fallback.Construction

/-!
Chains of one operator.

`Attempt.chain` folds two or more operands to the right: `a, b, c` becomes `a op (b op c)`.
`Store.operands` follows the right spine back: an operand on the left stays one operand, also when
it is a chain itself.
-/
namespace Fallback

namespace Attempt

/-- Ends with the report of a broken tree, unless all operands are nodes: the check that
`fold_right` makes before it builds anything. -/
def requireOperands (kind : NodeKind) (place : Value) : List Value → Attempt Unit
  | [] => return ()
  | v :: more => do
    if v.isNode then requireOperands kind place more
    else
      malformed place (kind.name ++ " operand must be an expression node, got " ++ (← typeName v))

/-- Folds operands to the right onto the last one: the loop of `fold_right`. -/
def foldOnto (combine : Value → Value → Attempt NodeRef) (last : Value) :
    List Value → Attempt Value
  | [] => return last
  | operand :: more => do
    let rest ← foldOnto combine last more
    return .node (← combine operand rest)

/-- Two or more operands, all of them nodes, folded to the right by nodes of a kind (`fold_right`).
-/
def foldRight (kind : NodeKind) (combine : Value → Value → Attempt NodeRef)
    (operands : List Value) (place : Value) : Attempt Value := do
  match operands.getLast? with
  | some last =>
    if operands.length < 2 then tooFew
    else
      requireOperands kind place operands
      foldOnto combine last operands.dropLast
  | none => tooFew
where
  tooFew : Attempt Value :=
    malformed place
      (kind.name ++ " chain needs at least two operands, got " ++ toString operands.length)

/-- The chain of an operator over operands (`coalesce_chain`, `null_chain`, `elvis_chain`); every
node of the chain gets the same place. -/
def chain (op : Operator) (operands : List Value) (place : Value) : Attempt Value :=
  foldRight (.fallback op) (fun lhs rhs => fallback op lhs rhs place) operands place

end Attempt

namespace Store

/-- The operands on the right spine below a value, as far as the operator is `op`: the loop of
`chain_operands`. `length` bounds the length of the spine. -/
def spine (s : Store) (op : Operator) : Nat → Value → List Value
  | 0, v => [v]
  | length + 1, v =>
    match v with
    | .node n =>
      match s.form n with
      | .fallback op' lhs rhs => if op' = op then lhs :: s.spine op length rhs else [v]
      | _ => [v]
    | _ => [v]

/-- The operands of the chain that a value is (`chain_operands`); any other value is its own only
operand. -/
def operands (s : Store) (v : Value) : List Value :=
  match v with
  | .node n =>
    match s.form n with
    | .fallback op _ _ => s.spine op s.nodes.size v
    | _ => [v]
  | _ => [v]

end Store

end Fallback
