import Fallback.Chain
import Fallback.Truth

/-!
Lowering: from parse trees to expression nodes.

`Store.parse` reads a parse tree out of the store, and `Attempt.lower` lowers it bottom-up and from
left to right. Literal and name tokens become nodes at their own places; other tokens stay, and a
rule drops those that its punctuation allows. Nodes that stand in the tree already are kept as they
are.

The transformer (`_Lowerer`) has one space of names for rules and tokens, so a rule may be labelled
like a token and a token may be of a kind named like a rule; `Meaning` says what a name stands for.
Besides rules and terminals it has the operations that it inherits from its base. A rule or a token
that happens to bear such a name is handed to the operation. What these operations are, and how deep
the recursion of the walk goes, is up to the interpreter.
-/
namespace Fallback

/-- The rules of the grammar. -/
inductive Rule
  | literal
  | var
  | group
  | call
  | chain (op : Operator)
  | ternary
  deriving DecidableEq

/-- The kinds of tokens that become nodes. -/
inductive Terminal
  | number
  | string
  | true
  | false
  | null
  | name
  deriving DecidableEq

/-- What the label of a rule or the kind of a token stands for: a rule, a terminal, an operation
that is not meant for either, or nothing. -/
inductive Meaning
  | rule (r : Rule)
  | terminal (t : Terminal)
  | operation (op : Operation)
  | unknown

namespace Rule

/-- The label of a rule. -/
def label : Rule → String
  | literal => "literal"
  | var => "var"
  | group => "group"
  | call => "call"
  | chain .onFault => "catch_coalesce"
  | chain .onNull => "nullish"
  | chain .onFalse => "elvis"
  | ternary => "ternary"

/-- All rules. -/
def all : List Rule :=
  [literal, var, group, call, chain .onFault, chain .onNull, chain .onFalse, ternary]

/-- The rule with a label. -/
def of? (name : String) : Option Rule :=
  all.find? fun r => r.label = name

/-- The texts of the tokens that a rule drops (`_GROUP_PUNCT`, `_CALL_PUNCT`, `_TERNARY_PUNCT`). -/
def punctuation : Rule → List String
  | literal | var => []
  | group => ["(", ")"]
  | call => ["(", ")", ","]
  | chain .onFault => ["???"]
  | chain .onNull => ["??"]
  | chain .onFalse => ["?:"]
  | ternary => ["?", ":"]

end Rule

namespace Terminal

/-- The kind of the tokens. -/
def kind : Terminal → String
  | number => "NUMBER"
  | string => "STRING"
  | true => "TRUE"
  | false => "FALSE"
  | null => "NULL"
  | name => "NAME"

/-- All terminals. -/
def all : List Terminal :=
  [number, string, true, false, null, name]

/-- The terminal of the tokens of a kind. -/
def of? (name : String) : Option Terminal :=
  all.find? fun t => t.kind = name

/-- The value of a terminal whose tokens all stand for one value. -/
def constant? : Terminal → Option Value
  | true => some (.bool Bool.true)
  | false => some (.bool Bool.false)
  | null => some .null
  | _ => none

end Terminal

/-- The operation for labels that mean nothing (`__default__`). It is handed too little where it is
called by its name. -/
def Operation.default : Operation :=
  ⟨fun _ _ => .fails .missingArguments, fun _ _ => .fails .missingArguments⟩

/-- The name of that operation. -/
def Operation.defaultName : String :=
  "__default__"

/-- What a name stands for: what the transformer has itself comes before what it has from its
base. -/
def Meaning.of (i : Interpreter) (name : String) : Meaning :=
  match Rule.of? name, Terminal.of? name with
  | some r, _ => .rule r
  | none, some t => .terminal t
  | none, none =>
    match if name = Operation.defaultName then some .default else i.inherited name with
    | some op => .operation op
    | none => .unknown

/-- The number that a numeral spells, as an integer if it can be read as one. -/
inductive NumberReading
  | integer (n : Int)
  | float (x : Numeral.FloatReading)
  deriving DecidableEq

/-- The number that the text of a token spells (`_number`). -/
def NumberReading.of? (text : String) : Option NumberReading :=
  match Numeral.readInteger text.toList with
  | .ok n => some (.integer n)
  | .error _ => (Numeral.readFloat? text.toList).map .float

/-- A text without the quotes around it, if it has the same quote at both ends (`_unquote`). -/
def unquote (text : String) : String :=
  match text.toList with
  | first :: rest =>
    match rest.getLast? with
    | some last =>
      if first = last && (first = Text.quotation || first = Text.apostrophe) then
        String.ofList rest.dropLast
      else text
    | none => text
  | [] => text

/-! ## Parse trees -/

/-- A part of a parse tree as it was read: a rule with its extent, a token, any other value, a rule
that cannot be read, or a part that is nested too deep. -/
inductive Parse
  | rule (self : TreeRef) (label : Value) (children : List Parse) (extent : Value)
  | token (self : TokenRef) (t : Token)
  | other (v : Value)
  | unreadable (m : Misuse)
  | tooDeep (name subject : Value)

namespace Store

/-- Reads parts up to the first one that cannot be read, and tells whether all were read. -/
def parseParts (parsePart : Value → Parse × Bool) : List Value → List Parse × Bool
  | [] => ([], true)
  | v :: more =>
    let (part, whole) := parsePart v
    if whole then
      let (parts, whole) := parseParts parsePart more
      (part :: parts, whole)
    else ([part], false)

/-- Reads a part of a parse tree, and tells whether all of it was read. `depth` bounds the nesting
of rules and tokens. -/
def parsePart (s : Store) : Nat → Value → Parse × Bool
  | 0, v =>
    match v with
    | .tree r => (.tooDeep (s.tree r).label v, false)
    | .token r => (.tooDeep (s.token r).kind v, false)
    | v => (.other v, true)
  | depth + 1, v =>
    match v with
    | .tree r =>
      let t := s.tree r
      match s.items t.children with
      | .error m => (.unreadable m, false)
      | .ok children =>
        let (parts, whole) := parseParts (s.parsePart depth) children
        (.rule r t.label parts t.extent, whole)
    | .token r => (.token r (s.token r), true)
    | v => (.other v, true)

/-- Reads a parse tree. -/
def parse (s : Store) (v : Value) : Parse :=
  (s.parsePart s.interpreter.treeDepth v).1

/-- The form of a value that is a node. -/
def formOf? (s : Store) : Value → Option Form
  | .node n => some (s.form n)
  | _ => none

end Store

/-! ## Lowering parts -/

/-- What a part of a parse tree became: a token that stays, or any other value. -/
inductive Piece
  | token (self : TokenRef) (t : Token)
  | value (v : Value)

/-- A piece as a value. -/
def Piece.toValue : Piece → Value
  | .token self _ => .token self
  | .value v => v

/-- The value says that it is to be dropped. -/
def Value.isDiscard : Value → Bool
  | .curio typeName _ => typeName = discardName
  | _ => false

/-- The piece says that it is to be dropped. -/
def Piece.isDiscard (piece : Piece) : Bool :=
  piece.toValue.isDiscard

namespace Attempt

variable {α : Type}

/-- A visit to the rule or token `subject` (`_call_userfunc`, `_call_userfunc_token`). If it fails
for any other reason than a broken tree, it is the visit that is reported to have failed
(`VisitError`). -/
def visit (name subject : Value) (x : Attempt α) : Attempt α :=
  tryCatch x fun e => do
    if ((← get).fault e).kind = .malformed then throw e
    else
      let shown ← ask fun s => s.plainText name
      let reason ← ask fun s => s.plainText (.fault e)
      let message ← text ("Error trying to process rule " ++ String.singleton Text.quotation ++
        shown ++ String.singleton Text.quotation ++ ":\n\n" ++ reason)
      let extras := [("rule", name), ("obj", subject), ("orig_exc", Value.fault e)]
      throw (← newFault .visit (← tuple [message]) .null extras)

/-- The recursion runs out at the rule or token `subject`, on the way down or within its callback.
In the callback it is the visit that is reported to have failed. -/
def exhausted (name subject : Value) : Attempt α := do
  if (← interpreter).strikesCallback then visit name subject (misuse .tooDeep)
  else misuse .tooDeep

/-- The value of a number. -/
def numberValue : NumberReading → Attempt Value
  | .integer n => integer n
  | .float (.number x) => return .float x (← make Store.addStamp)
  | .float .notANumber => return .nan (← make Store.addStamp)

/-- The number that the value of a token stands for (`_number`): a number without its fraction, and
what a text spells. -/
def numberOf (self : TokenRef) (v : Value) : Attempt Value := do
  match v with
  | .int _ _ | .nan _ => return v
  | .bool b => integer (if b then 1 else 0)
  | .float x _ =>
    match x.truncate? with
    | some n => integer n
    | none => fail .overflow "cannot convert float infinity to integer"
  | v =>
    match (← get).text? v with
    | some t =>
      match NumberReading.of? t with
      | some reading => numberValue reading
      | none =>
        let shown ← ask fun s => s.quotedText v
        malformed (← settle (.token self)) ("Bad number literal " ++ shown)
    | none =>
      fail .badType
        ("int() argument must be a string, a bytes-like object or a real number, not '" ++
          (← hostTypeName v) ++ "'")

/-- The items without the first and the last one, if these are the same quote. -/
def unquotedItems? (items : List Value) : Attempt (Option (List Value)) := do
  let s ← get
  match items with
  | first :: rest =>
    match rest.getLast? with
    | some last =>
      let isQuote := [Text.quotation, Text.apostrophe].any fun q =>
        s.text? first = some (String.singleton q)
      if (← ask fun s => s.areEqual first last) && isQuote then return some rest.dropLast
      else return none
    | none => return none
  | [] => return none

/-- What the value of a token stands for, without quotes (`_unquote`). Any value with a size will do
that is either too small for quotes or has items in an order. -/
def unquoted (v : Value) : Attempt Value := do
  let s ← get
  match s.text? v, v with
  | some t, _ => if unquote t = t then return v else text (unquote t)
  | none, .tuple items _ =>
    match ← unquotedItems? items with
    | some inner => tuple inner
    | none => return v
  | none, .dict entries _ =>
    if entries.length < 2 then return v
    else throw (← newFault .missingKey (← tuple [← integer 0]) .null [])
  | none, .object r =>
    let o := s.object r
    if !o.hasSize then misuse (.noLength (s.hostTypeName v))
    let size ← sizeOf ((Environment.get? o.attributes sizeName).getD .null)
    if size < 2 then return v else misuse (.notSubscriptable (s.hostTypeName v))
  | none, v =>
    match s.listItems? v with
    | some items =>
      match ← unquotedItems? items with
      | some inner => list inner
      | none => return v
    | none => misuse (.noLength (s.hostTypeName v))

/-- The name that the value of a token is. -/
def nameOf (v : Value) : Attempt Value := do
  match v with
  | .str _ _ => return v
  | v => text (← ask fun s => s.plainText v)

/-- The node of a token: what the methods `NUMBER`, `STRING`, `TRUE`, `FALSE`, `NULL` and `NAME`
make of it. -/
def lowerTerminal (t : Terminal) (self : TokenRef) (token : Token) : Attempt NodeRef := do
  let place := settle (.token self)
  match t with
  | .number =>
    let v ← numberOf self token.value
    literal v (← place)
  | .string =>
    let v ← unquoted token.value
    literal v (← place)
  | .name =>
    let name ← nameOf token.value
    reference name (← place)
  | .true => literal (.bool true) (← place)
  | .false => literal (.bool false) (← place)
  | .null => literal .null (← place)

/-- The text of a token is punctuation of a rule. -/
def isPunctuation (rule : Rule) (token : Token) : Attempt Bool := do
  ask fun s => s.checkKey token.value
  return ((← get).text? token.value).any rule.punctuation.contains

/-- The nodes among the children of a rule; everything else has to be punctuation of the rule
(`_operands`). -/
def operandsOf (rule : Rule) (place : Value) : List Piece → Attempt (List Value)
  | [] => return []
  | child :: more => do
    match child with
    | .value v =>
      if v.isNode then return v :: (← operandsOf rule place more)
      else malformed place ("Unexpected child " ++ (← typeName v) ++ " in " ++ rule.label)
    | .token self token =>
      if ← isPunctuation rule token then operandsOf rule place more
      else
        let kind ← ask fun s => s.plainText token.kind
        let shown ← ask fun s => s.quotedText token.value
        let own ← settle (.token self)
        malformed (own.getD place)
          ("Unexpected token " ++ kind ++ ":" ++ shown ++ " in " ++ rule.label)

/-- The only child of a rule, if it is a node of a kind. -/
def onlyChild? (kind : NodeKind) (children : List Piece) : Attempt (Option Value) := do
  match children with
  | [.value v] => return if ((← get).formOf? v).any fun f => f.kind = kind then some v else none
  | _ => return none

/-- The node of a rule whose children are lowered already: what the methods that bear the names of
the rules make of them. -/
def lowerRule (rule : Rule) (children : List Piece) (extent : Value) : Attempt Value := do
  match rule with
  | .literal =>
    match ← onlyChild? .literal children with
    | some v => return v
    | none =>
      malformed (← settle extent)
        ("literal expects one literal token, got " ++ toString children.length ++ " children")
  | .var =>
    match ← onlyChild? .reference children with
    | some v => return v
    | none => malformed (← settle extent) "var expects exactly one NAME token"
  | .group =>
    let place ← settle extent
    match ← operandsOf rule place children with
    | [v] => return v
    | operands =>
      malformed place ("group expects one expression, got " ++ toString operands.length)
  | .call =>
    let place ← settle extent
    match ← operandsOf rule place children with
    | callee :: args => return .node (← call callee (← tuple args) place)
    | [] => malformed place "call requires a callee"
  | .chain op =>
    let place ← settle extent
    chain op (← operandsOf rule place children) place
  | .ternary =>
    let place ← settle extent
    match ← operandsOf rule place children with
    | [c, t, e] => return .node (← ternary c t e place)
    | operands =>
      malformed place ("ternary expects 3 operands, got " ++ toString operands.length)

end Attempt

/-- Lowering while the tree is walked, in a mode that may change on the way. -/
abbrev Lowering (α : Type) := StateT Mode (ExceptT FaultRef (StateM Store)) α

namespace Lowering

/-- What becomes of the rule or token `subject` by the effect of an operation, which is `given` the
children or the token itself. -/
def operate (effect : Effect) (name subject : Value) (given : Piece) : Lowering Piece := do
  match effect with
  | .fails m => Attempt.visit name subject (Attempt.misuse m)
  | .handsBack => return given
  | .setsVisits visits? =>
    modify fun mode => { mode with visits? }
    return .value .null
  | .yields typeName => return .value (← Attempt.curio typeName.val)
  | .wraps wrapper typeName =>
    modify fun mode => { mode with wrapper? := mode.wrapper?.or (some wrapper) }
    return .value (← Attempt.curio typeName.val)

/-- The name that the label of a rule or the kind of a token is. -/
def nameOf (v : Value) : Attempt String := do
  match (← get).text? v with
  | some name => return name
  | none =>
    Attempt.fail .badType
      ("attribute name must be string, not '" ++ (← Attempt.hostTypeName v) ++ "'")

/-- What becomes of a rule with a label, whose children are lowered already (`_call_userfunc`). -/
def rule (self : TreeRef) (label : Value) (children : List Piece) (extent : Value) :
    Lowering Piece := do
  let visit (x : Attempt Value) : Lowering Piece := do
    return .value (← Attempt.visit label (.tree self) x)
  let name ← nameOf label
  match Meaning.of (← Attempt.interpreter) name with
  | .rule r => visit (Attempt.lowerRule r children extent)
  | .terminal t =>
    match (← get).wrapper?, t.constant? with
    | some wrapper, _ => visit (Attempt.misuse (.notCallable wrapper))
    | none, some v => return .value (.node (← Attempt.literal v .null))
    | none, none => visit (Attempt.misuse (.missingAttribute "list" "value"))
  | .operation op =>
    let given ← Attempt.list (children.map Piece.toValue)
    operate (op.onRule (← get) children.length) label (.tree self) (.value given)
  | .unknown => Attempt.malformed (← Attempt.settle extent) ("Unknown node: " ++ name)

/-- What becomes of a token (`_call_userfunc_token`). -/
def token (self : TokenRef) (t : Token) : Lowering Piece := do
  let visit (x : Attempt Value) : Lowering Piece := do
    return .value (← Attempt.visit t.kind (.token self) x)
  let stays : Piece := .token self t
  if !(← get).visitsTokens then return stays
  else
    let name ← nameOf t.kind
    match Meaning.of (← Attempt.interpreter) name with
    | .rule r =>
      visit (Attempt.fail .badType
        ("_Lowerer." ++ r.label ++ "() missing 1 required positional argument: 'children'"))
    | .terminal terminal => visit (Value.node <$> Attempt.lowerTerminal terminal self t)
    | .operation op => operate (op.onToken (← get) t.text) t.kind (.token self) stays
    | .unknown => return stays

mutual

/-- What becomes of a part of a parse tree (`_transform_tree`). -/
def part : Parse → Lowering Piece
  | .rule self label children extent => do
    rule self label (← parts children) extent
  | .token self t => token self t
  | .other v => return .value v
  | .unreadable m => Attempt.misuse m
  | .tooDeep name subject => Attempt.exhausted name subject

/-- What becomes of the children of a rule, from left to right (`_transform_children`). Nothing
becomes of those that say so (`Discard`). -/
def parts : List Parse → Lowering (List Piece)
  | [] => return []
  | p :: more => do
    let piece ← part p
    let pieces ← parts more
    return if piece.isDiscard then pieces else piece :: pieces

end

end Lowering

namespace Attempt

/-- A token on its own is lowered as a group that holds only it (the start of `lower`). -/
def rooted (tree : Value) : Attempt Value := do
  match tree with
  | .token _ =>
    let extent ← make fun s => s.addExtent [(blankName, .bool true)]
    let label ← text Rule.group.label
    let children ← list [tree]
    return .tree (← make fun s => s.addTree ⟨label, children, .extent extent, []⟩)
  | v => return v

/-- Lowers a parse tree (`lower`). -/
def lower (tree : Value) : Attempt Value := do
  let root ← rooted tree
  let (piece, _) ← (Lowering.part ((← get).parse root)).run (← interpreter).mode
  let v := if piece.isDiscard then .null else piece.toValue
  if v.isNode then return v
  else malformed .null ("Lowering produced " ++ (← typeName v) ++ ", not an expression node")

end Attempt

end Fallback
