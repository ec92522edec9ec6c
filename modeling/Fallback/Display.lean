import Fallback.Number.Numeral
import Fallback.Number.Shortest
import Fallback.Text.Quoted
import Fallback.Thing

/-!
Texts of values.

`Store.render` writes a value: in plain style for a message, in quoted style inside another value. A
node, a list, a tuple, a dictionary or a position that contains itself is written as three points
where it recurs. Some things cannot be shown: an integer with more digits than
`Numeral.digitLimit`, and a value nested deeper than the interpreter recurses.
-/
namespace Fallback

/-- A text, unless there is none. -/
abbrev Shown := Except Misuse String

/-- How a value is written: as itself in a message, or as a part of another value. -/
inductive Style
  | plain
  | quoted
  deriving DecidableEq

/-- The least number with more digits than can be shown. -/
def digitBound : Nat :=
  Nat.pow 10 Numeral.digitLimit

/-- The text of an integer. -/
def showInt (n : Int) : Shown :=
  if digitBound ≤ n.natAbs then .error .tooManyDigits else .ok (toString n)

/-- Parts with commas between them. -/
def joined (parts : List String) : String :=
  ", ".intercalate parts

/-- Parts in brackets. -/
def listText (parts : List String) : String :=
  "[" ++ joined parts ++ "]"

/-- A tuple with the given parts; a single part is followed by a comma. -/
def tupleText : List String → String
  | [part] => "(" ++ part ++ ",)"
  | parts => "(" ++ joined parts ++ ")"

/-- Parts in braces. -/
def dictText (parts : List String) : String :=
  "\x7b" ++ joined parts ++ "\x7d"

/-- A name with parts in parentheses. -/
def appliedText (name : String) (parts : List String) : String :=
  name ++ "(" ++ joined parts ++ ")"

/-- What is written in the place of the parts of a value that recurs. -/
def recurring : List String :=
  ["..."]

/-- Named parts as texts. -/
def namedTexts (write : Value → Shown) (parts : Attributes) : Except Misuse (List String) :=
  parts.mapM fun p => do return p.1 ++ "=" ++ (← write p.2)

namespace Store

/-- The place of a fault as it follows the message (`__str__` of `CoalesceError` and of
`MalformedTree`). A recoverable fault leaves out a column that says nothing; the report of a broken
tree shows it, and shows a question mark for a missing one. -/
def placeText (s : Store) (write : Value → Shown) (e : Fault) : Shown := do
  match s.line? e.place with
  | none => return ""
  | some line =>
    let column? := s.attribute? e.place columnName
    if e.kind = .malformed then
      let lineText ← write line
      let columnText ← (column?.map write).getD (.ok "?")
      return " (line " ++ lineText ++ ", col " ++ columnText ++ ")"
    else if e.kind.isLocatable then
      match s.column? e.place with
      | none => return " (line " ++ (← write line) ++ ")"
      | some column =>
        return " (line " ++ (← write line) ++ ", col " ++ (← write column) ++ ")"
    else return ""

/-- The text of a value. `depth` bounds the nesting, and `within` holds the values that are being
written around the value. -/
def render (s : Store) : Nat → List Identity → Style → Value → Shown
  | 0, _, _, _ => .error .tooDeep
  | depth + 1, within, style, v =>
    let part := s.render depth within .quoted
    let recurs := within.contains v.identity
    let inner := s.render depth (v.identity :: within) .quoted
    let items (vs : List Value) : Except Misuse (List String) :=
      if recurs then .ok recurring else vs.mapM inner
    match v with
    | .null => .ok "None"
    | .bool b => .ok (if b then "True" else "False")
    | .int n _ => showInt n
    | .float x _ => .ok x.display
    | .nan _ => .ok "nan"
    | .str t _ => .ok (if style = .plain then t else Text.quote t)
    | .list _ _ => listText <$> items ((s.listItems? v).getD [])
    | .tuple vs _ =>
      if recurs then .ok (appliedText "" recurring) else tupleText <$> vs.mapM inner
    | .dict entries _ =>
      if recurs then .ok (dictText recurring)
      else dictText <$> entries.mapM fun kv => do
        return (← inner kv.1) ++ ": " ++ (← inner kv.2)
    | .position p =>
      appliedText "namespace" <$>
        if recurs then .ok recurring else namedTexts inner (s.position p)
    | .node n =>
      match depth with
      | below + 2 =>
        if recurs then .ok "..."
        else
          let field := s.render below (v.identity :: within) .quoted
          appliedText (s.typeName v) <$> namedTexts field (s.form n).fields
      | _ => .error .tooDeep
    | .outcome o =>
      match depth, (s.outcome o).result with
      | below + 1, .success w => do
        return "Success(" ++ (← s.render below within .quoted w) ++ ")"
      | below + 1, .raised e => do
        return "Raised(" ++ s.typeName e ++ ": " ++ (← s.render below within .plain e) ++ ")"
      | 0, _ => .error .tooDeep
    | .fault r =>
      let e := s.fault r
      match style, e.args with
      | .quoted, .tuple [arg] _ => do return appliedText e.kind.name [← part arg]
      | .quoted, args => do return e.kind.name ++ (← part args)
      | .plain, args => do
        let body ← match args with
          | .tuple [] _ => pure ""
          | .tuple [arg] _ =>
            s.render depth within (if e.kind = .missingKey then .quoted else .plain) arg
          | _ => part args
        return body ++ (← s.placeText (s.render depth within .plain) e)
    | .callable f => do
      let cell := s.callable f
      match s.length? cell.calls with
      | none => .error (.noLength (s.hostTypeName cell.calls))
      | some count =>
        return "<counting " ++ (← s.render depth within .plain cell.name) ++
          " calls=" ++ toString count ++ ">"
    | .object o => do
      let label := (s.attribute? (.object o) "label").getD .null
      return "<obj " ++ (← s.render depth within .plain label) ++ ">"
    | .token t =>
      let cell := s.token t
      if style = .plain then .ok cell.text
      else do return "Token(" ++ (← part cell.kind) ++ ", " ++ (← part cell.value) ++ ")"
    | .tree t => do
      let cell := s.tree t
      return "Tree(" ++ (← part cell.label) ++ ", " ++ (← part cell.children) ++ ")"
    | .extent _ | .routine _ | .curio _ _ => .ok ("<" ++ s.typeName v ++ ">")

/-- The text of a value as it stands in a message (`str`). -/
def plainText (s : Store) (v : Value) : Shown :=
  s.render s.interpreter.valueDepth [] .plain v

/-- The text of a value as a part of another value (`repr`). -/
def quotedText (s : Store) (v : Value) : Shown :=
  s.render s.interpreter.valueDepth [] .quoted v

/-- The message of a value after the name of its type, as `CallError` and `truthiness` report a
cause. -/
def namedText (s : Store) (v : Value) : Shown := do
  return s.typeName v ++ ": " ++ (← s.plainText v)

end Store

end Fallback
