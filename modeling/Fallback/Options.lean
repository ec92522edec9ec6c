import Fallback.Attempt
import Fallback.Text.Blank

/-!
Options of an evaluation, and where they come from.

`Attempt.options` checks options given as values, `Attempt.optionsOfVariables` reads them from
variables of the process. `depthCeiling` is the depth that the host's own limit on nested calls
leaves room for; an evaluation never goes deeper, whatever is asked.
-/
namespace Fallback

/-- Options (`EvalOptions`): the deepest nesting of open nodes, at least one, and the debug switch.
Any value can be the switch; its truth counts. -/
structure Options where
  maxDepth : Nat
  debugTrace : Value
  one_le_maxDepth : 1 ≤ maxDepth

namespace Options

/-- The depth that holds where none is asked for (`DEFAULT_MAX_DEPTH`). -/
def defaultDepth : Nat :=
  128

/-- What holds where nothing is asked for (the defaults of `EvalOptions`). -/
def standard : Options :=
  ⟨defaultDepth, .bool false, by decide⟩

/-- The variable that sets the depth (`MAX_DEPTH_ENV`). -/
def depthVariable : String :=
  "COALESCE_MAX_DEPTH"

/-- The variable that sets the debug switch (`DEBUG_TRACE_ENV`). -/
def debugVariable : String :=
  "COALESCE_DEBUG_TRACE"

/-- The words that turn a switch on (`_TRUTHY`). -/
def onWords : List String :=
  ["1", "true", "yes", "on"]

/-- The words that leave a switch off (`_FALSY`). -/
def offWords : List String :=
  ["", "0", "false", "no", "off"]

/-- The switch that a text without blanks at its ends sets (`_env_flag`), without regard to case.
Of the characters outside ASCII only the Kelvin sign has a lower case within ASCII, and no word has
its letter, so the case of ASCII letters decides. -/
def flag? (text : List Char) : Option Bool :=
  let word := String.ofList (text.map Char.toLower)
  if onWords.contains word then some true
  else if offWords.contains word then some false
  else none

end Options

/-- The nesting of calls that the host keeps free for other purposes (`_STACK_HEADROOM`). -/
def reservedCalls : Int :=
  200

/-- The nested calls that one open node takes (`_FRAMES_PER_LEVEL`). -/
def callsPerNode : Int :=
  4

/-- The deepest nesting of open nodes under a limit on nested calls (`max_depth_ceiling`). -/
def depthCeiling (callLimit : Int) : Nat :=
  max 1 ((callLimit - reservedCalls).fdiv callsPerNode).toNat

namespace Attempt

/-- Options with the given values, as `EvalOptions` checks them; an option that is not given has its
standard value. -/
def options (maxDepth debugTrace : Option Value) : Attempt Options := do
  let depth ← match maxDepth with
    | none => pure (Options.defaultDepth : Int)
    | some (.int n _) => pure n
    | some v =>
      fail .configuration ("max_depth must be an int, got " ++ (← typeName v))
  if h : 1 ≤ depth.toNat then
    return ⟨depth.toNat, debugTrace.getD (.bool false), h⟩
  else
    let shown ← ask fun _ => showInt depth
    fail .configuration ("max_depth must be >= 1, got " ++ shown)

/-- The text of a variable without blanks at its ends; a value that is no text has none. -/
def trimmed (v : Value) : Attempt (List Char) := do
  match (← get).text? v with
  | some t => return Text.trim t.toList
  | none => misuse (.missingAttribute (← hostTypeName v) "strip")

/-- The depth that a variable sets (`from_env`); a blank one sets none. -/
def depthOf (v : Value) : Attempt Int := do
  let body ← trimmed v
  if body.isEmpty then return Options.defaultDepth
  else match Numeral.readInteger body with
    | .ok n => return n
    | .error _ =>
      let shown ← ask fun s => s.quotedText v
      fail .configuration (Options.depthVariable ++ " must be an integer, got " ++ shown)

/-- The switch that a variable sets (`_env_flag`). -/
def flagOf (name : String) (v : Value) : Attempt Bool := do
  match Options.flag? (← trimmed v) with
  | some b => return b
  | none =>
    let shown ← ask fun s => s.quotedText v
    fail .configuration (name ++ " must be a boolean flag, got " ++ shown)

/-- The options that variables set (`from_env`): the depth is read before the switch, and the
options are checked last. A variable that is null counts as not set. -/
def optionsOfVariables (valueOf : String → Option Value) : Attempt Options := do
  let said (name : String) : Option Value := (valueOf name).filter fun v => !v.isNull
  let depth ← match said Options.depthVariable with
    | some v => depthOf v
    | none => pure (Options.defaultDepth : Int)
  let debug ← match said Options.debugVariable with
    | some v => flagOf Options.debugVariable v
    | none => pure false
  options (some (← integer depth)) (some (.bool debug))

end Attempt

end Fallback
