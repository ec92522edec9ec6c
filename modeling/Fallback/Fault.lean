import Fallback.Value

/-!
Faults: what an evaluation raises, what a callable raises and what a misuse of the library raises.

A fault is an exception object, and a place is what it has under `meta`: where in the source it
belongs. The kinds are classes of exceptions. `isLocatable` faults are those of `CoalesceError` and
the classes below it, the recoverable ones of the language itself; their place may be attached after
they were made. `malformed` faults report a broken tree (`MalformedTree`). `isOrdinary` faults are
all those that a guard around a callable intercepts (`Exception`); an interruption of the host is
not.

A misuse is what the host itself has against an operation on values, before a fault was made of it.
-/
namespace Fallback

/-- What kind of fault it is: the class of the exception. -/
inductive FaultKind
  | recoverable
  | unboundName
  | failedCall
  | custom
  | malformed
  | configuration
  | plain
  | boom
  | badValue
  | badType
  | missingKey
  | runtime
  | badIndex
  | overflow
  | assertion
  | missingAttribute
  | recursion
  | frozen
  | visit
  | system
  | interrupt
  | exit
  deriving DecidableEq, Inhabited

namespace FaultKind

/-- The name of the kind in messages: that of the class. -/
def name : FaultKind → String
  | recoverable => "CoalesceError"
  | unboundName => "EvalNameError"
  | failedCall => "CallError"
  | custom => "CustomError"
  | malformed => "MalformedTree"
  | configuration => "ConfigurationError"
  | plain => "Exception"
  | boom => "Boom"
  | badValue => "ValueError"
  | badType => "TypeError"
  | missingKey => "KeyError"
  | runtime => "RuntimeError"
  | badIndex => "IndexError"
  | overflow => "OverflowError"
  | assertion => "AssertionError"
  | missingAttribute => "AttributeError"
  | recursion => "RecursionError"
  | frozen => "FrozenInstanceError"
  | visit => "VisitError"
  | system => "OSError"
  | interrupt => "KeyboardInterrupt"
  | exit => "SystemExit"

/-- A recoverable fault of the language (`CoalesceError`, `EvalNameError`, `CallError`, and a class
below the first one that is not of the library): an evaluation may attach a place to it. -/
def isLocatable : FaultKind → Bool
  | recoverable | unboundName | failedCall | custom => true
  | _ => false

/-- A fault of the kind has a place in the source from the start, which may be null: the `meta` of
`CoalesceError` and `MalformedTree`. -/
def hasPlace (k : FaultKind) : Bool :=
  k.isLocatable || k = malformed

/-- A guard around host code intercepts the fault: it is an `Exception`. -/
def isOrdinary : FaultKind → Bool
  | interrupt | exit => false
  | _ => true

/-- The fault of a guarded call passes through the guard of `call_value`: a broken tree is never
turned into a value, and neither is an interruption. -/
def escapesCall (k : FaultKind) : Bool :=
  k = malformed || !k.isOrdinary

end FaultKind

/-- A fault: its kind, the tuple of its arguments (`args`), the fault that it is chained to or null
(`__cause__`), its place in the source (`meta`), and what else it carries. The place is an attribute
only of the kinds that have one; it is never missing there. -/
structure Fault where
  kind : FaultKind
  args : Value
  chained : Value
  place : Value
  extras : Attributes
  deriving Inhabited

namespace Fault

/-- The name of the attribute that holds the fault behind a failed call. -/
def causeName : String :=
  "cause"

/-- The name of the attribute that holds the name that was not found. -/
def subjectName : String :=
  "name"

/-- The fault behind a failed call (`CallError.cause`). -/
def cause? (e : Fault) : Option Value :=
  Environment.get? e.extras causeName

/-- An evaluation may attach a place to the fault, as `_maybe_attach_location` asks: it is of the
language's own and has none yet. -/
def awaitsPlace (e : Fault) : Bool :=
  e.kind.isLocatable && e.place.isNull

end Fault

/-! ## Misuses -/

/-- Why something cannot be done with values: what the host says against it. -/
inductive Misuse
  | tooManyDigits
  | tooDeep
  | missingAttribute (typeName name : String)
  | noSetter (typeName name : String)
  | frozenField (quotedName : String)
  | notIterable (typeName : String)
  | notSubscriptable (typeName : String)
  | notCallable (typeName : String)
  | unhashable (typeName : String)
  | noLength (typeName : String)
  | outOfRange (what : String)
  | oversizedIndex
  | notIndex (typeName : String)
  | notRaisable
  | notChainable
  | notPrecedable
  | notTraceback
  | notSwitch
  | notClass (typeName : String)
  | notDictionary (typeName : String)
  | missingArguments
  | unformattable (typeName : String)
  | readOnly
  deriving DecidableEq

namespace Misuse

/-- The kind of the fault that reports a misuse. -/
def kind : Misuse → FaultKind
  | tooManyDigits => .badValue
  | tooDeep => .recursion
  | missingAttribute _ _ | noSetter _ _ | readOnly => .missingAttribute
  | frozenField _ => .frozen
  | outOfRange _ | oversizedIndex => .badIndex
  | _ => .badType

/-- The message of the fault that reports a misuse. -/
def message : Misuse → String
  | tooManyDigits =>
    "Exceeds the limit (4300 digits) for integer string conversion; " ++
      "use sys.set_int_max_str_digits() to increase the limit"
  | tooDeep => "maximum recursion depth exceeded"
  | missingAttribute typeName name => s!"'{typeName}' object has no attribute '{name}'"
  | noSetter typeName name => s!"property '{name}' of '{typeName}' object has no setter"
  | frozenField quotedName => s!"cannot assign to field {quotedName}"
  | notIterable typeName => s!"'{typeName}' object is not iterable"
  | notSubscriptable typeName => s!"'{typeName}' object is not subscriptable"
  | notCallable typeName => s!"'{typeName}' object is not callable"
  | unhashable typeName => s!"unhashable type: '{typeName}'"
  | noLength typeName => s!"object of type '{typeName}' has no len()"
  | outOfRange what => s!"{what} index out of range"
  | notIndex typeName => s!"tuple indices must be integers or slices, not {typeName}"
  | oversizedIndex => "cannot fit 'int' into an index-sized integer"
  | notRaisable => "exceptions must derive from BaseException"
  | notChainable => "exception cause must be None or derive from BaseException"
  | notPrecedable => "exception context must be None or derive from BaseException"
  | notTraceback => "__traceback__ must be a traceback or None"
  | notSwitch => "attribute value type must be bool"
  | notClass typeName => s!"__class__ must be set to a class, not '{typeName}' object"
  | notDictionary typeName => s!"__dict__ must be set to a dictionary, not a '{typeName}'"
  | missingArguments =>
    "_Lowerer.__default__() missing 2 required positional arguments: 'children' and 'meta'"
  | unformattable typeName => s!"unsupported format string passed to {typeName}.__format__"
  | readOnly => "readonly attribute"

end Misuse

end Fallback
