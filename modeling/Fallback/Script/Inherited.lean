import Fallback.Lowering

/-!
The interpreter of a script.

It has the usual room, and a transformer whose base brings along what scripts can come across: the
operations of the walk over the tree, and what every object has. Of an operation that cannot take
what it is handed it only counts that it fails; the host words each such failure in its own way.
Each script starts with a transformer that is not wrapped, whatever was lowered before it.
-/
namespace Fallback.Script

namespace Inherited

/-- A type, of which nothing is dropped. -/
def typed (typeName : String) (kept : typeName ≠ discardName := by decide) : KeptType :=
  ⟨typeName, kept⟩

/-- An operation that does the same with a rule and with a token. -/
def uniform (effect : Effect) : Operation :=
  ⟨fun _ _ => effect, fun _ _ => effect⟩

/-- Attributes that are no operations at all, with the types of what they hold. -/
def data : List (String × KeptType) :=
  [("__doc__", typed "NoneType"), ("__module__", typed "str"), ("__dict__", typed "dict"),
    ("__weakref__", typed "NoneType"), ("__slots__", typed "tuple"),
    ("__orig_bases__", typed "tuple"), ("__parameters__", typed "tuple"),
    ("__abstractmethods__", typed "frozenset"), ("_abc_impl", typed "_abc._abc_data"),
    ("_is_protocol", typed "bool"), ("__visit_tokens__", typed "bool"),
    ("__class__", typed "ABCMeta")]

/-- Operations that do not take a list or a text as their only argument. -/
def unfit : List String :=
  ["__str__", "__repr__", "__hash__", "__new__", "__reduce__", "__reduce_ex__", "__dir__",
    "__sizeof__", "__setattr__", "__init_subclass__", "__getstate__"]

/-- Comparisons, which know nothing that is like a transformer. -/
def comparisons : List String :=
  ["__eq__", "__ne__", "__lt__", "__le__", "__gt__", "__ge__", "__subclasshook__"]

/-- The remaining operations that take any argument. Those of the walk look for the children of what
they are handed. -/
def accepting : List (String × Operation) :=
  let walks : Operation := ⟨fun _ _ => .fails (.missingAttribute "list" "children"),
    fun _ _ => .fails (.missingAttribute "Token" "children")⟩
  [("__init__",
      ⟨fun _ count => .setsVisits (some (count != 0)),
        fun _ text => .setsVisits (some (text != ""))⟩),
    ("__default_token__", uniform .handsBack),
    ("transform", ⟨fun _ _ => .handsBack, fun _ _ => .fails .tooDeep⟩),
    ("_call_userfunc_token", ⟨fun _ _ => .handsBack, fun _ _ => .fails .tooDeep⟩),
    ("_call_userfunc", walks),
    ("_transform_tree", walks),
    ("_transform_children", uniform (.yields (typed "generator"))),
    ("__class__", uniform (.yields (typed "_Lowerer"))),
    ("__mul__", uniform (.yields (typed "TransformerChain"))),
    ("__class_getitem__", uniform (.yields (typed "ABCMeta"))),
    ("_apply_v_args",
      ⟨fun _ _ => .wraps "list" (typed "ABCMeta"), fun _ _ => .wraps "Token" (typed "ABCMeta")⟩)]

/-- The names of operations that look at the text of a token. -/
def selective : List String :=
  ["__format__", "__getattribute__", "__delattr__"]

/-- The transformer has an operation under the name. -/
def isOperation (name : String) : Bool :=
  (Rule.of? name).isSome || (Terminal.of? name).isSome || name = Operation.defaultName ||
    [unfit, comparisons, accepting.map (·.1), selective].any (·.contains name)

/-- The type of an attribute of the transformer. -/
def typeOf? (name : String) : Option KeptType :=
  (data.lookup name).or (if isOperation name then some (typed "method") else none)

/-- What an operation does that looks at the text of a token: it formats the transformer, gives an
attribute of it, or deletes one. Only the flag for visits can be deleted, and that once. -/
def onText (name : String) (mode : Mode) (text : String) : Effect :=
  match name with
  | "__format__" =>
    if text = "" then .yields (typed "str") else .fails (.unformattable "_Lowerer")
  | "__getattribute__" =>
    match typeOf? text with
    | some typeName => .yields typeName
    | none => .fails (.missingAttribute "_Lowerer" text)
  | _ =>
    if text = "__visit_tokens__" && mode.visits?.isSome then .setsVisits none
    else .fails (.missingAttribute "_Lowerer" text)

/-- The operation under a name. What is no operation at all cannot be called, except for the class
of the transformer. -/
def operation? (name : String) : Option Operation :=
  if let some op := accepting.lookup name then some op
  else if unfit.contains name then some (uniform (.fails .missingArguments))
  else if comparisons.contains name then some (uniform (.yields (typed "NotImplementedType")))
  else if selective.contains name then some ⟨fun _ _ => .fails .missingArguments, onText name⟩
  else (data.lookup name).map fun typeName => uniform (.fails (.notCallable typeName.val))

end Inherited

/-- The interpreter of a script. -/
def interpreter : Interpreter :=
  { Interpreter.standard with inherited := Inherited.operation? }

end Fallback.Script
