import Fallback.Fault
import Fallback.Node

/-!
Terms: descriptions of values in a script.

A term is written once and built whenever its step runs. Every term makes new things; only `use`
refers to a thing that an earlier step has stored under a name, or to a part of it. Where a term
should be and is none, `absent` says what is missing. `Body` describes
what a scripted callable does when it is invoked.
-/
namespace Fallback.Script

mutual

/-- The description of a value. The place of a node or a fault is a position or nothing; what is not
said of a fault is absent. -/
inductive Term
  | null
  | bool (b : Bool)
  | int (n : Int)
  | float (x : Binary64)
  | nan
  | str (s : String)
  | list (items : List Term)
  | tuple (items : List Term)
  | dict (entries : List (Term × Term))
  | use (name : String) (path : List String)
  | absent (what : String)
  | callable (name : Term) (body : Body)
  | object (label : Term) (truth size : Option Term)
  | fault (kind : FaultKind) (args : List Term) (message subject cause code : Option Term)
      (place : Option Term) (chained : Option Term) (extras : List (String × Term))
  | success (v : Term)
  | raised (e : Term)
  | node (kind : NodeKind) (fields : List (String × Term)) (place : Option Term)
  | lowered (tree : Term)
  | chain (op : Operator) (operands : List Term) (place : Option Term)
  | fold (kind : NodeKind) (operands : List Term) (place : Option Term)
  | token (kind value : Term) (marks : List (String × Term))
  | tree (label : Term) (children : List Term) (extent : List (String × Term))
  | extent (marks : List (String × Term))
  | position (marks : List (String × Term))

/-- What a scripted callable does: it returns a value or raises one, returns its arguments, one of
them or the number of its invocations, reads an integer, adds, runs through a list of other bodies,
binds or unbinds a name of the environment, or evaluates an expression. -/
inductive Body
  | constant (v : Term)
  | raises (v : Term)
  | arguments
  | argument (index : Term)
  | count
  | readInteger
  | add
  | sequence (items : List Body)
  | bind (name : String) (v : Term)
  | unbind (name : String)
  | evaluates (root : Term) (environment : Option (List (String × Term)))
      (options : List (String × Term)) (traced unwrapped : Bool)

end

instance : Inhabited Term := ⟨.null⟩
instance : Inhabited Body := ⟨.arguments⟩

/-- Terms with names. -/
abbrev NamedTerms := List (String × Term)

end Fallback.Script
