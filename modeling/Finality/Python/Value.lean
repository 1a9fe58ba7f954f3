import Mathlib.Data.List.AList
import Finality.Python.Text

/-!
# Python values and exceptions

The values that reach the canonical encoder (`PyVal`), the dictionaries with string keys that the
reference implementation keeps its tables in (`PyDict`), and the exceptions it raises (`PyErr`).

A value is a finite tree. Outside the model are subclasses of `dict`, `list` and the other built-in
types, with methods of their own, values that contain themselves, and the `RecursionError` for a
value nested deeper than the call stack: where the stack ends depends on the caller and on the
version of the interpreter.
-/

namespace Finality

/-- The exceptions of the reference implementation, with the message they are raised with. -/
inductive PyErr where
  | canonicalizationError (message : PyStr)
  | valueError (message : PyStr)
  | typeError (message : PyStr)
  | runtimeError (message : PyStr)
  | osError (message : PyStr)
  | validationDenied (message : PyStr)
  | verificationFailed (message : PyStr)
  | replayDetected (message : PyStr)
  | effectDenied (message : PyStr)
  | evidenceError (message : PyStr)
  deriving DecidableEq

/-- `str(exc)` -/
def PyErr.message : PyErr → PyStr
  | .canonicalizationError m => m
  | .valueError m => m
  | .typeError m => m
  | .runtimeError m => m
  | .osError m => m
  | .validationDenied m => m
  | .verificationFailed m => m
  | .replayDetected m => m
  | .effectDenied m => m
  | .evidenceError m => m

/-- An object of which nothing is read but the name of its type, whether it is a class whose
instances are dataclasses, and whether `copy.deepcopy` copies it (as a key of a dictionary: into a
key). -/
structure PyObject where
  typeName : PyStr
  isDataclassType : Bool
  copyable : Bool
  deriving DecidableEq

/-- A dictionary key: a string, or an object of another type. -/
inductive PyKey where
  | str (s : PyStr)
  | other (o : PyObject)
  deriving DecidableEq

/-- The values that `_normalize` tells apart. A float is read nowhere beyond its type, and a
dataclass instance is the list of its fields under their names. -/
inductive PyVal where
  | none
  | bool (b : Bool)
  | int (i : Int)
  | float (value : Option Rat)
  | str (s : PyStr)
  | bytes (data : List UInt8)
  | list (items : List PyVal)
  | tuple (items : List PyVal)
  | dict (entries : List (PyKey × PyVal))
  | dataclass (fields : List (PyKey × PyVal))
  | other (o : PyObject)

/-- A dictionary with string keys. The position of an entry is not modelled where a table is only
looked up in. -/
abbrev PyDict (V : Type) := AList fun _ : PyStr => V

/-- `{k: v for k, v in d.items() if p(k)}` -/
def PyDict.filterKeys {V : Type} (p : PyStr → Bool) (d : PyDict V) : PyDict V where
  entries := d.entries.filter fun e => p e.1
  nodupKeys := d.nodupKeys.sublist List.filter_sublist

/-- A dictionary of the source as a value. -/
def PyDict.toVal (d : PyDict PyVal) : PyVal :=
  .dict (d.entries.map fun e => (.str e.1, e.2))

/-- A dictionary display `{"k": v, ...}` of the source. -/
def PyVal.ofEntries (es : List (String × PyVal)) : PyVal :=
  .dict (es.map fun e => (.str (py e.1), e.2))

/-- The instance of a dataclass with the given fields. -/
def PyVal.ofFields (es : List (String × PyVal)) : PyVal :=
  .dataclass (es.map fun e => (.str (py e.1), e.2))

/-- A list or tuple of strings. -/
def strs (ss : List PyStr) : List PyVal :=
  ss.map .str

end Finality
