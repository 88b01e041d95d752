import TickScript.Builtin
import TickScript.Field
/-!
# Specifications as data

A builtin's specification read from data, for builtins that are described outside of this
library.

* `Spec.ofValue?`: a specification from data.
-/

namespace TickScript

def ParamKind.ofName? (s : String) : Option ParamKind := ParamKind.all.find? (·.name == s)

def BuiltinKind.ofName? (s : String) : Option BuiltinKind := BuiltinKind.all.find? (·.name == s)

theorem ParamKind.ofName?_name (k : ParamKind) : ofName? k.name = some k := by
  cases k <;> decide

theorem BuiltinKind.ofName?_name (k : BuiltinKind) : ofName? k.name = some k := by
  cases k <;> decide

/-- A parameter from data; only the name must be there. -/
def Param.ofValue? (v : Value) : Option Param := do
  let fields ← Field.object? v
  let name ← Field.need fields "name" Field.text?
  let kind ← Field.get fields "kind" .value fun v => Field.text? v >>= ParamKind.ofName?
  let description ← Field.get fields "description" "" Field.text?
  let required ← Field.get fields "required" true Field.bool?
  return { name, kind, description, required }

/-- A specification from data; name and description must be there. -/
def Spec.ofValue? (v : Value) : Option Spec := do
  let fields ← Field.object? v
  let name ← Field.need fields "name" Field.text?
  let kind ← Field.get fields "kind" .predicate fun v => Field.text? v >>= BuiltinKind.ofName?
  let description ← Field.need fields "description" Field.text?
  let parameters ← Field.get fields "parameters" [] fun v => do
    (← Field.list? v).mapM Param.ofValue?
  let variadic ← Field.get fields "variadic" false Field.bool?
  return { name, kind, description, parameters, variadic }

end TickScript
