import StateFlow.Json.Basic

/-!
# References to functions

Where a resource is written as a reference to a function of the manifest, it is replaced by the name
of that function before the definition is read.  A reference is an object with the name
`Fn::GetAtt`; its value is the name of the function followed by an attribute, as the items of an
array or joined by a point.
-/

namespace StateFlow.Json

/-- The name under which a reference is written. -/
def referenceName : String := "Fn::GetAtt"

/-- The function that a reference is to. -/
def referenced? (resource : Json) : Option String :=
  match resource.field? referenceName with
  | some (.array (.string name :: _)) => some name
  | some (.string dotted) => some (String.ofList (dotted.toList.takeWhile (· ≠ '.')))
  | _ => none

/-- The name of the field that may hold a reference. -/
def resourceName : String := "Resource"

/-- The function that replaces the value under a name. -/
def replacement? (name : String) (value : Json) : Option String :=
  if name = resourceName then value.referenced? else none

mutual

/-- A document with all references to functions replaced, at any depth. -/
def resolveReferences : Json → Json
  | array items => array (resolveItems items)
  | object entries => object (resolveEntries entries)
  | document => document

/-- Items with all references replaced. -/
def resolveItems : List Json → List Json
  | [] => []
  | item :: items => resolveReferences item :: resolveItems items

/-- Entries with all references replaced. -/
def resolveEntries : List (String × Json) → List (String × Json)
  | [] => []
  | (name, value) :: entries =>
    let resolved := match replacement? name value with
      | some function => .string function
      | none => resolveReferences value
    (name, resolved) :: resolveEntries entries

end

end StateFlow.Json
