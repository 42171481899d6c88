import StateFlow.Yaml.Scan
import StateFlow.Yaml.Value

/-!
# Records in documents

A record is written as a mapping, whose fields are read by their names.  A record that is left out
has no fields.
-/

namespace StateFlow.Yaml

/-- The entries of a mapping; a node that is left out has none. -/
def Document.entries (d : Document) (node : Node) : Following (List (Node × Node)) := do
  match ← d.follow node with
  | .mapping _ entries => return entries
  | .scalar _ "" true => return []
  | _ => failure

/-- True of a mapping that has no name twice, and of every other node. -/
def Document.hasDistinctNames (d : Document) (node : Node) : Following Bool := do
  match ← d.follow node with
  | .mapping _ entries => return (← entries.mapM fun e => d.text e.1).Nodup
  | _ => return true

/-- The values under the names of a mapping. -/
def Document.table {α : Type} (d : Document) (read : Node → Following α) (node : Node) :
    Following (List (String × α)) := do
  let pairs ← (← d.entries node).mapM fun (k, v) => do
    let name ← d.text k
    return (name, ← read v)
  return Entries.ofPairs pairs

/-- The fields of a record that have one of some names, each of which may stand there once. -/
def Document.fields (d : Document) (names : List String) (node : Node) :
    Following (List (String × Node)) := do
  let named ← (← d.entries node).mapM fun (k, v) => return (← d.text k, v)
  let known := named.filter fun e => e.1 ∈ names
  if (Entries.keys known).Nodup then return known else failure

/-- The value of a field that must be there. -/
def required {α : Type} (fields : List (String × Node)) (name : String)
    (read : Node → Following α) : Following α := do
  match Entries.get? fields name with
  | some node => read node
  | none => failure

/-- The value of a field that may be left out. -/
def optional {α : Type} (fields : List (String × Node)) (name : String) (absent : α)
    (read : Node → Following α) : Following α := do
  match Entries.get? fields name with
  | some node => read node
  | none => return absent

/-- What a reading makes of a whole document. -/
def Document.readAll? {α : Type} (d : Document) (read : Document → Following α) : Option α :=
  ((read d).run d.patience).map (·.1)

/-- The document that a text writes. -/
def Document.ofText? (text : String) : Option Document := do ofTokens? (← tokens? text)

end StateFlow.Yaml
