import StateFlow.Machine.Codec
import StateFlow.Yaml.Record

/-!
# Definitions as texts

A definition that is written as a text of its own is read field by field: names and the comment are
texts whatever they look like, and the states are documents.
-/

namespace StateFlow.Machine

open Yaml

/-- A field that a plain null leaves out. -/
def readPresent {α : Type} (d : Document) (read : Node → Following α) (node : Node) :
    Following (Option α) := do
  match ← d.follow node with
  | .scalar none text true => if Plain.isNull text then return none else return some (← read node)
  | _ => return some (← read node)

/-- A count of 64 bits. -/
def readTimeout (d : Document) (node : Node) : Following Nat := do
  match ← d.follow node with
  | .scalar _ text true =>
    match Plain.integer? text.toList with
    | some n =>
      if text.toList.head? ≠ some '-' ∧ 0 ≤ n ∧ n ≤ greatestCount64 then return n.toNat else failure
    | none => failure
  | _ => failure

/-- A state, two collections inside the document.  It names each of its fields once. -/
def readState (d : Document) (node : Node) : Following State := do
  let document ← d.value (Document.greatestDepth - 2) node
  if !(← d.hasDistinctNames node) then failure
  match State.read document with
  | .ok state => return state
  | .error _ => failure

/-- The definition of a document. -/
def ofDocument (d : Document) : Following Machine := do
  let fs ← d.fields ["Comment", "StartAt", "States", "TimeoutSeconds"] d.root
  let comment? ← optional fs "Comment" none (readPresent d d.text)
  let startAt ← required fs "StartAt" d.text
  let states ← required fs "States" (d.table (readState d))
  let timeout? ← optional fs "TimeoutSeconds" none (readPresent d (readTimeout d))
  return ⟨comment?, startAt, states, timeout?⟩

/-- The definition of a text. -/
def ofText? (text : String) : Option Machine := do (← Document.ofText? text).readAll? ofDocument

end StateFlow.Machine
