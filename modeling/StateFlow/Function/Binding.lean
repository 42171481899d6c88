import StateFlow.Entries

/-!
# Function bindings

A binding says where the implementation of a function is: a module and an entry of it.  Bindings are
looked up by machine and state.
-/

namespace StateFlow

/-- Where a function is implemented. -/
structure Binding where
  modulePath : String
  entryName : String
deriving DecidableEq, Repr, Inhabited

/-- What stands before and after the last occurrence of a character. -/
def splitAtLast? (c : Char) (cs : List Char) : Option (List Char × List Char) :=
  let after := cs.reverse.takeWhile (· ≠ c)
  match cs.reverse.drop after.length with
  | [] => none
  | _ :: before => some (before.reverse, after.reverse)

/-- What stands after the last occurrence of a character; the whole text when it has none. -/
def afterLast (c : Char) (cs : List Char) : List Char :=
  (cs.reverse.takeWhile (· ≠ c)).reverse

namespace Binding

/-- Splits a handler such as `path/to/module.entry` at its last point; both sides must be there. -/
def ofHandler? (handler : String) : Option Binding :=
  match splitAtLast? '.' handler.toList with
  | some (c :: cs, d :: ds) => some ⟨String.ofList (c :: cs), String.ofList (d :: ds)⟩
  | _ => none

/-- The handler of a binding. -/
def text (b : Binding) : String := b.modulePath ++ "." ++ b.entryName

end Binding

/-- Bindings by machine and then by state. -/
structure Bindings where
  byMachine : List (String × List (String × Binding))
deriving Repr, Inhabited

namespace Bindings

/-- No binding. -/
def none : Bindings := ⟨[]⟩

/-- The bindings of a machine. -/
def ofMachine (bs : Bindings) (machine : String) : List (String × Binding) :=
  (Entries.get? bs.byMachine machine).getD []

/-- The binding of a state of a machine. -/
def lookup? (bs : Bindings) (machine state : String) : Option Binding :=
  Entries.get? (bs.ofMachine machine) state

/-- Binds a state of a machine, in place of its earlier binding. -/
def insert (bs : Bindings) (machine state : String) (binding : Binding) : Bindings :=
  ⟨Entries.insert bs.byMachine machine (Entries.insert (bs.ofMachine machine) state binding)⟩

/-- The number of states that are bound. -/
def size (bs : Bindings) : Nat := (bs.byMachine.flatMap (·.2)).length

end Bindings

/-! ## Functions behind resources -/

/-- What marks the function in a resource name. -/
def functionMarker : List Char := ":function:".toList

/-- What follows the first occurrence of a word in a text. -/
def afterFirst? (word : List Char) : List Char → Option (List Char)
  | [] => if word.isEmpty then some [] else none
  | c :: cs =>
    if word.isPrefixOf (c :: cs) then some ((c :: cs).drop word.length) else afterFirst? word cs

/-- The function that a resource names: after the marker where there is one, up to a version, and
of that the last segment between hyphens. -/
def functionOfResource (resource : String) : String :=
  let cs := resource.toList
  let unqualified := (afterFirst? functionMarker cs).getD cs
  String.ofList (afterLast '-' (unqualified.takeWhile (· ≠ ':')))

end StateFlow
