import StateFlow.Function.Binding
import StateFlow.Json.Basic
import StateFlow.Timestamp

/-!
# The context object

Every execution has an identity, and every state that runs sees it, with the state's own name and
times, in its context object.  A callback task adds its token, a Map state the item; the object
never enters the payload by itself.
-/

namespace StateFlow

/-- What stands before the name in the identifier of a machine. -/
def machineIdPrefix : String := "arn:aws:states:local:000000000000:stateMachine:"

/-- The identifier of a machine. -/
def machineId (name : String) : String := machineIdPrefix ++ name

/-- The machine that an identifier names: its last segment between colons. -/
def machineOfId (id : String) : String := String.ofList (afterLast ':' id.toList)

/-! ## Fresh names -/

/-- The last `count` hexadecimal digits of a number. -/
def hexDigits (count n : Nat) : List Char :=
  (List.range count).reverse.map fun i => "0123456789abcdef".toList.getD ((n >>> (4 * i)) % 16) '0'

/-- The name with a given number, laid out as a random identifier of version 4.  Numbers below
`16 ^ 30` have different names. -/
def freshName (n : Nat) : String :=
  let ds := hexDigits 30 n
  String.ofList (ds.take 8 ++ '-' :: (ds.drop 8).take 4 ++ '-' :: '4' :: (ds.drop 12).take 3 ++
    '-' :: '8' :: (ds.drop 15).take 3 ++ '-' :: (ds.drop 18).take 12)

/-! ## Identities -/

/-- What all states of an execution have in common. -/
structure Identity where
  executionId : String
  executionName : String
  machineId : String
  input : Json
  started : Timestamp
deriving Repr, Inhabited

namespace Identity

/-- The identity of an execution of a machine under an execution name. -/
def ofMachine (machine executionName : String) (input : Json) (started : Timestamp) : Identity where
  executionId := "arn:aws:states:local:000000000000:execution:" ++ machine ++ ":" ++ executionName
  executionName
  machineId := StateFlow.machineId machine
  input
  started

/-- The machine that the execution runs. -/
def machineName (identity : Identity) : String := machineOfId identity.machineId

end Identity

/-! ## Context objects -/

namespace Context

open Json

/-- The context object of a state. -/
def ofState (identity : Identity) (state : String) (entered : Timestamp) : Json :=
  object [
    ("Execution", object [
      ("Id", string identity.executionId),
      ("Name", string identity.executionName),
      ("Input", identity.input),
      ("StartTime", string identity.started.text)]),
    ("StateMachine", object [
      ("Id", string identity.machineId),
      ("Name", string identity.machineName)]),
    ("State", object [
      ("Name", string state),
      ("EnteredTime", string entered.text)])]

/-- A context object with an entry set. -/
def withEntry (context : Json) (name : String) (value : Json) : Json :=
  match context with
  | .object entries => .object (Entries.insert entries name value)
  | other => other

/-- The context object of a callback task. -/
def withToken (context : Json) (token : String) : Json :=
  withEntry context "Task" (object [("Token", string token)])

/-- The context object under which the input of a Map item is made. -/
def withItem (context : Json) (index : Nat) (value : Json) : Json :=
  withEntry context "Map" (object [("Item", object [("Index", ofNat index), ("Value", value)])])

end Context

end StateFlow
