import StateFlow.Function.Binding
import StateFlow.Token.Registry

/-!
# What functions do

A function that is called takes some steps and then answers, or never does, or panics.  Between its
steps other work may run, so a behaviour is a list of steps and not an answer alone.  A handler
makes a behaviour of the input and the context object of a call and of the number of calls made
before.
-/

namespace StateFlow

/-- The steps of a call. -/
inductive Behaviour where
  /-- Returns a result, or fails with a message. -/
  | answer (outcome : Except String Json)
  /-- Sleeps for a number of milliseconds. -/
  | pause (milliseconds : Nat) (rest : Behaviour)
  /-- Requests the cancellation of the execution that made the call. -/
  | cancel (rest : Behaviour)
  /-- Reports for a token; a refused report fails the call. -/
  | settle (token : String) (settlements : List Settlement) (rest : Behaviour)
  /-- Leaves a report for a token to be made later; it does not matter whether it is refused. -/
  | settleLater (milliseconds : Nat) (token : String) (settlements : List Settlement)
      (rest : Behaviour)
  /-- Never answers. -/
  | hang
  /-- Panics; the runtime reports the text. -/
  | panic (report : String)
deriving Inhabited

/-- An implementation of a function. -/
abbrev Handler := (earlierCalls : Nat) → (input context : Json) → Behaviour

namespace Behaviour

/-- True when every path through the steps ends in an answer. -/
def Answers : Behaviour → Prop
  | answer _ => True
  | pause _ rest | cancel rest | settle _ _ rest | settleLater _ _ _ rest => rest.Answers
  | hang | panic _ => False

end Behaviour

/-- What runs the function behind a binding, if anything does. -/
abbrev Invoker := Binding → Option Handler

namespace Invoker

/-- Handlers by binding; the last one given for a binding counts. -/
def ofHandlers (handlers : List (Binding × Handler)) : Invoker :=
  fun binding => (handlers.reverse.find? (·.1 = binding)).map (·.2)

/-- The message of a call for which there is no handler. -/
def missingMessage (binding : Binding) : String :=
  s!"no in-process handler registered for '{binding.text}'"

end Invoker

end StateFlow
