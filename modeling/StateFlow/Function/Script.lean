import StateFlow.DataFlow.Template
import StateFlow.Function.Behaviour

/-!
# Scripted functions

A script is a stand-in for a function, written as a document: how long it takes, what it reports for
the token of its task, and what it answers.
-/

namespace StateFlow

/-- What a scripted function does in the end. -/
inductive ScriptEnding where
  | hang
  /-- Fails with a chain of messages, the root cause first. -/
  | failure (chain : List String)
  | value (value : Json)
  /-- The n-th value for the n-th call; the last one repeats. -/
  | values (values : List Json)
  /-- The value of an expression, of the input or the context object. -/
  | path (expression : String)
  /-- A template filled from the input and the context object. -/
  | template (template : Json)
  | echo
deriving Repr, Inhabited

/-- When a scripted function goes on after it was called. -/
inductive ScriptDelay where
  | milliseconds (count : Nat)
  /-- The whole number at a path of the input. -/
  | path (expression : String)
deriving Repr, Inhabited

/-- A scripted function. -/
structure Script where
  delay? : Option ScriptDelay
  cancels : Bool
  settlements : List Settlement
  /-- Reports are left for later, by so many milliseconds. -/
  after? : Option Nat
  ending : ScriptEnding
deriving Repr, Inhabited

namespace Script

/-- The whole number of a document. -/
def wholeNumber? (document : Json) : Option Nat := document.number?.bind Number.toUnsigned?

/-- The reports that a script or a step makes, in order. -/
def readSettlements (script : Json) : List Settlement :=
  ((script.field? "success").map Settlement.success).toList ++
  ((script.field? "failure").map fun failure =>
    .failure (((failure.field? "error").bind Json.string?).getD "")
      ((failure.field? "cause").bind Json.string?)).toList ++
  ((script.field? "revoke").map fun _ => Settlement.revoke).toList

/-- How a script ends; the first of the possible entries counts. -/
def readEnding (script : Json) : ScriptEnding :=
  if (script.field? "hang").isSome then .hang
  else match script.field? "error" with
  | some chain => .failure ((chain.items?.getD []).filterMap Json.string?)
  | none =>
    match script.field? "return" with
    | some value => .value value
    | none =>
      match script.field? "returns" with
      | some values => .values (values.items?.getD [])
      | none =>
        match (script.field? "path").bind Json.string? with
        | some expression => .path expression
        | none =>
          match script.field? "template" with
          | some template => .template template
          | none => .echo

/-- The script that a document writes. -/
def read (script : Json) : Script where
  delay? :=
    match (script.field? "delay_ms").bind wholeNumber? with
    | some count => some (.milliseconds count)
    | none => ((script.field? "delay_ms_path").bind Json.string?).map .path
  cancels := (script.field? "cancel").isSome
  settlements := readSettlements script
  after? := (script.field? "after_ms").bind wholeNumber?
  ending := readEnding script

/-- The token that a context object holds. -/
def tokenOf? (context : Json) : Option String :=
  ((context.field? "Task").bind (·.field? "Token")).bind Json.string?

/-- An outcome of reading a payload as the outcome of a call. -/
def answerOf : Except Fault Json → Behaviour
  | .ok value => .answer (.ok value)
  | .error fault => .answer (.error fault.message)

/-- The last steps of a call. -/
def finish (ending : ScriptEnding) (earlierCalls : Nat) (input context : Json) : Behaviour :=
  match ending with
  | .hang => .hang
  | .failure chain => .answer (.error (": ".intercalate chain.reverse))
  | .value value => .answer (.ok value)
  | .values values =>
    .answer (.ok ((values[earlierCalls]? <|> values.getLast?).getD .null))
  | .path expression => answerOf (resolve input context expression)
  | .template template => answerOf (Template.fill input context template)
  | .echo => .answer (.ok input)

/-- The reports of a call, before its last steps. -/
def report (script : Script) (context : Json) (rest : Behaviour) : Behaviour :=
  if script.settlements.isEmpty then rest
  else match tokenOf? context, script.after? with
  | none, _ => rest
  | some token, none => .settle token script.settlements rest
  | some token, some delay => .settleLater delay token script.settlements rest

/-- The delay of a call, in milliseconds. -/
def delayOf (input context : Json) : ScriptDelay → Nat
  | .milliseconds count => count
  | .path expression =>
    match resolve input context expression with
    | .ok value => (wholeNumber? value).getD 0
    | .error _ => 0

/-- The handler of a script. -/
def handler (script : Script) : Handler := fun earlierCalls input context =>
  let ending := finish script.ending earlierCalls input context
  let reported := script.report context ending
  let cancelled := if script.cancels then .cancel reported else reported
  match script.delay? with
  | some delay => .pause (delayOf input context delay) cancelled
  | none => cancelled

end Script

end StateFlow
