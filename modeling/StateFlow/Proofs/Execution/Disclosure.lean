import StateFlow.Proofs.DataFlow.CallbackPayload
import StateFlow.Execution.Step

/-!
# What a task discloses to its function

Of what a task with `Parameters` has as its input, its function is told what the selections of the
template come to, and nothing else: two inputs that the selections do not tell apart lead to the
same call, or to the same fault in its place (`TaskState.begin_of_answersAlike`).

The function of a callback task sees the token besides, which is put into the context object after
the state was entered.  What the selections come to may change by that, but it changes alike for
both inputs, because an expression reads either the payload or the context object.

## Main definitions

* `Template.AnswersAlike`: two payloads that the selections of a template do not tell apart
* `TaskState.LeadsTo`: what becomes of a task that begins, the call of its function or a fault
* `TaskState.firstCall`: the same, worked out from the input

## Main results

* `Template.AnswersAlike.of_context`: under one context object, so under every other
* `TaskState.LeadsTo.calls_eq`: what is on record of it
* `TaskState.leadsTo_firstCall`: a task that begins makes its first call
* `TaskState.begin_of_answersAlike`: the function sees of the payload what the template names
-/

namespace StateFlow

/-! ## Payloads that look alike -/

/-- An expression reads the payload or the context object, so payloads that it does not tell apart
under one context object it does not tell apart under another. -/
theorem resolve_congr_context {payload payload' context : Json} {expression : String}
    (h : resolve payload' context expression = resolve payload context expression)
    (context' : Json) :
    resolve payload' context' expression = resolve payload context' expression := by
  unfold resolve at h ⊢
  cases hread : readPath expression with
  | error fault => rfl
  | ok path =>
    rw [hread] at h
    obtain ⟨root, names⟩ := path
    cases root with
    | payload => exact h
    | context => rfl

namespace Template

/-- The selections of a template come to the same for two payloads, fault or value. -/
def AnswersAlike (template context payload payload' : Json) : Prop :=
  ∀ e ∈ selections template, ∀ expression, e.2 = .string expression →
    resolve payload' context expression = resolve payload context expression

namespace AnswersAlike

variable {template context payload payload' : Json}

theorem of_context (h : AnswersAlike template context payload payload') (context' : Json) :
    AnswersAlike template context' payload payload' := by
  intro e he expression hexpression
  exact resolve_congr_context (h e he expression hexpression) context'

theorem select_eq (h : AnswersAlike template context payload payload') :
    ∀ e ∈ selections template,
      select payload' context e.1 e.2 = select payload context e.1 e.2 := by
  intro e he
  obtain ⟨key, entry⟩ := e
  cases entry with
  | string expression => exact h (key, .string expression) he expression rfl
  | _ => rfl

theorem effectiveInput_eq (h : AnswersAlike template context payload payload') :
    effectiveInput payload' context (some template) =
      effectiveInput payload context (some template) :=
  fill_congr_of_selections h.select_eq

theorem callbackPayload_eq (h : AnswersAlike template context payload payload') :
    callbackPayload payload' context (some template) =
      callbackPayload payload context (some template) :=
  callbackPayload_congr h.select_eq

end AnswersAlike

end Template

/-! ## Tasks that begin -/

/-- The function of a state. -/
def Scope.boundTo (scope : Scope) (name : String) : Except Fault Binding :=
  match scope.services.bindings.lookup? scope.identity.machineName name with
  | none => .error (.unboundTask scope.identity.machineName name)
  | some binding => .ok binding

namespace TaskState

/-- What becomes of a task that begins. -/
inductive LeadsTo (task : TaskState) (scope : Scope) (s : Situation) (name : String)
    (input context : Json) : Except Fault Call → Prop
  /-- A function is called.  If there is a token, it was issued before. -/
  | call {call : Call} {before : Situation} {token? : Option String} {deadline? : Option Nat}
      (h : task.begin scope s name input context =
        ((callFunction scope before call.binding call.input call.context).1,
          .working name input (.task ⟨task,
            (callFunction scope before call.binding call.input call.context).2, token?,
            deadline?⟩)))
      (hcalls : before.world.calls = s.world.calls) :
      LeadsTo task scope s name input context (.ok call)
  /-- No function is called. -/
  | fault {fault : Fault} {after : Situation}
      (h : task.begin scope s name input context = (after, .ended (.error fault)))
      (hcalls : after.world.calls = s.world.calls) :
      LeadsTo task scope s name input context (.error fault)

/-- The context object that the function of a task sees, where so many names have been given
out. -/
def sight (task : TaskState) (named : Nat) (context : Json) : Json :=
  if task.isCallback then Context.withToken context (freshName named) else context

/-- The input of the function of a task. -/
def argument (task : TaskState) (effective context : Json) : Except Fault Json :=
  if task.isCallback then Template.callbackPayload effective context task.parameters?
  else Template.effectiveInput effective context task.parameters?

/-- The call that a task begins with, or the fault in its place. -/
def firstCall (task : TaskState) (scope : Scope) (named : Nat) (name : String)
    (input context : Json) : Except Fault Call := do
  let effective ← task.input.project input
  let binding ← scope.boundTo name
  let argument ← task.argument effective (task.sight named context)
  return ⟨binding, argument, task.sight named context⟩

variable {task : TaskState} {scope : Scope} {s : Situation} {name : String}
  {input effective context : Json} {binding : Binding}

/-- The record of calls goes on with the call that was made, if there was one. -/
theorem LeadsTo.calls_eq {outcome : Except Fault Call}
    (h : task.LeadsTo scope s name input context outcome)
    (hhandler : ∀ binding, scope.services.invoker binding ≠ none) :
    (task.begin scope s name input context).1.world.calls =
      s.world.calls ++ outcome.toOption.toList := by
  cases h with
  | @call call before _ _ h hcalls =>
    obtain ⟨handler, hhandler⟩ := Option.ne_none_iff_exists'.mp (hhandler call.binding)
    rw [h, callFunction, hhandler]
    exact congrArg (· ++ [call]) hcalls
  | fault h hcalls =>
    rw [h]
    exact hcalls.trans (List.append_nil _).symm

/-- A task whose function is known is given its input under what it sees. -/
theorem leadsTo_argument (hproject : task.input.project input = .ok effective)
    (hlookup : scope.services.bindings.lookup? scope.identity.machineName name = some binding) :
    task.LeadsTo scope s name input context
      ((task.argument effective (task.sight s.world.named context)).map fun argument =>
        ⟨binding, argument, task.sight s.world.named context⟩) := by
  unfold argument sight
  cases hcallback : task.isCallback with
  | false =>
    have hbegin : task.begin scope s name input context =
        task.beginPlain scope s name input effective context binding := by
      simp only [begin, hproject, hlookup, hcallback, Bool.false_eq_true, if_false]
    unfold beginPlain at hbegin
    simp only [Bool.false_eq_true, if_false]
    cases hargument : Template.effectiveInput effective context task.parameters? with
    | error fault =>
      rw [hargument] at hbegin
      exact .fault hbegin rfl
    | ok argument =>
      rw [hargument] at hbegin
      exact .call hbegin rfl
  | true =>
    have hbegin : task.begin scope s name input context =
        task.beginCallback scope s name input effective context binding := by
      simp only [begin, hproject, hlookup, hcallback, if_true]
    unfold beginCallback at hbegin
    dsimp only [World.issueToken, World.takeName] at hbegin
    simp only [if_true]
    cases hargument : Template.callbackPayload effective
        (Context.withToken context (freshName s.world.named)) task.parameters? with
    | error fault =>
      rw [hargument] at hbegin
      exact .fault hbegin rfl
    | ok argument =>
      rw [hargument] at hbegin
      exact .call hbegin rfl

/-- A task that begins makes its first call, or has the fault in its place. -/
theorem leadsTo_firstCall (task : TaskState) (scope : Scope) (s : Situation) (name : String)
    (input context : Json) : task.LeadsTo scope s name input context
      (task.firstCall scope s.world.named name input context) := by
  unfold firstCall Scope.boundTo
  cases hproject : task.input.project input with
  | error fault =>
    have hbegin : task.begin scope s name input context = (s, .ended (.error fault)) := by
      simp only [begin, hproject]
    exact .fault hbegin rfl
  | ok effective =>
    cases hlookup : scope.services.bindings.lookup? scope.identity.machineName name with
    | none =>
      have hbegin : task.begin scope s name input context =
          (s, .ended (.error (.unboundTask scope.identity.machineName name))) := by
        simp only [begin, hproject, hlookup]
      exact .fault hbegin rfl
    | some binding =>
      exact leadsTo_argument hproject hlookup

theorem argument_congr {template effective' : Json} (hparameters : task.parameters? = some template)
    (h : Template.AnswersAlike template context effective effective') :
    task.argument effective' context = task.argument effective context := by
  unfold argument
  rw [hparameters, h.callbackPayload_eq, h.effectiveInput_eq]

/-- **A function sees of the payload what the template of its task names.**  If a task with
`Parameters` is begun under one context object with two inputs that the selections of its template
do not tell apart, then both times the same call is made, or the same fault comes of it before a
call.  To be the same for a callback task, the context object must hold the same token. -/
theorem begin_of_answersAlike {s' : Situation} {template input' effective' : Json}
    (hparameters : task.parameters? = some template)
    (hproject : task.input.project input = .ok effective)
    (hproject' : task.input.project input' = .ok effective')
    (h : Template.AnswersAlike template context effective effective')
    (hnamed : task.isCallback = true → s'.world.named = s.world.named) :
    ∃ outcome, task.LeadsTo scope s name input context outcome ∧
      task.LeadsTo scope s' name input' context outcome := by
  have hsight : task.sight s'.world.named context = task.sight s.world.named context := by
    unfold sight
    split
    · next hcallback => rw [hnamed hcallback]
    · rfl
  have hargument : task.argument effective' (task.sight s.world.named context) =
      task.argument effective (task.sight s.world.named context) :=
    argument_congr hparameters (h.of_context _)
  have hcall : task.firstCall scope s'.world.named name input' context =
      task.firstCall scope s.world.named name input context := by
    rw [firstCall, firstCall, hproject, hproject', hsight]
    simp only [bind, Except.bind, hargument]
  refine ⟨_, leadsTo_firstCall task scope s name input context, ?_⟩
  rw [← hcall]
  exact leadsTo_firstCall task scope s' name input' context

/-- A callback task that hands on one field of the body, and its token. -/
def narrowTask : TaskState :=
  ⟨none, "f.waitForTaskToken", .path "$.body", some (.object [("FunctionName", .string "f"),
    ("Payload", .object [("a.$", .string "$.x"), ("in", .array [.object
      [("token.$", .string "$$.Task.Token")]])])]), .absent, .absent, none, ⟨none, true⟩⟩

/-- A body with a field that `narrowTask` does not name. -/
def bodyWith (secret : Nat) : Json := .object [("x", .ofNat 5), ("secret", .ofNat secret)]

/-- A scope with one function, which answers with its input. -/
def echoScope : Scope :=
  ⟨.standard (.insert .none "m" "A" ⟨"f", "main"⟩) fun _ =>
    some fun _ input _ => .answer (.ok input), .ofMachine "m" "run" .null default⟩

/-- The call of `narrowTask`, whatever the secret is. -/
def narrowCall (token : String) : Call :=
  ⟨⟨"f", "main"⟩,
    .object [("a", .ofNat 5), ("in", .array [.object [("token", .string token)]])],
    .object [("Task", .object [("Token", .string token)])]⟩

theorem firstCall_narrowTask (named secret : Nat) :
    narrowTask.firstCall echoScope named "A" (.object [("body", bodyWith secret)]) (.object []) =
      .ok (narrowCall (freshName named)) := by
  have hcallback : narrowTask.isCallback = true := by decide +kernel
  have hmachine : echoScope.identity.machineName = "m" := by
    show machineOfId (machineId "m") = "m"
    decide +kernel
  have hlookup : echoScope.services.bindings.lookup? "m" "A" = some ⟨"f", "main"⟩ := by
    decide +kernel
  have hargument : ∀ effective context, narrowTask.argument effective context =
      Template.callbackPayload effective context narrowTask.parameters? :=
    fun _ _ => if_pos hcallback
  unfold firstCall sight Scope.boundTo
  rw [hmachine, hlookup, if_pos hcallback]
  simp only [hargument]
  -- the digits of the name do not matter, and need not be worked out
  generalize freshName named = token
  rfl

/-- Bodies with different secrets lead to the same call.  The token is in it, which was not in the
context object yet when the answers were compared. -/
theorem begin_of_answersAlike_secret :
    (∃ template, narrowTask.parameters? = some template ∧
      Template.AnswersAlike template (.object []) (bodyWith 1) (bodyWith 2)) ∧
    narrowTask.firstCall echoScope 0 "A" (.object [("body", bodyWith 1)]) (.object []) =
      .ok (narrowCall (freshName 0)) ∧
    ∃ outcome, narrowTask.LeadsTo echoScope default "A" (.object [("body", bodyWith 1)])
        (.object []) outcome ∧
      narrowTask.LeadsTo echoScope ⟨default, true, []⟩ "A" (.object [("body", bodyWith 2)])
        (.object []) outcome := by
  have hanswers : Template.AnswersAlike (narrowTask.parameters?.getD .null) (.object [])
      (bodyWith 1) (bodyWith 2) := by
    have hselections : Template.selections (narrowTask.parameters?.getD .null) =
        [("a.$", .string "$.x"), ("token.$", .string "$$.Task.Token")] := rfl
    unfold Template.AnswersAlike
    rw [hselections]
    refine List.forall_mem_cons.mpr ⟨?_, List.forall_mem_singleton.mpr ?_⟩
    · rintro expression ⟨⟩
      rfl
    · rintro expression ⟨⟩
      rfl
  exact ⟨⟨_, rfl, hanswers⟩, firstCall_narrowTask 0 1,
    begin_of_answersAlike rfl rfl rfl hanswers fun _ => rfl⟩

end TaskState

end StateFlow
