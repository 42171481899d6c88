import StateFlow.Proofs.Manifest.Bindings
import StateFlow.Proofs.Manifest.WrittenTasks

/-!
# The functions that references are bound to

Where the resource of a Task state is a reference, it is replaced by the name of the function, and
that name is then read like any other resource: what follows its last hyphen is the function.  So a
reference is bound to the function that it names exactly when reading the name as a resource keeps
it, that is, when the name has no hyphen and no colon, and no point where the reference is written
with one.

## Main definitions

* `ReferenceForm`: the two ways to write a reference, and the functions that each of them keeps
* `Declarations.Refers`: the Task states of a manifest whose resource is a reference

## Main results

* `functionOfResource_eq_self_iff`: the resources that are the names of their functions
* `Manifest.cause_of_error`: where the error of declarations comes from
* `Manifest.bound_by_reference`: what a reference is bound to, and what a manifest is not rejected
  for
-/

namespace StateFlow

open Json

/-! ## The function of a resource -/

theorem afterLast_subset (c : Char) (cs : List Char) : afterLast c cs ⊆ cs := by
  intro x hx
  rw [afterLast, List.mem_reverse] at hx
  exact List.mem_reverse.mp (List.takeWhile_subset _ hx)

theorem not_mem_takeWhile_ne (c : Char) (cs : List Char) : c ∉ cs.takeWhile (· ≠ c) := by
  intro h
  simpa using List.mem_takeWhile_imp h

theorem not_mem_afterLast (c : Char) (cs : List Char) : c ∉ afterLast c cs := by
  rw [afterLast, List.mem_reverse]
  exact not_mem_takeWhile_ne c _

theorem afterFirst?_subset {word : List Char} {cs rest : List Char}
    (h : afterFirst? word cs = some rest) : rest ⊆ cs := by
  induction cs with
  | nil =>
    rw [afterFirst?] at h
    split at h <;> cases h
    exact List.Subset.refl _
  | cons c cs ih =>
    rw [afterFirst?] at h
    split at h
    · cases h
      exact List.drop_subset _ _
    · exact List.subset_cons_of_subset _ (ih h)

/-- A word is not found in a text that lacks one of its letters. -/
theorem afterFirst?_eq_none {word : List Char} {c : Char} (hword : c ∈ word) {cs : List Char}
    (hcs : c ∉ cs) : afterFirst? word cs = none := by
  induction cs with
  | nil =>
    rw [afterFirst?, if_neg]
    intro hempty
    rw [List.isEmpty_iff.mp hempty] at hword
    cases hword
  | cons d ds ih =>
    rw [afterFirst?, if_neg]
    · exact ih fun h => hcs (List.mem_cons_of_mem _ h)
    · intro hfound
      exact hcs ((List.isPrefixOf_iff_prefix.mp hfound).subset hword)

theorem functionOfResource_subset (resource : String) :
    (functionOfResource resource).toList ⊆ resource.toList := by
  rw [functionOfResource, String.toList_ofList]
  refine List.Subset.trans (afterLast_subset _ _) (List.Subset.trans (List.takeWhile_subset _) ?_)
  cases h : afterFirst? functionMarker resource.toList with
  | none => exact List.Subset.refl _
  | some rest => exact afterFirst?_subset h

theorem not_mem_functionOfResource (resource : String) :
    '-' ∉ (functionOfResource resource).toList ∧ ':' ∉ (functionOfResource resource).toList := by
  rw [functionOfResource, String.toList_ofList]
  exact ⟨not_mem_afterLast _ _, fun h => not_mem_takeWhile_ne ':' _ (afterLast_subset _ _ h)⟩

/-- **A resource is the name of its function exactly when it has no hyphen and no colon.** -/
theorem functionOfResource_eq_self_iff (resource : String) :
    functionOfResource resource = resource ↔
      '-' ∉ resource.toList ∧ ':' ∉ resource.toList := by
  constructor
  · intro h
    have hnot := not_mem_functionOfResource resource
    rwa [h] at hnot
  · rintro ⟨hhyphen, hcolon⟩
    have htake : resource.toList.takeWhile (· ≠ ':') = resource.toList := by
      refine List.takeWhile_eq_self_iff.mpr fun x hx => decide_eq_true fun heq => ?_
      exact hcolon (heq ▸ hx)
    rw [functionOfResource, afterFirst?_eq_none (by decide) hcolon, Option.getD_none, htake,
      (afterLast_eq_self_iff _ _).mpr hhyphen, String.ofList_toList]

/-! ## References -/

/-- The ways to write a reference to a function. -/
inductive ReferenceForm where
  | items
  /-- One text, in which a point follows the function. -/
  | dotted
deriving DecidableEq

namespace ReferenceForm

variable {form : ReferenceForm} {function : String}

/-- What is written for a reference to a function. -/
def write : ReferenceForm → String → Json
  | items, function => .array [.string function, .string "Arn"]
  | dotted, function => .string (function ++ ".Arn")

/-- The resource that replaces a reference to a function. -/
def resource : ReferenceForm → String → String
  | items, function => function
  | dotted, function => String.ofList (function.toList.takeWhile (· ≠ '.'))

/-- The functions whose names are kept when a reference to them is read as a resource. -/
structure Keeps (form : ReferenceForm) (function : String) : Prop where
  hyphen : '-' ∉ function.toList
  colon : ':' ∉ function.toList
  point : form = dotted → '.' ∉ function.toList

theorem referenced?_of_write {resource : Json}
    (h : resource.field? referenceName = some (form.write function)) :
    resource.referenced? = some (form.resource function) := by
  rw [referenced?, h]
  cases form with
  | items => rfl
  | dotted =>
    have htake : (function ++ ".Arn").toList.takeWhile (· ≠ '.') =
        function.toList.takeWhile (· ≠ '.') := by
      rw [String.toList_append, List.takeWhile_append]
      split
      · next hall =>
        rw [(List.takeWhile_prefix _).eq_of_length hall]
        exact List.append_nil _
      · rfl
    exact congrArg (fun cs => some (String.ofList cs)) htake

theorem Keeps.resource_eq (h : form.Keeps function) : form.resource function = function := by
  cases form with
  | items => rfl
  | dotted =>
    have htake : function.toList.takeWhile (· ≠ '.') = function.toList := by
      refine List.takeWhile_eq_self_iff.mpr fun x hx => decide_eq_true fun heq => ?_
      exact h.point rfl (heq ▸ hx)
    rw [resource, htake, String.ofList_toList]

theorem not_mem_resource_dotted (function : String) :
    '.' ∉ (dotted.resource function).toList := by
  rw [resource, String.toList_ofList]
  exact not_mem_takeWhile_ne '.' _

end ReferenceForm

namespace TaskState

variable {task : TaskState} {form : ReferenceForm} {function : String}

/-- A task waits for a token only where its resource has a point. -/
theorem isCallback_eq_false (h : '.' ∉ task.resource.toList) : task.isCallback = false := by
  rw [isCallback, Bool.eq_false_iff]
  intro hsuffix
  exact h ((List.isSuffixOf_iff_suffix.mp hsuffix).subset (by decide))

/-- A task with a reference to a function names that function where its name is kept. -/
theorem functionName_of_keeps (hresource : task.resource = form.resource function)
    (hkeeps : form.Keeps function) (hsuffix : ¬ callbackSuffix.toList <:+ function.toList) :
    task.functionName = .ok function := by
  rw [hkeeps.resource_eq] at hresource
  have hcallback : task.isCallback = false := by
    rw [isCallback, hresource, Bool.eq_false_iff]
    exact fun h => hsuffix (List.isSuffixOf_iff_suffix.mp h)
  rw [functionName, hcallback, hresource,
    (functionOfResource_eq_self_iff function).mpr ⟨hkeeps.hyphen, hkeeps.colon⟩]
  rfl

/-- What a task names is the function of some resource, its own where it does not wait. -/
theorem exists_of_functionName (h : task.functionName = .ok function) :
    ∃ resource, function = functionOfResource resource ∧
      (task.isCallback = false → resource = task.resource) := by
  unfold functionName at h
  split at h
  · next hcallback =>
    split at h
    · next resource _ =>
      cases h
      exact ⟨resource, rfl, fun hno => by rw [hcallback] at hno; cases hno⟩
    · cases h
    · cases h
  · cases h
    exact ⟨task.resource, rfl, fun _ => rfl⟩

/-- A task with a reference names the function that is referred to only if its name is kept. -/
theorem keeps_of_functionName (hresource : task.resource = form.resource function)
    (h : task.functionName = .ok function) : form.Keeps function := by
  obtain ⟨resource, hfunction, hown⟩ := exists_of_functionName h
  have hnot := not_mem_functionOfResource resource
  rw [← hfunction] at hnot
  refine ⟨hnot.1, hnot.2, ?_⟩
  rintro rfl hpoint
  have hnone : '.' ∉ task.resource.toList := by
    rw [hresource]
    exact ReferenceForm.not_mem_resource_dotted function
  rw [hfunction, hown (isCallback_eq_false hnone)] at hpoint
  exact hnone (functionOfResource_subset _ hpoint)

end TaskState

/-- A manifest declares a machine in which a Task state, at any depth of Map states, has a reference
to a function for its resource. -/
def Declarations.Refers (d : Declarations) (machine state : String) (form : ReferenceForm)
    (function : String) : Prop :=
  ∃ definition resource, (machine, definition) ∈ d.definitions ∧
    definition.WritesTask state resource ∧
    resource.field? referenceName = some (form.write function)

/-! ## Where errors come from -/

namespace Manifest

theorem cause_of_bindingOf {handlers : List (String × String)} {machine state : String}
    {task : TaskState} {e : ManifestError} (h : bindingOf handlers machine state task = .error e) :
    (∃ flaw, e = .unnamed machine state flaw) ∨
      (∃ function, e = .undeclared machine state function) ∨
      ∃ function handler, e = .handler function handler ∧
        Entries.get? handlers function = some handler ∧ Binding.ofHandler? handler = none := by
  unfold bindingOf at h
  cases hname : task.functionName with
  | error flaw =>
    rw [hname] at h
    cases h
    exact .inl ⟨flaw, rfl⟩
  | ok function =>
    rw [hname] at h
    dsimp only [Except.mapError, bind, Except.bind] at h
    split at h
    · cases h
      exact .inr (.inl ⟨function, rfl⟩)
    · next handler hhandler =>
      split at h
      · next hsplit =>
        cases h
        exact .inr (.inr ⟨function, handler, rfl, hhandler, hsplit⟩)
      · cases h

theorem cause_of_bindTasks {handlers : List (String × String)} {machine : String}
    (tasks : List (String × TaskState)) (bindings : Bindings) :
    FailsOnly (fun e => ∃ t ∈ tasks, bindingOf handlers machine t.1 t.2 = .error e)
      (bindTasks handlers machine bindings tasks) := by
  induction tasks generalizing bindings with
  | nil => exact .ok _
  | cons t rest ih =>
    obtain ⟨state, task⟩ := t
    rw [bindTasks]
    refine .bind (fun e he => ⟨_, List.mem_cons_self, he⟩) fun b => ?_
    refine (ih _).mono fun e he => ?_
    obtain ⟨t, ht, he⟩ := he
    exact ⟨t, List.mem_cons_of_mem _ ht, he⟩

end Manifest

/-- The errors of options and of whole definitions. -/
def ManifestError.OfWhole : ManifestError → Prop
  | options _ | definition _ _ | invalid _ _ => True
  | _ => False

namespace Manifest

variable {d : Declarations}

/-- A task of the machine of some definition cannot be bound. -/
def CannotBind (handlers : List (String × String)) (definitions : List (String × Json))
    (e : ManifestError) : Prop :=
  ∃ p ∈ definitions, ∃ machine, readMachine p.1 p.2 = .ok machine ∧
    ∃ t ∈ machine.tasks, bindingOf handlers p.1 t.1 t.2 = .error e

theorem cause_of_readMachine (name : String) (definition : Json) :
    FailsOnly ManifestError.OfWhole (readMachine name definition) := by
  refine .bind (.mapError fun error _ => trivial) fun m => ?_
  split
  · exact .ok _
  · exact .error trivial

theorem cause_of_readMachines {handlers : List (String × String)}
    (definitions : List (String × Json)) (bindings : Bindings) :
    FailsOnly (fun e => e.OfWhole ∨ CannotBind handlers definitions e)
      (readMachines handlers definitions bindings) := by
  induction definitions generalizing bindings with
  | nil => exact .ok _
  | cons p rest ih =>
    obtain ⟨name, definition⟩ := p
    rw [readMachines]
    cases hread : readMachine name definition with
    | error e => exact .error (.inl (cause_of_readMachine name definition e hread))
    | ok machine =>
      refine .bind (x := bindTasks handlers name bindings machine.tasks) ?_ fun bindings' => ?_
      · exact (cause_of_bindTasks _ _).mono fun e he =>
          .inr ⟨_, List.mem_cons_self, machine, hread, he⟩
      · refine .bind ((ih _).mono fun e he => he.imp_right ?_) fun _ => .ok _
        rintro ⟨p, hp, he⟩
        exact ⟨p, List.mem_cons_of_mem _ hp, he⟩

/-- **Where the error of declarations comes from**: the options, a whole definition, or a task that
cannot be bound. -/
theorem cause_of_error {e : ManifestError} (h : ofDeclarations d = .error e) :
    e.OfWhole ∨ CannotBind d.handlers d.definitions e := by
  have hfails : FailsOnly (fun e => e.OfWhole ∨ CannotBind d.handlers d.definitions e)
      (ofDeclarations d) := by
    refine .bind ?_ fun options => .bind (cause_of_readMachines _ _) fun _ => .ok _
    unfold readOptions
    split
    · exact .ok _
    · exact .mapError fun error _ => .inl trivial
  exact hfails e h

/-- A manifest that is rejected for a task was not able to bind that task. -/
theorem bindingOf_of_error {e : ManifestError} {name state : String}
    (h : ofDeclarations d = .error e)
    (he : (∃ flaw, e = .unnamed name state flaw) ∨
      ∃ function, e = .undeclared name state function) :
    ∃ definition machine task, (name, definition) ∈ d.definitions ∧
      readMachine name definition = .ok machine ∧ machine.HasTask state task ∧
      bindingOf d.handlers name state task = .error e := by
  rcases cause_of_error h with
    hwhole | ⟨⟨name', definition⟩, hdefinition, machine, hmachine, ⟨state', task⟩, htask, hbinding⟩
  · rcases he with ⟨_, rfl⟩ | ⟨_, rfl⟩ <;> exact hwhole.elim
  have hnames : name' = name ∧ state' = state := by
    rcases cause_of_bindingOf hbinding with ⟨_, rfl⟩ | ⟨_, rfl⟩ | ⟨_, _, rfl, -⟩ <;>
      rcases he with ⟨_, heq⟩ | ⟨_, heq⟩ <;> cases heq <;> exact ⟨rfl, rfl⟩
  obtain ⟨rfl, rfl⟩ := hnames
  exact ⟨definition, machine, task, hdefinition, hmachine, Machine.mem_tasks_iff_hasTask.mp htask,
    hbinding⟩

/-- A manifest that is rejected for the handler of a function has one that does not split. -/
theorem handler_of_error {function handler : String}
    (h : ofDeclarations d = .error (.handler function handler)) :
    Entries.get? d.handlers function = some handler ∧ Binding.ofHandler? handler = none := by
  rcases cause_of_error h with hwhole | ⟨_, -, _, -, _, -, hbinding⟩
  · exact hwhole.elim
  rcases cause_of_bindingOf hbinding with ⟨_, heq⟩ | ⟨_, heq⟩ | ⟨_, _, heq, hget, hsplit⟩
  · cases heq
  · cases heq
  · cases heq
    exact ⟨hget, hsplit⟩

/-! ## What references are bound to -/

variable {text name state function : String} {form : ReferenceForm}

/-- The task that is read of a state with a reference has the function for its resource. -/
theorem exists_task_of_reference {definition resource : Json} {machine : Machine}
    (hwell : definition.WellFormed)
    (hread : Machine.read definition.resolveReferences = .ok machine)
    (htask : definition.WritesTask state resource)
    (hreference : resource.field? referenceName = some (form.write function)) :
    ∃ task, machine.HasTask state task ∧ task.resource = form.resource function := by
  obtain ⟨task, hhas, hresource⟩ := htask.exists_task hwell hread
  refine ⟨task, hhas, ?_⟩
  rw [resolvedValue, replacement?, if_pos rfl,
    ReferenceForm.referenced?_of_write hreference] at hresource
  exact (Except.ok.inj hresource).symm

/-- A state with a reference is bound to the handler of the function that its task names. -/
theorem lookup?_of_reference {m : Manifest} (hd : Declarations.read? text = some d)
    (hrefers : d.Refers name state form function) (hm : Manifest.read text = .ok m) :
    ∃ machine task named handler b, (name, machine) ∈ m.machines ∧ machine.HasTask state task ∧
      task.resource = form.resource function ∧ task.functionName = .ok named ∧
      Entries.get? d.handlers named = some handler ∧ b.Splits handler ∧
      m.bindings.lookup? name state = some b := by
  obtain ⟨definition, resource, hdefinition, hwrites, hreference⟩ := hrefers
  obtain ⟨d', hd', hmachines⟩ := exists_declarations_of_read hm
  obtain rfl : d = d' := Option.some.inj (hd.symm.trans hd')
  obtain ⟨d', hd', hloaded⟩ := loaded_of_read hm
  obtain rfl : d = d' := Option.some.inj (hd.symm.trans hd')
  obtain ⟨⟨_, machine⟩, hmachine, rfl, hmakes⟩ := exists_of_forall₂_of_mem hmachines hdefinition
  have hwell := Declarations.wellFormed_definitions hd _ hdefinition
  obtain ⟨task, htask, hresource⟩ := exists_task_of_reference hwell hmakes.read hwrites hreference
  obtain ⟨b, hbinding, hlookup⟩ :=
    hloaded.lookup?_of_task hmachine (Machine.mem_tasks_iff_hasTask.mpr htask)
  obtain ⟨named, handler, hnamed, hhandler, hsplits⟩ := bindingOf_eq_ok_iff.mp hbinding
  exact ⟨machine, task, named, handler, b, hmachine, htask, hresource, hnamed, hhandler, hsplits,
    hlookup⟩

/-- A state with a reference to a function whose name is kept can be bound in whatever machine is
read for it. -/
theorem bindingOf_of_reference {definition : Json} {machine : Machine} {task : TaskState}
    {handler : String} {b : Binding} (hd : Declarations.read? text = some d)
    (hrefers : d.Refers name state form function) (hkeeps : form.Keeps function)
    (hsuffix : ¬ TaskState.callbackSuffix.toList <:+ function.toList)
    (hhandler : Entries.get? d.handlers function = some handler) (hsplits : b.Splits handler)
    (hdefinition : (name, definition) ∈ d.definitions)
    (hmachine : readMachine name definition = .ok machine) (htask : machine.HasTask state task) :
    bindingOf d.handlers name state task = .ok b := by
  obtain ⟨definition', resource, hdefinition', hwrites, hreference⟩ := hrefers
  have hnodup := Declarations.nodup_definitions hd
  obtain rfl : definition = definition' := Option.some.inj <|
    (Entries.get?_of_mem hnodup hdefinition).symm.trans (Entries.get?_of_mem hnodup hdefinition')
  obtain ⟨hread, hvalid⟩ := readMachine_eq_ok_iff.mp hmachine
  have hwell := Declarations.wellFormed_definitions hd _ hdefinition
  obtain ⟨task', htask', hresource⟩ := exists_task_of_reference hwell hread hwrites hreference
  -- no two tasks of a valid machine have one name, so this is the one with the reference
  have htasks := Machine.nodup_tasks hvalid
  rw [← Machine.mem_tasks_iff_hasTask] at htask htask'
  obtain rfl : task = task' := Option.some.inj <|
    (Entries.get?_of_mem htasks htask).symm.trans (Entries.get?_of_mem htasks htask')
  exact bindingOf_eq_ok_iff.mpr ⟨function, handler,
    TaskState.functionName_of_keeps hresource hkeeps hsuffix, hhandler, hsplits⟩

/-- **What a reference is bound to.**  In an accepted manifest, a Task state with a reference to a
function is bound to the handler of the function that its task names.  That is the function that is
referred to only if its name is kept, and it is if moreover the name does not end like a resource
that waits for a token.  A manifest is then not rejected for the state, nor for its function. -/
theorem bound_by_reference (hd : Declarations.read? text = some d)
    (hrefers : d.Refers name state form function) :
    (∀ m, Manifest.read text = .ok m →
      ∃ machine task named handler b, (name, machine) ∈ m.machines ∧ machine.HasTask state task ∧
        task.functionName = .ok named ∧ Entries.get? d.handlers named = some handler ∧
        b.Splits handler ∧ m.bindings.lookup? name state = some b ∧
        (named = function → form.Keeps function) ∧
        (form.Keeps function → ¬ TaskState.callbackSuffix.toList <:+ function.toList →
          named = function)) ∧
    (form.Keeps function → ¬ TaskState.callbackSuffix.toList <:+ function.toList →
      (∃ handler b, Entries.get? d.handlers function = some handler ∧ Binding.Splits b handler) →
      ∀ e, Manifest.read text = .error e →
        (∀ flaw, e ≠ .unnamed name state flaw) ∧ (∀ other, e ≠ .undeclared name state other) ∧
        ∀ handler, e ≠ .handler function handler) := by
  constructor
  · intro m hm
    obtain ⟨machine, task, named, handler, b, hmachine, htask, hresource, hnamed, hhandler, hsplits,
      hlookup⟩ := lookup?_of_reference hd hrefers hm
    refine ⟨machine, task, named, handler, b, hmachine, htask, hnamed, hhandler, hsplits, hlookup,
      ?_, fun hkeeps hsuffix => ?_⟩
    · rintro rfl
      exact TaskState.keeps_of_functionName hresource hnamed
    · rw [TaskState.functionName_of_keeps hresource hkeeps hsuffix] at hnamed
      exact (Except.ok.inj hnamed).symm
  · rintro hkeeps hsuffix ⟨handler, b, hhandler, hsplits⟩ e he
    rw [read_of_declarations hd] at he
    have hstate : ¬ ((∃ flaw, e = .unnamed name state flaw) ∨
        ∃ other, e = .undeclared name state other) := by
      intro hstate
      obtain ⟨definition, machine, task, hdefinition, hmachine, htask, hfails⟩ :=
        bindingOf_of_error he hstate
      rw [bindingOf_of_reference hd hrefers hkeeps hsuffix hhandler hsplits hdefinition hmachine
        htask] at hfails
      cases hfails
    refine ⟨fun flaw heq => hstate (.inl ⟨flaw, heq⟩),
      fun other heq => hstate (.inr ⟨other, heq⟩), ?_⟩
    rintro handler' rfl
    obtain ⟨hhandler', hnone⟩ := handler_of_error he
    obtain rfl : handler = handler' := Option.some.inj (hhandler.symm.trans hhandler')
    rw [Binding.ofHandler?_eq_some_iff.mpr hsplits] at hnone
    cases hnone

/-! ### One function whose name ends in that of another -/

/-- A manifest with two functions and a Task state that refers to a function. -/
def referenceText (function : String) : String :=
  "\x7b\"functions\":\x7b\"f\":\x7b\"handler\":\"c.d\"\x7d,\"s-f\":\x7b\"handler\":\"a.b\"\x7d\x7d," ++
  "\"stepFunctions\":\x7b\"stateMachines\":\x7b\"m\":\x7b\"definition\":\x7b\"StartAt\":\"A\",\"States\":" ++
  "\x7b\"A\":\x7b\"Type\":\"Task\",\"End\":true,\"Resource\":\x7b\"Fn::GetAtt\":\"" ++ function ++
  ".Arn\"\x7d\x7d\x7d\x7d\x7d\x7d\x7d\x7d"

/-- What a state says of its kind and what its resource refers to, where these are texts. -/
def referenceOfState (state : Json) : Option String × Option String :=
  ((state.field? "Type").bind Json.string?,
    ((state.field? resourceName).bind (·.field? referenceName)).bind Json.string?)

/-- The states at the first level of each definition, with what they say and refer to. -/
def references (d : Declarations) : List ((String × String) × Option String × Option String) :=
  d.definitions.flatMap fun p => p.2.writtenStates.map fun s => ((p.1, s.1), referenceOfState s.2)

theorem refers_of_references
    (h : ((name, state), some "Task", some (function ++ ".Arn")) ∈ references d) :
    d.Refers name state .dotted function := by
  have hstring {document : Json} {s : String} (hs : document.string? = some s) :
      document = .string s := by
    cases document with
    | string => exact congrArg _ (Option.some.inj hs)
    | _ => cases hs
  obtain ⟨⟨_, definition⟩, hdefinition, hstates⟩ := List.mem_flatMap.mp h
  obtain ⟨⟨_, written⟩, hs, heq⟩ := List.mem_map.mp hstates
  obtain ⟨hnames, hstate⟩ := Prod.mk.inj heq
  obtain ⟨rfl, rfl⟩ := Prod.mk.inj hnames
  obtain ⟨htype, hreference⟩ := Prod.mk.inj hstate
  obtain ⟨type, htype, htypeText⟩ := Option.bind_eq_some_iff.mp htype
  obtain ⟨reference, hreference, htext⟩ := Option.bind_eq_some_iff.mp hreference
  obtain ⟨resource, hresource, hreference⟩ := Option.bind_eq_some_iff.mp hreference
  obtain rfl := hstring htypeText
  obtain rfl := hstring htext
  exact ⟨definition, resource, hdefinition,
    ⟨false, definition, written, .self, hs, ⟨_, htype, rfl⟩, hresource⟩, hreference⟩

/-- The states of a text, the handler of a function, and what the state `A` of `m` is bound to. -/
def referenceFacts (text function : String) :
    Option (List ((String × String) × Option String × Option String) × Option String ×
      Option Binding) :=
  (Declarations.read? text).bind fun d => (ofDeclarations d).toOption.map fun m =>
    (references d, Entries.get? d.handlers function, m.bindings.lookup? "m" "A")

theorem of_referenceFacts {handler : Option String} {b : Option Binding}
    {states : List ((String × String) × Option String × Option String)}
    (h : referenceFacts text function = some (states, handler, b)) :
    ∃ d m, Declarations.read? text = some d ∧ Manifest.read text = .ok m ∧
      references d = states ∧ Entries.get? d.handlers function = handler ∧
      m.bindings.lookup? "m" "A" = b := by
  obtain ⟨d, hd, h⟩ := Option.bind_eq_some_iff.mp h
  obtain ⟨m, hm, heq⟩ := Option.map_eq_some_iff.mp h
  obtain ⟨hstates, heq⟩ := Prod.mk.inj heq
  obtain ⟨hhandler, hlookup⟩ := Prod.mk.inj heq
  exact ⟨d, m, hd, (read_of_declarations hd).trans (toOption_eq_some_iff.mp hm), hstates, hhandler,
    hlookup⟩

/-- A reference to a function without a hyphen is bound to that function. -/
theorem bound_by_reference_plain :
    ∃ d m, Declarations.read? (referenceText "f") = some d ∧ d.Refers "m" "A" .dotted "f" ∧
      Manifest.read (referenceText "f") = .ok m ∧ ReferenceForm.dotted.Keeps "f" ∧
      m.bindings.lookup? "m" "A" = some ⟨"c", "d"⟩ := by
  have hcheck : referenceFacts (referenceText "f") "f" =
      some ([(("m", "A"), some "Task", some "f.Arn")], some "c.d", some ⟨"c", "d"⟩) := by
    decide +kernel
  obtain ⟨d, m, hd, hread, hreferences, hhandler, -⟩ := of_referenceFacts hcheck
  have hrefers : d.Refers "m" "A" .dotted "f" :=
    refers_of_references (hreferences ▸ List.mem_singleton_self _)
  have hkeeps : ReferenceForm.dotted.Keeps "f" := ⟨by decide, by decide, fun _ => by decide⟩
  refine ⟨d, m, hd, hrefers, hread, hkeeps, ?_⟩
  obtain ⟨_, _, named, handler, b, -, -, -, hnamed, hsplits, hlookup, -, hname⟩ :=
    (bound_by_reference hd hrefers).1 m hread
  obtain rfl := hname hkeeps (by decide)
  obtain rfl : handler = "c.d" := Option.some.inj (hnamed.symm.trans hhandler)
  have hsplit : some b = some ⟨"c", "d"⟩ :=
    (Binding.ofHandler?_eq_some_iff.mpr hsplits).symm.trans (by decide)
  rw [hlookup, hsplit]

/-- A reference to a function is bound to another one, whose name follows a hyphen in it. -/
theorem reference_shortened :
    ¬ ∀ text d m name state form function handler b, Declarations.read? text = some d →
      Manifest.read text = .ok m → d.Refers name state form function →
      Entries.get? d.handlers function = some handler → Binding.Splits b handler →
      m.bindings.lookup? name state = some b := by
  intro hclaim
  have hcheck : referenceFacts (referenceText "s-f") "s-f" =
      some ([(("m", "A"), some "Task", some "s-f.Arn")], some "a.b", some ⟨"c", "d"⟩) := by
    decide +kernel
  obtain ⟨d, m, hd, hread, hreferences, hhandler, hlookup⟩ := of_referenceFacts hcheck
  have hrefers : d.Refers "m" "A" .dotted "s-f" :=
    refers_of_references (hreferences ▸ List.mem_singleton_self _)
  have hsplits : Binding.Splits ⟨"a", "b"⟩ "a.b" := Binding.ofHandler?_eq_some_iff.mp (by decide)
  rw [hclaim _ d m "m" "A" .dotted "s-f" "a.b" ⟨"a", "b"⟩ hd hread hrefers hhandler hsplits]
    at hlookup
  exact absurd hlookup (by decide)

end Manifest

end StateFlow
