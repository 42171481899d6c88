import StateFlow.Files.Tree
import StateFlow.Function.Behaviour
import StateFlow.Handler.Output
import StateFlow.Manifest.Options
import StateFlow.Text.Lossy

/-!
# Handlers that are programs

A command runs the handler of every function.  It is told the binding in two variables, reads the
input and the context object from its input as one document, and prints its result.  A program that
does not start, or ends otherwise than well, or prints no result, fails the call.

What runs programs is a parameter (`Handler.Programs`).
-/

namespace StateFlow.Handler

/-! ## Programs -/

/-- What a program is started with. -/
structure Launch where
  program : String
  arguments : List String
  workingDir? : Option String
  /-- The variables that are set for it. -/
  environment : List (String × String)
  input : List UInt8
deriving Repr, Inhabited

/-- How a program ended. -/
inductive Ending where
  | status (code : Nat)
  | signal (number : Nat)
deriving DecidableEq, Repr, Inhabited

/-- What a program has left. -/
structure Exit where
  ending : Ending
  output : List UInt8
  error : List UInt8
deriving Repr, Inhabited

/-- What starts programs and waits until they have ended. -/
abbrev Programs := Launch → Except FileFault Exit

/-- The names of signals by number. -/
def signals : List (Nat × String) :=
  [(1, "HUP"), (2, "INT"), (3, "QUIT"), (4, "ILL"), (5, "TRAP"), (6, "ABRT"), (7, "BUS"),
    (8, "FPE"), (9, "KILL"), (10, "USR1"), (11, "SEGV"), (12, "USR2"), (13, "PIPE"), (14, "ALRM"),
    (15, "TERM"), (16, "STKFLT"), (24, "XCPU"), (25, "XFSZ"), (26, "VTALRM"), (27, "PROF"),
    (30, "PWR"), (31, "SYS")]

/-- The text of an ending. -/
def Ending.text : Ending → String
  | status code => s!"exit status: {code}"
  | signal number =>
    match signals.find? (·.1 = number) with
    | some (_, name) => s!"signal: {number} (SIG{name})"
    | none => s!"signal: {number}"

/-! ## Commands -/

/-- The variable that holds the module of a binding. -/
def moduleVariable : String := "SFSIM_HANDLER_MODULE"

/-- The variable that holds the entry of a binding. -/
def entryVariable : String := "SFSIM_HANDLER_NAME"

/-- What a command is given to read. -/
def request (input context : Json) : Json := .object [("input", input), ("context", context)]

/-- True of texts that no program can be given. -/
def holdsZero (text : String) : Bool := text.toList.contains '\x00'

/-- The texts that a command for a binding gives to its program. -/
def given (c : Command) (binding : Binding) : List String :=
  c.program :: c.arguments ++ c.workingDir?.toList ++ [binding.modulePath, binding.entryName]

/-- What a command is started with for a binding. -/
def launchOf (c : Command) (binding : Binding) (input context : Json) : Launch where
  program := c.program
  arguments := c.arguments
  workingDir? := c.workingDir?
  environment := [(moduleVariable, binding.modulePath), (entryVariable, binding.entryName)]
  input := Text.bytes (request input context).compact

/-- Runs a command for a binding. -/
def start (programs : Programs) (c : Command) (binding : Binding) (input context : Json) :
    Except FileFault Exit :=
  if (given c binding).any holdsZero then .error .zeroInCommand
  else programs (launchOf c binding input context)

/-- The result of a command for a binding. -/
def result (programs : Programs) (c : Command) (binding : Binding) (input context : Json) :
    Except String Json :=
  match start programs c binding input context with
  | .error fault =>
    .error s!"failed to spawn handler program '{c.program}': {fault.message}"
  | .ok exit =>
    match exit.ending with
    | .status 0 =>
      match readOutput? (Text.decode exit.output) with
      | some document => .ok document
      | none =>
        .error s!"handler '{binding.text}' produced invalid output: {noDocumentMessage}"
    | ending =>
      let said := String.ofList (Text.trim (Text.decode exit.error).toList)
      .error s!"handler '{binding.text}' exited with {ending.text}: {said}"

/-- The handlers that a command runs. -/
def ofCommand (programs : Programs) (c : Command) : Invoker :=
  fun binding => some fun _ input context => .answer (result programs c binding input context)

end StateFlow.Handler
