import StateFlow.Shell.Reader
import StateFlow.Shell.Utility

/-!
# Sessions

A session runs a script: it has a directory, an environment and streams, and it ends when the script
does, when the script says so, or when a signal reaches it.  A script in parentheses, in a pipeline
or in a word runs in a session of its own, from which streams and signals come back and nothing
else.
-/

namespace StateFlow.Shell

open Handler

/-- A script that is being run. -/
structure Session where
  surroundings : Surroundings
  /-- The name of the script and its arguments. -/
  parameters : List String
  status : Nat
  input : List UInt8
  output : List UInt8
  error : List UInt8
  ended? : Option Ending
deriving Repr, Inhabited

namespace Session

/-- A session before its script. -/
def start (surroundings : Surroundings) (parameters : List String) (input : List UInt8) : Session :=
  ⟨surroundings, parameters, 0, input, [], [], none⟩

/-- How a session ended. -/
def ending (s : Session) : Ending := s.ended?.getD (.status s.status)

/-- The status of an ending, as a script sees it. -/
def statusOf : Ending → Nat
  | .status code => code
  | .signal number => 128 + number

/-- The session after a message of its own. -/
def complain (s : Session) (message : String) (status : Nat) : Session :=
  let name := s.parameters.head?.getD "sh"
  { s with
    error := s.error ++ Text.bytes s!"{name}: 1: {message}\n"
    status }

/-- The value of a variable or of a parameter of the session. -/
def value (s : Session) (name : String) : String :=
  if name = "?" then toString s.status
  else if name = "$" then processNumber
  else if name = "#" then toString (s.parameters.length - 1)
  else if name = "@" ∨ name = "*" then " ".intercalate (s.parameters.drop 1)
  else match name.toNat? with
    | some n => (s.parameters[n]?).getD ""
    | none => ((s.surroundings.environment.find? (·.1 = name)).map (·.2)).getD ""

/-- The session with a variable. -/
def assign (s : Session) (name value : String) : Session :=
  let environment := (name, value) :: s.surroundings.environment.filter fun v => decide (v.1 ≠ name)
  { s with surroundings := { s.surroundings with environment } }

/-- The session without some variables. -/
def forget (s : Session) (names : List String) : Session :=
  let environment := s.surroundings.environment.filter fun v => decide (v.1 ∉ names)
  { s with surroundings := { s.surroundings with environment }, status := 0 }

/-- What is said of a process that a signal ended. -/
def obituary : Ending → String
  | .signal 9 => "Killed\n"
  | .signal 15 => "Terminated\n"
  | _ => ""

/-- The session after another process: streams come back, and a signal ended that process only. -/
def await (s inner : Session) : Session :=
  { s with
    input := inner.input
    output := s.output ++ inner.output
    error := s.error ++ inner.error ++ Text.bytes (obituary inner.ending)
    status := statusOf inner.ending }

/-- The session after another that ran inside it: streams and signals come back. -/
def absorb (s inner : Session) : Session :=
  let ended? := match inner.ended? with
    | some (.signal number) => some (.signal number)
    | _ => s.ended?
  { s with
    input := inner.input
    output := s.output ++ inner.output
    error := s.error ++ inner.error
    status := statusOf inner.ending
    ended? }

/-- A session inside this one. -/
def inside (s : Session) : Session := { s with output := [], error := [], ended? := none }

/-- The session after what a utility left behind. -/
def leave (s : Session) (e : Effect) : Session :=
  let s := { s with
    input := e.rest, output := s.output ++ e.output, error := s.error ++ e.error
    status := statusOf e.ending }
  match e.ending with
  | .signal number => { s with ended? := some (.signal number) }
  | .status _ => s

end Session

/-! ## Fields of words -/

/-- A piece whose text is not split. -/
def Piece.quote : Piece → Piece
  | .literal text => .literal text
  | .parameter name _ => .parameter name true
  | .output script _ => .output script true

/-- Fields that a word makes: those that are complete, last first, and the one being made. -/
structure Fields where
  complete : List String
  current? : Option String
deriving Repr, Inhabited

namespace Fields

/-- No fields. -/
def none : Fields := ⟨[], .none⟩

/-- The fields with the current one completed. -/
def close (f : Fields) : Fields :=
  match f.current? with
  | some text => ⟨text :: f.complete, .none⟩
  | .none => f

/-- The fields after a text that is not split. -/
def add (f : Fields) (text : String) : Fields :=
  { f with current? := some (f.current?.getD "" ++ text) }

/-- The fields after a text that is split at blanks. -/
def split (f : Fields) : List Char → Fields
  | [] => f
  | c :: cs =>
    if isBlank c || c = '\n' then f.close.split cs else (f.add (String.singleton c)).split cs

/-- All fields in order. -/
def toList (f : Fields) : List String := f.close.complete.reverse

end Fields

/-! ## Redirections -/

/-- Where a stream ends up. -/
inductive Sink where
  | output
  | error
  | file (path : String) (appends : Bool)
deriving DecidableEq, Repr, Inhabited

/-- Where the streams of a command lead. -/
structure Routes where
  input? : Option (List UInt8)
  output : Sink
  error : Sink
deriving Repr, Inhabited

namespace Session

/-- Keeps bytes in a file. -/
def save (s : Session) (path : String) (appends : Bool) (bytes : List UInt8) : Session :=
  let d := s.surroundings.directory
  let names := d.names ++ ((Location.segments path.toList).map String.ofList).filter
    fun n => n ≠ "" ∧ n ≠ "."
  if d.absolute || Location.isAbsolute path then s
  else
    let before := if appends then ((s.surroundings.files.read d path).toOption.getD "") else ""
    let texts := (names, before ++ Text.decode bytes) ::
      s.surroundings.files.texts.filter fun f => decide (f.1 ≠ names)
    { s with surroundings := { s.surroundings with files := ⟨texts⟩ } }

/-- Sends bytes to where they lead. -/
def deliver (s : Session) (sink : Sink) (bytes : List UInt8) : Session :=
  match sink with
  | .output => { s with output := s.output ++ bytes }
  | .error => { s with error := s.error ++ bytes }
  | .file path appends => s.save path appends bytes

/-- Sends the streams of a command that ran to where they lead. -/
def route (before after : Session) (routes : Routes) : Session :=
  let s := { after with
    output := before.output, error := before.error
    input := if routes.input?.isSome then before.input else after.input }
  (s.deliver routes.output after.output).deliver routes.error after.error

/-- The routes with one stream changed. -/
def setRoute (routes : Routes) (stream : Stream) (sink : Sink) : Routes :=
  match stream with
  | .output => { routes with output := sink }
  | .error => { routes with error := sink }
  | .input => routes

/-- The sink of a stream. -/
def sinkOf (routes : Routes) : Stream → Sink
  | .error => routes.error
  | _ => routes.output

/-! ## Running -/

/-- The output of a script without the line ends after it. -/
def outputText (bytes : List UInt8) : String :=
  Text.decode (bytes.reverse.dropWhile (· = 10)).reverse

/-- Changes the directory. -/
def changeDirectory (s : Session) (path : String) : Session :=
  match s.surroundings.files.enter s.surroundings.directory path with
  | .ok directory =>
    { s with surroundings := { s.surroundings with directory }, status := 0 }
  | .error _ => s.complain s!"cd: can't cd to {path}" 2

/-- Ends a session with a status that is written as a number. -/
def exit (s : Session) (code? : Option String) : Session :=
  match code? with
  | none => { s with ended? := some (.status s.status) }
  | some code =>
    match code.toNat? with
    | some n => { s with ended? := some (.status (n % 256)) }
    | none => { s.complain s!"exit: Illegal number: {code}" 2 with ended? := some (.status 2) }

/-- Reads a line of the input into variables, of which the last takes all that is left. -/
def readLine (s : Session) (names : List String) : Session :=
  let line := s.input.takeWhile (· ≠ 10)
  let rest := s.input.drop line.length
  let words := (Fields.none.split (Text.decode line).toList).toList
  let place := fun (acc : Session × List String) (name : String × Bool) =>
    if name.2 then (acc.1.assign name.1 (" ".intercalate acc.2), [])
    else (acc.1.assign name.1 (acc.2.head?.getD ""), acc.2.drop 1)
  let names := names.filter (· ≠ "-r")
  let marked := names.zipIdx.map fun (n, i) => (n, i + 1 == names.length)
  let s := (marked.foldl place (s, words)).1
  { s with input := rest.drop 1, status := if rest.isEmpty then 1 else 0 }

/-- Runs what is part of the session itself; none for a command that is not. -/
def runOwn? (s : Session) (name : String) (arguments : List String) : Option Session :=
  match name with
  | ":" | "export" | "set" | "trap" => some { s with status := 0 }
  | "unset" => some (s.forget arguments)
  | "exit" | "return" => some (s.exit arguments.head?)
  | "cd" => some (s.changeDirectory (arguments.head?.getD "/"))
  | "read" => some (s.readLine arguments)
  | _ => none

mutual

/-- The fields of a word. -/
def expand : (fuel : Nat) → Session → List Piece → Fields → Session × Fields
  | 0, s, _, f => (s, f)
  | _ + 1, s, [], f => (s, f)
  | fuel + 1, s, piece :: pieces, f =>
    match piece with
    | .literal text => expand fuel s pieces (f.add text)
    | .parameter name quoted =>
      let text := s.value name
      expand fuel s pieces (if quoted then f.add text else f.split text.toList)
    | .output script quoted =>
      let inner := runScript fuel s.inside script
      let text := outputText inner.output
      let s := s.absorb { inner with output := [] }
      expand fuel s pieces (if quoted then f.add text else f.split text.toList)

/-- The text of a word that is not split. -/
def expandText (fuel : Nat) (s : Session) (word : List Piece) : Session × String :=
  match fuel with
  | 0 => (s, "")
  | fuel + 1 =>
    let (s, f) := expand fuel s (word.map Piece.quote) Fields.none
    (s, "".intercalate f.toList)

/-- The fields of words. -/
def expandAll : (fuel : Nat) → Session → List (List Piece) → Session × List String
  | 0, s, _ => (s, [])
  | _ + 1, s, [] => (s, [])
  | fuel + 1, s, word :: words =>
    let (s, f) := expand fuel s word Fields.none
    let (s, rest) := expandAll fuel s words
    (s, f.toList ++ rest)

/-- Gives variables their values. -/
def assignAll : (fuel : Nat) → Session → List (String × List Piece) → Session
  | 0, s, _ => s
  | _ + 1, s, [] => s
  | fuel + 1, s, (name, word) :: rest =>
    let (s, text) := expandText fuel s word
    assignAll fuel (s.assign name text) rest

/-- Where redirections lead; none when an input is not there. -/
def routesOf : (fuel : Nat) → Session → Routes → List Redirection → Session × Option Routes
  | 0, s, routes, _ => (s, some routes)
  | _ + 1, s, routes, [] => (s, some routes)
  | fuel + 1, s, routes, redirection :: rest =>
    match redirection with
    | .duplicate stream source =>
      routesOf fuel s (setRoute routes stream (sinkOf routes source)) rest
    | .write stream appends word =>
      let (s, path) := expandText fuel s word
      let s := if appends then s else s.save path false []
      routesOf fuel s (setRoute routes stream (.file path true)) rest
    | .read word =>
      let (s, path) := expandText fuel s word
      match s.surroundings.files.read s.surroundings.directory path with
      | .ok text => routesOf fuel s { routes with input? := some (Text.bytes text) } rest
      | .error _ => (s.complain s!"cannot open {path}: No such file" 2, none)

/-- Runs a command with its streams led elsewhere. -/
def redirected (fuel : Nat) (s : Session) (redirections : List Redirection)
    (run : Session → Session) : Session :=
  match fuel with
  | 0 => s
  | fuel + 1 =>
    match routesOf fuel s ⟨none, .output, .error⟩ redirections with
    | (s, none) => s
    | (s, some routes) =>
      let after := run { s with output := [], error := [], input := routes.input?.getD s.input }
      route s after routes

/-- Runs a command of words. -/
def runWords : (fuel : Nat) → Session → List String → Session
  | 0, s, _ => s
  | _ + 1, s, [] => s
  | fuel + 1, s, name :: arguments =>
    if name = "exec" then
      let after := runWords fuel s arguments
      if arguments.isEmpty then s
      else { after with ended? := after.ended? <|> some (.status after.status) }
    else if name = "eval" then
      match Script.read? (" ".intercalate arguments) with
      | some script => runScript fuel s script
      | none => s.complain "Syntax error" 2
    else match runOwn? s name arguments with
    | some s => s
    | none =>
      match runBuiltin? s.surroundings name arguments s.input with
      | some effect => s.leave effect
      | none =>
        if name = "sh" ∨ name = "dash" then s.await (runShell fuel s.inside name arguments)
        else s.complain s!"{name}: not found" 127

/-- Runs a shell with arguments in a session of its own. -/
def runShell : (fuel : Nat) → Session → String → List String → Session
  | 0, s, _, _ => s
  | fuel + 1, s, name, arguments =>
    match arguments with
    | "-c" :: text :: parameters =>
      let s := { s with parameters := if parameters.isEmpty then [name] else parameters }
      runText fuel s text
    | "-c" :: [] => { s with parameters := [name] }.complain "-c requires an argument" 2
    | "-e" :: rest | "-u" :: rest => runShell fuel s name rest
    | [] => runText fuel { s with parameters := [name], input := [] } (Text.decode s.input)
    | path :: parameters =>
      match s.surroundings.files.read s.surroundings.directory path with
      | .ok text => runText fuel { s with parameters := path :: parameters } text
      | .error _ =>
        { s with parameters := [name], status := 2
                 error := s.error ++ Text.bytes s!"{name}: 0: cannot open {path}: No such file\n" }

/-- Runs the text of a script. -/
def runText : (fuel : Nat) → Session → String → Session
  | 0, s, _ => s
  | fuel + 1, s, text =>
    match Script.read? text with
    | some script => runScript fuel s script
    | none => s.complain "Syntax error" 2

/-- Runs a command. -/
def runCommand : (fuel : Nat) → Session → Command → Session
  | 0, s, _ => s
  | fuel + 1, s, .simple assignments words redirections =>
    let (s, fields) := expandAll fuel s words
    if fields.isEmpty then
      redirected fuel (assignAll fuel { s with status := if words.isEmpty then 0 else s.status }
        assignments) redirections id
    else
      let before := s.surroundings.environment
      let s := redirected fuel (assignAll fuel s assignments) redirections
        fun s => runWords fuel s fields
      if assignments.isEmpty then s
      else { s with surroundings := { s.surroundings with environment := before } }
  | fuel + 1, s, .group script isolated redirections =>
    redirected fuel s redirections fun s =>
      if isolated then s.absorb (runScript fuel s.inside script) else runScript fuel s script
  | fuel + 1, s, .conditional condition consequent alternative =>
    let s := runScript fuel s condition
    if s.ended?.isSome then s
    else if s.status = 0 then runScript fuel s consequent
    else runScript fuel { s with status := 0 } alternative

/-- Runs the commands of a pipeline, each in a session of its own. -/
def runPiped : (fuel : Nat) → Session → List Command → Session
  | 0, s, _ => s
  | _ + 1, s, [] => s
  | fuel + 1, s, [command] => s.absorb (runCommand fuel s.inside command)
  | fuel + 1, s, command :: commands =>
    let first := runCommand fuel s.inside command
    let rest := runPiped fuel { s.inside with input := first.output } commands
    let s := s.absorb { first with output := [] }
    { s.absorb rest with input := first.input }

/-- Runs a script. -/
def runScript : (fuel : Nat) → Session → Script → Session
  | 0, s, _ => s
  | _ + 1, s, [] => s
  | fuel + 1, s, (connector, pipeline) :: rest =>
    let runs := match connector with
      | .always => true
      | .ifSucceeded => s.status = 0
      | .ifFailed => s.status ≠ 0
    let s := if !runs then s
      else match pipeline with
        | [command] => runCommand fuel s command
        | commands => runPiped fuel s commands
    if s.ended?.isSome then s else runScript fuel s rest

end

end Session

end StateFlow.Shell
