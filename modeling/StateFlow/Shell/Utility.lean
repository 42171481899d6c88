import StateFlow.Files.Tree
import StateFlow.Handler.Program
import StateFlow.Shell.Text

/-!
# Utilities

A utility takes arguments and the bytes of its input, and leaves bytes on its output and on its
error stream, a status, and the input that it did not read.
-/

namespace StateFlow.Shell

open Handler

/-- What a utility leaves behind. -/
structure Effect where
  output : List UInt8
  error : List UInt8
  ending : Ending
  rest : List UInt8
deriving Repr, Inhabited

namespace Effect

/-- Some output. -/
def success (output rest : List UInt8) : Effect := ⟨output, [], .status 0, rest⟩

/-- A status without output. -/
def silent (code : Nat) (rest : List UInt8) : Effect := ⟨[], [], .status code, rest⟩

/-- A message on the error stream. -/
def failure (message : String) (code : Nat) (rest : List UInt8) : Effect :=
  ⟨[], Text.bytes (message ++ "\n"), .status code, rest⟩

end Effect

/-- Where a utility runs. -/
structure Surroundings where
  files : Files
  directory : Directory
  environment : List (String × String)
deriving Repr, Inhabited

/-- The process number of a script. -/
def processNumber : String := "4242"

/-- The number of a signal that is written as a number or as a name. -/
def signalOf? (text : String) : Option Nat :=
  let name := if text.startsWith "SIG" then (text.drop 3).toString else text
  match signals.find? (·.2 = name) with
  | some (number, _) => some number
  | none => (readInteger? text).map Int.toNat

/-- The arguments of the program that repeats its arguments: whether the line is ended, whether
backslashes stand for characters, and what is left. -/
def echoOptions : Bool → Bool → List String → Bool × Bool × List String
  | ends, escapes, argument :: rest =>
    match argument.toList with
    | '-' :: o :: os =>
      if (o :: os).all fun c => c = 'n' || c = 'e' || c = 'E' then
        let ends := ends && !((o :: os).contains 'n')
        let escapes := (o :: os).foldl (fun e c => if c = 'e' then true
          else if c = 'E' then false else e) escapes
        echoOptions ends escapes rest
      else (ends, escapes, argument :: rest)
    | _ => (ends, escapes, argument :: rest)
  | ends, escapes, [] => (ends, escapes, [])

/-- Repeats arguments. -/
def echo (ends escapes : Bool) (arguments : List String) (input : List UInt8) : Effect :=
  let text := (" ".intercalate arguments).toList
  let w := if escapes then unescape true text.length text
    else ⟨Text.bytes (String.ofList text), false⟩
  .success (w.append ⟨if ends then [10] else [], false⟩).bytes input

/-- Writes arguments in a format. -/
def printf (arguments : List String) (input : List UInt8) : Effect :=
  let arguments := if arguments.head? = some "--" then arguments.drop 1 else arguments
  match arguments with
  | [] => .failure "printf: usage: printf format [arg ...]" 2 input
  | format :: values =>
    let parts := readFormat (format.length + 1) [] format.toList
    match formatAll parts (values.length + 1) values with
    | none => .failure "printf: invalid directive" 2 input
    | some (w, fitted) =>
      if fitted then .success w.bytes input
      else
        ⟨w.bytes, Text.bytes "printf: expected numeric value\n", .status 1, input⟩

/-- Writes files one after the other, or the input. -/
def concatenate (s : Surroundings) : (files : List String) → Effect → Effect
  | [], effect => effect
  | file :: files, effect =>
    let next : Effect :=
      if file = "-" then { effect with output := effect.output ++ effect.rest, rest := [] }
      else match s.files.read s.directory file with
        | .ok text => { effect with output := effect.output ++ Text.bytes text }
        | .error fault =>
          let reason := match fault with
            | .isDirectory => "Is a directory"
            | .notDirectory => "Not a directory"
            | .denied => "Permission denied"
            | _ => "No such file or directory"
          { effect with
            error := effect.error ++ Text.bytes s!"cat: {file}: {reason}\n"
            ending := .status 1 }
    concatenate s files next

/-- The first lines of bytes. -/
def firstLines : (count : Nat) → List UInt8 → List UInt8
  | 0, _ | _, [] => []
  | count + 1, b :: bs =>
    if b = 10 then b :: firstLines count bs else b :: firstLines (count + 1) bs

/-- The number of lines of bytes. -/
def lineCount (bytes : List UInt8) : Nat :=
  (bytes.filter (· = 10)).length + if bytes.getLast?.any (· ≠ 10) then 1 else 0

/-- The last lines of bytes. -/
def lastLines (count : Nat) (bytes : List UInt8) : List UInt8 :=
  bytes.drop (firstLines (lineCount bytes - count) bytes).length

/-- A part of a text that is asked for: a number of bytes or of lines. -/
structure Excerpt where
  inBytes : Bool
  count : Nat
  file? : Option String
deriving Repr, Inhabited

/-- One argument that asks for a part. -/
def Excerpt.ask (e : Excerpt) (argument : String) : Excerpt :=
  match argument.toList with
  | '-' :: 'c' :: n => { e with inBytes := true, count := Number.natOfDigits n }
  | '-' :: 'n' :: n => { e with inBytes := false, count := Number.natOfDigits n }
  | '-' :: n => { e with count := Number.natOfDigits n }
  | _ => { e with file? := some argument }

/-- The part that arguments ask for; a number may stand apart from its letter. -/
def readExcerpt : Excerpt → List String → Excerpt
  | e, [] => e
  | e, "-c" :: n :: rest => readExcerpt (e.ask ("-c" ++ n)) rest
  | e, "-n" :: n :: rest => readExcerpt (e.ask ("-n" ++ n)) rest
  | e, argument :: rest => readExcerpt (e.ask argument) rest

/-- The part of a text before or after which the rest is left out. -/
def Excerpt.take (e : Excerpt) (atEnd : Bool) (bytes : List UInt8) : List UInt8 :=
  match e.inBytes, atEnd with
  | true, false => bytes.take e.count
  | true, true => bytes.drop (bytes.length - e.count)
  | false, false => firstLines e.count bytes
  | false, true => lastLines e.count bytes

/-- Writes the start or the end of a file or of the input. -/
def excerpt (s : Surroundings) (name : String) (atEnd : Bool) (arguments : List String)
    (input : List UInt8) : Effect :=
  let e := readExcerpt ⟨false, 10, none⟩ arguments
  match e.file? with
  | none => .success (e.take atEnd input) []
  | some file =>
    match s.files.read s.directory file with
    | .ok text => .success (e.take atEnd (Text.bytes text)) input
    | .error _ =>
      .failure s!"{name}: cannot open '{file}' for reading: No such file or directory" 1 input

/-- Counts the bytes or the lines of the input. -/
def count (arguments : List String) (input : List UInt8) : Effect :=
  let number := if arguments = ["-l"] then (input.filter (· = 10)).length else input.length
  .success (Text.bytes s!"{number}\n") []

/-- Decides a condition. -/
def test (s : Surroundings) (arguments : List String) : Bool :=
  match arguments with
  | ["-n", x] => x ≠ ""
  | ["-z", x] => x = ""
  | ["-f", x] => (s.files.read s.directory x).toBool
  | ["-d", x] => (s.files.enter s.directory x).toBool
  | ["-e", x] => (s.files.locate s.directory x).toBool
  | [x] => x ≠ ""
  | ["!", x] => x = ""
  | [x, "=", y] => x = y
  | [x, "!=", y] => x ≠ y
  | [x, "-eq", y] => readInteger? x = readInteger? y
  | [x, "-ne", y] => readInteger? x ≠ readInteger? y
  | [x, "-lt", y] => (readInteger? x).getD 0 < (readInteger? y).getD 0
  | [x, "-gt", y] => (readInteger? y).getD 0 < (readInteger? x).getD 0
  | _ => false

/-- Sends a signal to the script itself. -/
def kill (arguments : List String) (input : List UInt8) : Effect :=
  let (signal?, targets) : Option Nat × List String := match arguments with
    | "-s" :: name :: targets => (signalOf? name, targets)
    | option :: targets =>
      match option.toList with
      | '-' :: name => (signalOf? (String.ofList name), targets)
      | _ => (some 15, option :: targets)
    | [] => (none, [])
  match signal? with
  | none => .failure "kill: bad signal" 2 input
  | some number =>
    if targets.contains processNumber then
      (if number = 0 then .silent 0 input else ⟨[], [], .signal number, input⟩)
    else .failure "kill: No such process" 1 input

/-- The path of a directory. -/
def directoryText (d : Directory) : String :=
  (if d.absolute then "/" else "") ++ "/".intercalate d.names

/-- Runs a utility that shells and others know alike. -/
def runShared? (s : Surroundings) (name : String) (arguments : List String) (input : List UInt8) :
    Option Effect :=
  match name with
  | "cat" => some (concatenate s (if arguments.isEmpty then ["-"] else arguments)
      (.success [] input))
  | "true" => some (.silent 0 input)
  | "false" => some (.silent 1 input)
  | "printf" => some (printf arguments input)
  | "pwd" => some (.success (Text.bytes (directoryText s.directory ++ "\n")) input)
  | "head" => some (excerpt s name false arguments input)
  | "tail" => some (excerpt s name true arguments input)
  | "wc" => some (count arguments input)
  | "sleep" => some (.silent 0 input)
  | "kill" => some (kill arguments input)
  | "test" => some (.silent (if test s arguments then 0 else 1) input)
  | "[" => some (.silent (if test s arguments.dropLast then 0 else 1) input)
  | "printenv" =>
    match s.environment.find? fun v => arguments.contains v.1 with
    | some (_, value) => some (.success (Text.bytes (value ++ "\n")) input)
    | none => some (.silent 1 input)
  | _ => none

/-- Runs a utility that is a program of its own. -/
def runProgram? (s : Surroundings) (name : String) (arguments : List String)
    (input : List UInt8) : Option Effect :=
  if name = "echo" then
    let (ends, escapes, rest) := echoOptions true false arguments
    some (echo ends escapes rest input)
  else runShared? s name arguments input

/-- Runs a utility that is part of a shell. -/
def runBuiltin? (s : Surroundings) (name : String) (arguments : List String)
    (input : List UInt8) : Option Effect :=
  if name = "echo" then
    let ends := arguments.head? ≠ some "-n"
    some (echo ends true (if ends then arguments else arguments.drop 1) input)
  else runShared? s name arguments input

end StateFlow.Shell
