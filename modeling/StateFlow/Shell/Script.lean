/-!
# Scripts

A script is a list of pipelines, each of which runs always or depending on how the one before it
ended. A word of a command is made of pieces, some of which stand for texts that are only known when
the script runs: values of variables and outputs of other scripts.
-/

namespace StateFlow.Shell

/-- A stream of a command. -/
inductive Stream where
  | input
  | output
  | error
deriving DecidableEq, Repr, Inhabited

/-- When a pipeline runs. -/
inductive Connector where
  | always
  | ifSucceeded
  | ifFailed
deriving DecidableEq, Repr, Inhabited

mutual

/-- A piece of a word. -/
inductive Piece where
  | literal (text : String)
  /-- The value of a variable; without quotes it is split at blanks. -/
  | parameter (name : String) (quoted : Bool)
  /-- The output of a script; without quotes it is split at blanks. -/
  | output (script : List (Connector × List Command)) (quoted : Bool)

/-- Where a stream of a command leads. -/
inductive Redirection where
  | read (source : List Piece)
  | write (stream : Stream) (appends : Bool) (target : List Piece)
  | duplicate (stream source : Stream)

/-- A command of a pipeline. -/
inductive Command where
  | simple (assignments : List (String × List Piece)) (words : List (List Piece))
      (redirections : List Redirection)
  /-- A script of its own; an isolated one leaves no trace in the variables. -/
  | group (script : List (Connector × List Command)) (isolated : Bool)
      (redirections : List Redirection)
  | conditional (condition consequent alternative : List (Connector × List Command))

end

/-- A script. -/
abbrev Script := List (Connector × List Command)

instance : Inhabited Piece := ⟨.literal ""⟩
instance : Inhabited Redirection := ⟨.read []⟩
instance : Inhabited Command := ⟨.simple [] [] []⟩

end StateFlow.Shell
