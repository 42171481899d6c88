import StateFlow.Shell.Script

/-!
# Reading scripts

Scripts are read by recursive descent.  A word ends at a blank or at an operator that is not quoted;
a comment starts where a word could start.  What cannot be read is no script.
-/

namespace StateFlow.Shell

/-- A step of reading, which may fail. -/
abbrev Read := StateT (List Char) Option

/-! ## Characters -/

/-- The next character. -/
def peek : Read (Option Char) := do return (← get).head?

/-- Passes over a number of characters. -/
def skip (count : Nat) : Read Unit := modify (·.drop count)

/-- The characters up to the first that fails a condition. -/
def takeWhile (p : Char → Bool) : Read (List Char) := do
  let cs ← get
  set (cs.dropWhile p)
  return cs.takeWhile p

/-- True of blanks inside a line. -/
def isBlank (c : Char) : Bool := c = ' ' || c = '\t'

/-- True of the characters that end a word. -/
def endsWord (c : Char) : Bool :=
  isBlank c || c = '\n' || c = ';' || c = '&' || c = '|' || c = '<' || c = '>' || c = '(' || c = ')'

/-- True of the characters that names start with. -/
def isNameStart (c : Char) : Bool := c.isAlpha || c = '_'

/-- True of the characters of names. -/
def isNameChar (c : Char) : Bool := c.isAlphanum || c = '_'

/-- True of the mark that encloses a script in a word. -/
def isBackquote (c : Char) : Bool := c.toNat = 0x60

/-- Passes over blanks, and over line ends after a backslash. -/
def skipBlanks : (fuel : Nat) → List Char → List Char
  | fuel + 1, '\\' :: '\n' :: cs => skipBlanks fuel cs
  | fuel + 1, c :: cs => if isBlank c then skipBlanks fuel cs else c :: cs
  | _, cs => cs

/-- Passes over blanks and over a comment. -/
def skipToWord : Read Unit := do
  let cs ← get
  let cs := skipBlanks cs.length cs
  set (if cs.head? = some '#' then cs.dropWhile (· ≠ '\n') else cs)

/-- Passes over blanks, comments and the ends of lines and commands. -/
def skipToCommand : (fuel : Nat) → Read Unit
  | 0 => return
  | fuel + 1 => do
    skipToWord
    match ← peek with
    | some '\n' | some ';' =>
      skip 1
      skipToCommand fuel
    | _ => return

/-- Takes a text if it comes next. -/
def accept (text : String) : Read Bool := do
  let cs ← get
  if text.toList.isPrefixOf cs then
    set (cs.drop text.length)
    return true
  else return false

/-- True when a word of its own comes next. -/
def seesWord (word : String) (cs : List Char) : Bool :=
  cs.takeWhile (fun c => !endsWord c) = word.toList

/-- Takes a word of its own if it comes next. -/
def acceptWord (word : String) : Read Bool := do
  if seesWord word (← get) then
    skip word.length
    return true
  else return false

/-- The words that end a script inside another. -/
def closingWords : List String := ["\x7d", "then", "else", "elif", "fi"]

/-- True at the end of a script. -/
def atScriptEnd (cs : List Char) : Bool :=
  cs.isEmpty || cs.head? = some ')' || closingWords.any (seesWord · cs)

/-! ## Words -/

/-- The text between single quotes, after the first. -/
def readSingle : Read Piece := do
  let text ← takeWhile (· ≠ '\'')
  if ← accept "'" then return .literal (String.ofList text) else failure

/-- The text of a script between backquotes, in which a backslash quotes some characters. -/
def unquoteScript : List Char → List Char
  | '\\' :: c :: cs =>
    if isBackquote c || c = '\\' || c = '$' then c :: unquoteScript cs
    else '\\' :: c :: unquoteScript cs
  | c :: cs => c :: unquoteScript cs
  | [] => []

/-- The text up to the next backquote that is not quoted. -/
def untilBackquote : List Char → List Char
  | '\\' :: c :: cs => '\\' :: c :: untilBackquote cs
  | c :: cs => if isBackquote c then [] else c :: untilBackquote cs
  | [] => []

/-- True of the characters that a backslash quotes between double quotes. -/
def isQuotable (c : Char) : Bool := c = '$' || c = '"' || c = '\\' || isBackquote c

/-- The command that fails. -/
def failing : Command := .simple [] [[.literal "false"]] []

/-- The stream of a digit. -/
def streamOf? (c : Char) : Option Stream :=
  if c = '0' then some .input else if c = '1' then some .output
  else if c = '2' then some .error else none

mutual

/-- What stands after a dollar sign. -/
def readDollar (quoted : Bool) : (fuel : Nat) → Read Piece
  | 0 => failure
  | fuel + 1 => do
    match ← get with
    | '(' :: rest =>
      set rest
      let script ← readScript fuel
      if ← accept ")" then return .output script quoted else failure
    | '{' :: rest =>
      set rest
      let name ← takeWhile fun c => isNameChar c || c = '?' || c = '$' || c = '#'
      if ← accept "\x7d" then return .parameter (String.ofList name) quoted else failure
    | c :: rest =>
      if isNameStart c then
        return .parameter (String.ofList (← takeWhile isNameChar)) quoted
      else if c.isDigit || c = '?' || c = '$' || c = '#' || c = '@' || c = '*' then
        set rest
        return .parameter (String.singleton c) quoted
      else return .literal "$"
    | [] => return .literal "$"

/-- A script between backquotes, after the first. -/
def readBackquoted (quoted : Bool) : (fuel : Nat) → Read Piece
  | 0 => failure
  | fuel + 1 => do
    let inner := untilBackquote (← get)
    let after := (← get).drop (inner.length + 1)
    set (unquoteScript inner)
    let script ← readScript fuel
    set after
    return .output script quoted

/-- The pieces between double quotes, after the first. -/
def readDouble : (fuel : Nat) → Read (List Piece)
  | 0 => failure
  | fuel + 1 => do
    match ← get with
    | '"' :: rest =>
      set rest
      return []
    | '\\' :: '\n' :: rest =>
      set rest
      readDouble fuel
    | '\\' :: c :: rest =>
      set rest
      let text := if isQuotable c then [c] else ['\\', c]
      return .literal (String.ofList text) :: (← readDouble fuel)
    | '$' :: rest =>
      set rest
      let piece ← readDollar true fuel
      return piece :: (← readDouble fuel)
    | c :: rest =>
      set rest
      let piece ← if isBackquote c then readBackquoted true fuel
        else pure (.literal (String.singleton c))
      return piece :: (← readDouble fuel)
    | [] => failure

/-- The pieces of a word. -/
def readWord : (fuel : Nat) → Read (List Piece)
  | 0 => failure
  | fuel + 1 => do
    match ← get with
    | [] => return []
    | '\'' :: rest =>
      set rest
      let piece ← readSingle
      return piece :: (← readWord fuel)
    | '"' :: rest =>
      set rest
      let pieces ← readDouble fuel
      return .literal "" :: pieces ++ (← readWord fuel)
    | '\\' :: '\n' :: rest =>
      set rest
      readWord fuel
    | '\\' :: c :: rest =>
      set rest
      return .literal (String.singleton c) :: (← readWord fuel)
    | '$' :: rest =>
      set rest
      let piece ← readDollar false fuel
      return piece :: (← readWord fuel)
    | c :: rest =>
      if endsWord c then return []
      set rest
      let piece ← if isBackquote c then readBackquoted false fuel
        else pure (.literal (String.singleton c))
      return piece :: (← readWord fuel)

/-- The target of a redirection of a stream, after its mark. -/
def readTarget (stream : Stream) (writes : Bool) : (fuel : Nat) → Read Redirection
  | 0 => failure
  | fuel + 1 => do
    let appends ← accept (if writes then ">" else "<")
    if appends && !writes then failure
    if ← accept "&" then
      match ← get with
      | d :: rest =>
        set rest
        match streamOf? d with
        | some source => return .duplicate stream source
        | none => failure
      | [] => failure
    else
      let _ ← accept "|"
      skipToWord
      let word ← readWord fuel
      if word.isEmpty then failure
      return if writes then .write stream appends word else .read word

/-- A redirection, if one comes next. -/
def readRedirection? : (fuel : Nat) → Read (Option Redirection)
  | 0 => failure
  | fuel + 1 => do
    match ← get with
    | '>' :: rest =>
      set rest
      return some (← readTarget .output true fuel)
    | '<' :: rest =>
      set rest
      return some (← readTarget .input false fuel)
    | d :: '>' :: rest =>
      match streamOf? d with
      | some stream =>
        set rest
        return some (← readTarget stream true fuel)
      | none => return none
    | '0' :: '<' :: rest =>
      set rest
      return some (← readTarget .input false fuel)
    | _ => return none

/-- The redirections after a group. -/
def readRedirections : (fuel : Nat) → Read (List Redirection)
  | 0 => failure
  | fuel + 1 => do
    skipToWord
    match ← readRedirection? fuel with
    | some r => return r :: (← readRedirections fuel)
    | none => return []

/-- The words and redirections of a simple command, after its assignments. -/
def readSimple (assignments : List (String × List Piece)) (words : List (List Piece))
    (redirections : List Redirection) : (fuel : Nat) → Read Command
  | 0 => failure
  | fuel + 1 => do
    skipToWord
    match ← readRedirection? fuel with
    | some r => readSimple assignments words (redirections ++ [r]) fuel
    | none =>
      let cs ← get
      let name := cs.takeWhile isNameChar
      let assigned := cs.drop name.length
      if words.isEmpty && cs.head?.any isNameStart && assigned.head? = some '=' then
        set (assigned.drop 1)
        let value ← readWord fuel
        readSimple (assignments ++ [(String.ofList name, value)]) words redirections fuel
      else if cs.isEmpty || cs.head?.any endsWord then
        if words.isEmpty && assignments.isEmpty && redirections.isEmpty then failure
        return .simple assignments words redirections
      else
        let word ← readWord fuel
        readSimple assignments (words ++ [word]) redirections fuel

/-- A choice between scripts, after its first word. -/
def readConditional : (fuel : Nat) → Read Command
  | 0 => failure
  | fuel + 1 => do
    let condition ← readScript fuel
    if !(← acceptWord "then") then failure
    let consequent ← readScript fuel
    if ← acceptWord "fi" then return .conditional condition consequent []
    else if ← acceptWord "elif" then
      return .conditional condition consequent [(.always, [← readConditional fuel])]
    else if ← acceptWord "else" then
      let alternative ← readScript fuel
      if ← acceptWord "fi" then return .conditional condition consequent alternative else failure
    else failure

/-- A command. -/
def readCommand : (fuel : Nat) → Read Command
  | 0 => failure
  | fuel + 1 => do
    skipToWord
    if ← accept "(" then
      let script ← readScript fuel
      if ← accept ")" then return .group script true (← readRedirections fuel) else failure
    else if ← acceptWord "\x7b" then
      let script ← readScript fuel
      if ← acceptWord "\x7d" then return .group script false (← readRedirections fuel) else failure
    else if ← acceptWord "if" then readConditional fuel
    else if ← acceptWord "!" then
      let pipeline ← readPipeline fuel
      return .conditional [(.always, pipeline)] [(.always, [failing])] []
    else readSimple [] [] [] fuel

/-- The commands of a pipeline. -/
def readPipeline : (fuel : Nat) → Read (List Command)
  | 0 => failure
  | fuel + 1 => do
    let command ← readCommand fuel
    skipToWord
    match ← get with
    | '|' :: '|' :: _ => return [command]
    | '|' :: rest =>
      set rest
      skipToCommand rest.length
      return command :: (← readPipeline fuel)
    | _ => return [command]

/-- The pipelines that are joined to the one before them. -/
def readJoined : (fuel : Nat) → Read Script
  | 0 => failure
  | fuel + 1 => do
    skipToWord
    let connector? ← if ← accept "&&" then pure (some Connector.ifSucceeded)
      else if ← accept "||" then pure (some Connector.ifFailed) else pure none
    match connector? with
    | none => return []
    | some connector =>
      skipToCommand (← get).length
      let pipeline ← readPipeline fuel
      return (connector, pipeline) :: (← readJoined fuel)

/-- A script, up to the end of the text or to what ends a script inside another. -/
def readScript : (fuel : Nat) → Read Script
  | 0 => failure
  | fuel + 1 => do
    skipToCommand (← get).length
    if atScriptEnd (← get) then return []
    let pipeline ← readPipeline fuel
    let joined ← readJoined fuel
    skipToWord
    match ← get with
    | '&' :: _ => failure
    | _ => return (.always, pipeline) :: joined ++ (← readScript fuel)

end

/-- The script of a text. -/
def Script.read? (text : String) : Option Script := do
  let cs := text.toList
  let (script, rest) ← (readScript (8 * cs.length + 8)).run cs
  if rest.isEmpty then some script else none

end StateFlow.Shell
