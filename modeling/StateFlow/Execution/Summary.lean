import StateFlow.Execution.Situation

/-!
# Summaries of services

One-line texts that name what an engine is made of, for logs: the kinds of states that it runs and
the handlers that it knows, each in alphabetical order.
-/

namespace StateFlow.Summary

/-- A character of a quoted name; control characters are escaped. -/
def escapeChar (c : Char) : String :=
  if c = '"' then "\\\""
  else if c = '\\' then "\\\\"
  else if c = '\n' then "\\n"
  else if c = '\r' then "\\r"
  else if c = '\t' then "\\t"
  else if c = '\x00' then "\\0"
  else if c.toNat < 0x20 ∨ c.toNat = 0x7F then
    "\\u\x7b" ++ String.ofList (Nat.toDigits 16 c.toNat) ++ "\x7d"
  else String.singleton c

/-- A quoted name. -/
def quoted (name : String) : String := "\"" ++ String.join (name.toList.map escapeChar) ++ "\""

/-- Names in order, quoted, between brackets. -/
def nameList (names : List String) : String :=
  let sorted := names.mergeSort fun a b => a ≤ b
  "[" ++ ", ".intercalate (sorted.map quoted) ++ "]"

/-- A name and its fields between braces. -/
def record (name : String) (fields : List (String × String)) : String :=
  name ++ " \x7b " ++ ", ".intercalate (fields.map fun (k, v) => k ++ ": " ++ v) ++ " \x7d"

/-- The kinds of states that are run. -/
def kinds (s : Services) : String :=
  record "ExecutorRegistry" [("state_types", nameList (s.kinds.map (·.name)).eraseDups)]

/-- The functions that have handlers. -/
def handlers (bindings : List Binding) : String :=
  record "HandlerRegistry" [("handlers", nameList (bindings.map (·.text)))]

/-- The services, with the number of tokens that are pending. -/
def services (s : Services) (tokens : Tokens) : String :=
  record "EngineServices" [("executors", kinds s),
    ("task_tokens", toString tokens.pending.length),
    ("default_map_concurrency", toString s.concurrency)]

end StateFlow.Summary
