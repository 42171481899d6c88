/-!
# Tokens

The tokens of a text in which collections are written by indentation or between brackets.  Where
collections are written by indentation, tokens stand for their starts and ends; where a scalar turns
out to be a key, a token before it says so.
-/

namespace StateFlow.Yaml

/-- A token. -/
inductive Token where
  /-- The version that a text says it is written in. -/
  | version (major minor : Nat)
  /-- What a tag handle stands for. -/
  | tagHandle (handle meaning : String)
  | documentStart
  | documentEnd
  | blockSequenceStart
  | blockMappingStart
  | blockEnd
  | flowSequenceStart
  | flowSequenceEnd
  | flowMappingStart
  | flowMappingEnd
  | blockEntry
  | flowEntry
  | key
  | value
  | alias (name : String)
  | anchor (name : String)
  | tag (handle suffix : String)
  /-- A scalar; a plain one has no quotes and is not a block. -/
  | scalar (text : String) (plain : Bool)
  | streamEnd
deriving DecidableEq, Repr, Inhabited

end StateFlow.Yaml
