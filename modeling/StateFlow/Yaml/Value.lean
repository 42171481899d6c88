import StateFlow.Json.Basic
import StateFlow.Text.Hexadecimal
import StateFlow.Yaml.Node

/-!
# Values of nodes

A node has a JSON value.  A plain scalar stands for null, a truth value or a number where its text
is one of theirs, and for a string otherwise; every other scalar stands for a string.  A tag
overrules that, and a tag of the document's own has no value.

Reading follows aliases.  It goes at most 128 collections deep and follows at most a hundred aliases
for each part of the document, so it ends on documents that hold themselves and on those that would
grow without measure.
-/

namespace StateFlow.Yaml

/-! ## Plain scalars -/

namespace Plain

/-- True of the texts of null. -/
def isNull (text : String) : Bool := text ∈ ["", "null", "Null", "NULL", "~"]

/-- The truth value of a text. -/
def boolean? (text : String) : Option Bool :=
  if text ∈ ["true", "True", "TRUE"] then some true
  else if text ∈ ["false", "False", "FALSE"] then some false
  else none

/-- True of the characters of a sign. -/
def isSign (c : Char) : Bool := c = '+' || c = '-'

/-- A text without its sign. -/
def unsigned : List Char → List Char
  | c :: cs => if isSign c then cs else c :: cs
  | [] => []

/-- True of digits with a leading zero, which are a string. -/
def isPadded (cs : List Char) : Bool :=
  match unsigned cs with
  | '0' :: d :: ds => (d :: ds).all Number.isDigit
  | _ => false

/-- The value of some digits in a base. -/
def digits? (base : Nat) (cs : List Char) : Option Nat := do
  if cs = [] then none
  cs.foldlM (fun n c => do
    let d ← Text.hexValue? c
    if d < base then some (n * base + d) else none) 0

/-- The value of digits after a letter that gives the base, or of decimal digits. -/
def magnitude? : List Char → Option Nat
  | '0' :: 'x' :: cs => digits? 16 cs
  | '0' :: 'o' :: cs => digits? 8 cs
  | '0' :: 'b' :: cs => digits? 2 cs
  | cs => digits? 10 cs

/-- The greatest magnitude of 128 bits. -/
def greatestMagnitude : Nat := 0xFFFFFFFFFFFFFFFFFFFFFFFFFFFFFFFF

/-- The greatest magnitude of a negative integer of 128 bits. -/
def greatestNegative : Nat := 0x80000000000000000000000000000000

/-- The integer of a text, if it has one of 128 bits. -/
def integer? (cs : List Char) : Option Int := do
  if isPadded cs then none
  let n ← magnitude? (unsigned cs)
  if cs.head? = some '-' then (if n ≤ greatestNegative then some (-(n : Int)) else none)
  else if n ≤ greatestMagnitude then some (n : Int) else none

/-- The greatest decimal exponent of digits that may stand for a finite double. -/
def greatestDecimal : Int := 310

/-- The least decimal exponent of digits that may stand for another double than zero. -/
def leastDecimal : Int := -330

/-- The double nearest to some digits at a scale. -/
def nearest? (negative : Bool) (digits : List Char) (scale : Int) : Option Binary64 :=
  let digits := digits.dropWhile (· = '0')
  let exponent := scale + digits.length
  if digits = [] ∨ exponent < leastDecimal then some (Binary64.zero negative)
  else if greatestDecimal < exponent then none
  else Binary64.ofDecimal? negative (Number.natOfDigits digits) scale

/-- The double of a decimal with an optional point and an optional exponent, if it is finite. -/
def decimal? (cs : List Char) : Option Binary64 := do
  let negative := cs.head? = some '-'
  let cs := unsigned cs
  let whole := cs.takeWhile Number.isDigit
  let rest := cs.dropWhile Number.isDigit
  let (fraction, rest) := match rest with
    | '.' :: rest => (rest.takeWhile Number.isDigit, rest.dropWhile Number.isDigit)
    | rest => ([], rest)
  if whole = [] ∧ fraction = [] then none
  let exponent ← Number.Literal.readExponent? rest
  nearest? negative (whole ++ fraction) (exponent.getD 0 - fraction.length)

/-- True of the texts of an infinity or of no number, which have no JSON number. -/
def isUnbounded (text : String) : Bool :=
  text ∈ [".inf", ".Inf", ".INF", "+.inf", "+.Inf", "+.INF", "-.inf", "-.Inf", "-.INF", ".nan",
    ".NaN", ".NAN"]

/-- The number of a text that is no integer; null for one without a JSON number. -/
def real? (text : String) : Option Json :=
  if isUnbounded text then some .null else (.number ∘ .real) <$> decimal? text.toList

/-- The JSON value of an integer, if it has 64 bits. -/
def ofInteger? (n : Int) : Option Json :=
  if Number.leastInteger ≤ n ∧ n ≤ Number.greatestInteger then some (.number (.integer n)) else none

/-- The value of a plain scalar; none for an integer between 64 and 128 bits. -/
def value? (text : String) : Option Json :=
  if isNull text then some .null
  else match boolean? text with
    | some b => some (.boolean b)
    | none => match integer? text.toList with
      | some n => ofInteger? n
      | none =>
        if isPadded text.toList then some (.string text)
        else some ((real? text).getD (.string text))

end Plain

/-! ## Tags -/

/-- True of the tags of a document's own. -/
def isOwnTag : Option String → Bool
  | some tag => tag.startsWith "!"
  | none => false

/-- The value of a scalar. -/
def scalarValue? (tag? : Option String) (text : String) (plain : Bool) : Option Json :=
  match tag? with
  | none => if plain then Plain.value? text else some (.string text)
  | some tag =>
    if isOwnTag tag? then none
    else if tag = "tag:yaml.org,2002:bool" then .boolean <$> Plain.boolean? text
    else if tag = "tag:yaml.org,2002:int" then Plain.integer? text.toList >>= Plain.ofInteger?
    else if tag = "tag:yaml.org,2002:float" then Plain.real? text
    else if tag = "tag:yaml.org,2002:null" then
      (if text ≠ "" ∧ Plain.isNull text then some .null else none)
    else some (.string text)

/-! ## Collections -/

mutual

/-- The number of parts of a node: a collection has a start and an end. -/
def Node.size : Node → Nat
  | .sequence _ items => Node.sizeItems items + 2
  | .mapping _ entries => Node.sizeEntries entries + 2
  | _ => 1

/-- The number of parts of some items. -/
def Node.sizeItems : List Node → Nat
  | [] => 0
  | item :: items => item.size + Node.sizeItems items

/-- The number of parts of some entries. -/
def Node.sizeEntries : List (Node × Node) → Nat
  | [] => 0
  | (key, value) :: entries => key.size + value.size + Node.sizeEntries entries

end

/-- A reading of nodes that may fail; it carries how many aliases may still be followed. -/
abbrev Following := StateT Nat Option

namespace Document

/-- The greatest number of collections around a node that is read. -/
def greatestDepth : Nat := 128

/-- The number of aliases that may be followed. -/
def patience (d : Document) : Nat := 100 * d.root.size

/-- The node that a node stands for. -/
def follow (d : Document) : Node → Following Node
  | .alias number => do
    let left ← get
    if left = 0 then failure
    set (left - 1)
    return d.resolve (.alias number)
  | node => return node

/-- The text of a scalar, whatever its tag. -/
def text (d : Document) (node : Node) : Following String := do
  match ← d.follow node with
  | .scalar _ text _ => return text
  | _ => failure

/-- The value of a node with a number of collections at most inside it. -/
def value (d : Document) : (depth : Nat) → Node → Following Json
  | 0, node => do
    match ← d.follow node with
    | .scalar tag? text plain => liftM (scalarValue? tag? text plain)
    | _ => failure
  | depth + 1, node => do
    match ← d.follow node with
    | .scalar tag? text plain => liftM (scalarValue? tag? text plain)
    | .sequence tag? items =>
      if isOwnTag tag? then failure
      return .array (← items.mapM (value d depth))
    | .mapping tag? entries =>
      if isOwnTag tag? then failure
      let pairs ← entries.mapM fun (k, v) => do
        let name ← d.text k
        return (name, ← value d depth v)
      return .object (Entries.ofPairs pairs)
    | .alias _ => failure

end Document

end StateFlow.Yaml
