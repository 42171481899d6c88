/-!
# Wildcard patterns

A pattern is a text in which `*` stands for any run of characters, line breaks included, and `\*`
for a star; every other character, a backslash before anything but a star among them, stands for
itself.

`Wildcard.Matches` says when a text can be cut into pieces that fit the parts of a pattern in order.
`Wildcard.accepts` decides it: for each part, from the last to the first, it computes from which
places of the text the rest of the pattern fits.
-/

namespace StateFlow

/-- A part of a wildcard pattern. -/
inductive Wildcard where
  /-- Any run of characters. -/
  | run
  /-- One given character. -/
  | exactly (c : Char)
deriving DecidableEq, Repr, Inhabited

namespace Wildcard

/-- The parts of a pattern. -/
def parts : List Char → List Wildcard
  | [] => []
  | '\\' :: '*' :: cs => exactly '*' :: parts cs
  | c :: cs => (if c = '*' then run else exactly c) :: parts cs

/-- The text can be cut into pieces that fit the parts in order. -/
inductive Matches : List Wildcard → List Char → Prop where
  | nil : Matches [] []
  | exactly {c : Char} {ps : List Wildcard} {cs : List Char} :
      Matches ps cs → Matches (exactly c :: ps) (c :: cs)
  | run {ps : List Wildcard} {piece cs : List Char} :
      Matches ps cs → Matches (run :: ps) (piece ++ cs)

/-- One more character before the places of a text: does it fit, and does the rest fit after it. -/
def extend (c : Char) : List Char → List Bool → List Bool
  | d :: ds, _ :: fits => (c == d && fits.head?.getD false) :: extend c ds fits
  | _, _ => [false]

/-- From which places any place at or after them fits. -/
def reach : List Bool → List Bool
  | [] => []
  | fit :: fits =>
    let later := reach fits
    (fit || later.head?.getD false) :: later

/-- For each place of a text, its end included, whether the parts fit from there to the end. -/
def fitsFrom (text : List Char) : List Wildcard → List Bool
  | [] => List.replicate text.length false ++ [true]
  | exactly c :: ps => extend c text (fitsFrom text ps)
  | run :: ps => reach (fitsFrom text ps)

/-- True when the whole text fits the parts. -/
def accepts (ps : List Wildcard) (text : List Char) : Bool := (fitsFrom text ps).head?.getD false

/-- True when a text fits a pattern. -/
def fits (pattern text : String) : Bool := accepts (parts pattern.toList) text.toList

end Wildcard

end StateFlow
