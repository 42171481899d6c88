import StateFlow.Choice.Codec
import StateFlow.DataFlow.Projection

/-!
# Records as documents

Definitions and options are records written as objects.  A record is read field by field in the
order of the document, so the first error of the document counts; a required field that is missing
is reported after all that are there.  Fields that a record does not know are skipped.

This module holds the errors of reading and the readers and writers of single fields.
-/

namespace StateFlow

/-- Why a document does not fit a record. -/
inductive RecordError where
  | missingField (name : String)
  | unknownVariant (name : String)
  /-- A value of another type than the field's. -/
  | wrongType
  /-- A number outside the field's range. -/
  | outOfRange
  /-- A record written as an array with too few or too many items. -/
  | wrongLength
  | rule (error : RuleError)
deriving DecidableEq, Repr, Inhabited

namespace RecordError

/-- The text of an error. -/
def message : RecordError → String
  | missingField name => s!"missing field `{name}`"
  | unknownVariant name => s!"unknown variant `{name}`"
  | wrongType => "invalid type"
  | outOfRange => "invalid value"
  | wrongLength => "invalid length"
  | rule error => error.message

end RecordError

/-- The greatest count of 64 bits. -/
def greatestCount64 : Nat := 0xFFFFFFFFFFFFFFFF

/-- The greatest count of 32 bits. -/
def greatestCount32 : Nat := 0xFFFFFFFF

namespace Json

/-! ## Reading fields -/

/-- A string field. -/
def readString : Json → Except RecordError String
  | string s => .ok s
  | _ => .error .wrongType

/-- A boolean field. -/
def readBoolean : Json → Except RecordError Bool
  | boolean b => .ok b
  | _ => .error .wrongType

/-- A count field with a greatest value; numbers with a point or an exponent are no counts. -/
def readCount (greatest : Nat) : Json → Except RecordError Nat
  | number (.integer n) => if 0 ≤ n ∧ n ≤ greatest then .ok n.toNat else .error .outOfRange
  | _ => .error .wrongType

/-- A list field. -/
def readItems : Json → Except RecordError (List Json)
  | array items => .ok items
  | _ => .error .wrongType

/-- A field that null leaves out. -/
def readOptional {α : Type} (read : Json → Except RecordError α) :
    Json → Except RecordError (Option α)
  | null => .ok none
  | document => some <$> read document

/-- A field for a free document, which null leaves out. -/
def readDocument? : Json → Option Json
  | null => none
  | document => some document

/-- A path field that is there. -/
def readPathField : Json → Except RecordError PathField
  | null => .ok .null
  | string s => .ok (.path s)
  | _ => .error .wrongType

/-- A required field must be among the entries. -/
def require (entries : List (String × Json)) (name : String) : Except RecordError Unit :=
  if Entries.contains entries name then .ok () else .error (.missingField name)

/-! ## Writing fields -/

/-- An entry for a value that is there. -/
def entryOf {α : Type} (name : String) (write : α → Json) : Option α → List (String × Json)
  | none => []
  | some value => [(name, write value)]

/-- An entry for a path field that is not absent. -/
def pathEntry (name : String) : PathField → List (String × Json)
  | .absent => []
  | .null => [(name, null)]
  | .path expression => [(name, string expression)]

end Json

end StateFlow
