import Mathlib.Data.List.Basic

/-!
# Comma-separated files

The grammar of RFC 4180 with LF-terminated records, as a relation between the
records of a file and its characters.  A field may be written bare when it
holds none of the characters with a meaning of their own, and in double
quotes, with the quotes inside it doubled, always.
-/

namespace Rfc4180

/-- The characters that end a field or a record, or open a quoted field. -/
def special (char : Char) : Bool :=
  char = '"' || char = ',' || char = '\r' || char = '\n'

/-- A double quote inside a quoted field is written twice. -/
def double (char : Char) : List Char :=
  if char = '"' then ['"', '"'] else [char]

inductive FieldText : String → List Char → Prop
  | bare {field : String} :
      (∀ char ∈ field.toList, special char = false) →
      FieldText field field.toList
  | quoted (field : String) :
      FieldText field ('"' :: (field.toList.flatMap double ++ ['"']))

/-- The ways to write one record: its fields, separated by commas. -/
inductive RecordText : List String → List Char → Prop
  | single {field : String} {text : List Char} :
      FieldText field text → RecordText [field] text
  | cons {field : String} {fields : List String} {text rest : List Char} :
      FieldText field text → RecordText fields rest →
      RecordText (field :: fields) (text ++ ',' :: rest)

/-- The ways to write a file: its records, each ended by a line feed. -/
inductive FileText : List (List String) → List Char → Prop
  | nil : FileText [] []
  | cons {record : List String} {records : List (List String)}
      {text rest : List Char} :
      RecordText record text → FileText records rest →
      FileText (record :: records) (text ++ '\n' :: rest)

end Rfc4180
