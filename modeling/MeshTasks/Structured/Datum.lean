/-!
# Structured values

A datum is a value as data formats exchange it: nothing, a truth value, a
number, a text, a list or a record of named fields. A structure is read from a
record by the names of its fields, or from a list by their positions. An
alternative without content is its name; the content of one that has any is read
by names only.
-/

namespace MeshTasks

inductive Datum where
  | nothing
  | flag (value : Bool)
  | number (value : Int)
  /-- A number that was not written as a whole number. Nothing here reads
  one. -/
  | fraction
  | text (value : String)
  | list (items : List Datum)
  | record (fields : List (String × Datum))

instance : Inhabited Datum := ⟨.nothing⟩

/-- Values with a form as data. -/
class Structured (α : Type) where
  toDatum : α → Datum
  ofDatum? : Datum → Option α

export Structured (toDatum ofDatum?)

/-- What is found in place of a field of a structure. -/
inductive Field where
  | given (datum : Datum)
  /-- A record without the name. -/
  | unnamed
  /-- A list that ends before the position. -/
  | beyond

namespace Datum

/-- The field of a record under a name. -/
def fieldNamed (fields : List (String × Datum)) (name : String) : Field :=
  match fields.lookup name with
  | some datum => .given datum
  | none => .unnamed

/-- The items of a list as fields, filled up to a number of fields. -/
def fillFields : Nat → List Datum → List Field
  | 0, _ => []
  | count + 1, [] => .beyond :: fillFields count []
  | count + 1, item :: rest => .given item :: fillFields count rest

/-- The fields of a structure with the given field names. A list must not hold
more. -/
def fields? (names : List String) : Datum → Option (List Field)
  | record fields => some (names.map (fieldNamed fields))
  | list items =>
      if items.length ≤ names.length then some (fillFields names.length items) else none
  | _ => none

/-- The name of an alternative without content, written alone or as the only
field of a record with nothing in it. -/
def name? : Datum → Option String
  | text name => some name
  | record [(name, nothing)] => some name
  | _ => none

/-- Whether every field of a record has one of the given names; other data have
no names. -/
def hasOnly (names : List String) : Datum → Bool
  | record fields => fields.all fun field => decide (field.1 ∈ names)
  | _ => true

/-- A whole number below a bound. -/
def below? (bound : Nat) : Datum → Option Nat
  | number value => if 0 ≤ value ∧ value < bound then some value.toNat else none
  | _ => none

end Datum

namespace Field

variable {α : Type} [Structured α]

/-- A field that must be given. -/
def required? : Field → Option α
  | given datum => ofDatum? datum
  | _ => none

/-- A field that a record may leave out. -/
def optional? : Field → Option (Option α)
  | given .nothing => some none
  | given datum => (ofDatum? datum).map some
  | unnamed => some none
  | beyond => none

/-- A field with a value of its own when it is not given. -/
def orDefault? (value : α) : Field → Option α
  | given datum => ofDatum? datum
  | _ => some value

end Field

instance : Structured Bool where
  toDatum := .flag
  ofDatum?
    | .flag value => some value
    | _ => none

instance : Structured String where
  toDatum := .text
  ofDatum?
    | .text value => some value
    | _ => none

instance : Structured UInt32 where
  toDatum value := .number value.toNat
  ofDatum? datum := (datum.below? 4294967296).map UInt32.ofNat

instance : Structured UInt64 where
  toDatum value := .number value.toNat
  ofDatum? datum := (datum.below? 18446744073709551616).map UInt64.ofNat

instance {α : Type} [Structured α] : Structured (Option α) where
  toDatum
    | none => .nothing
    | some value => toDatum value
  ofDatum?
    | .nothing => some none
    | datum => (ofDatum? datum).map some

instance {α : Type} [Structured α] : Structured (List α) where
  toDatum values := .list (values.map toDatum)
  ofDatum?
    | .list items => items.mapM ofDatum?
    | _ => none

end MeshTasks
