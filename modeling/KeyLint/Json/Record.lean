import KeyLint.Json.Basic

/-!
# Records in JSON

A record is written as an object whose members set some of its fields, in any order, or as an array
that sets its first fields in the order of their declaration. Fields that are not set keep their
defaults. A name that is no field, a field that is set twice and an array that is too long are
refused.
-/

namespace KeyLint.Json

/-- A field of a record: its name, and how a value sets it. -/
structure Field (α : Type) where
  name : Text
  set? : Json → α → Option α

/-- The field `name` that is read by `read?` and stored by `store`. -/
def Field.of {α β : Type} (name : String) (read? : Json → Option β) (store : α → β → α) :
    Field α where
  name := name.toList
  set? v r := (read? v).map (store r)

/-- Sets fields by the members of an object; the fields of `seen` are set already. -/
def setMembers {α : Type} (fields : List (Field α)) :
    (seen : List Text) → List (Text × Json) → α → Option α
  | _, [], r => some r
  | seen, (name, v) :: members, r =>
    if seen.contains name then none
    else
      match fields.find? fun field => field.name = name with
      | none => none
      | some field => (field.set? v r).bind (setMembers fields (name :: seen) members)

/-- Sets fields by the items of an array, in order. -/
def setItems {α : Type} : List (Field α) → List Json → α → Option α
  | _, [], r => some r
  | [], _ :: _, _ => none
  | field :: fields, v :: items, r => (field.set? v r).bind (setItems fields items)

/-- The record that a value writes, where `default` has the fields that it does not set. -/
def record? {α : Type} (fields : List (Field α)) (default : α) : Json → Option α
  | .object members => setMembers fields [] members default
  | .array items => setItems fields items default
  | _ => none

end KeyLint.Json
