/-!
# Values

Input values as written in a document or as defaults in a schema.

## Main Definitions

* `Value`
* `Value.insertField`, `Value.ofFields`: object values, sorted by field name
-/

namespace GraphQLStatics

/-- An input value.  A float is the bit pattern of a 64-bit number, and the
fields of an object are in ascending order without repetition. -/
inductive Value where
  | var (name : String)
  | int (n : Int)
  | float (bits : UInt64)
  | string (text : String)
  | boolean (b : Bool)
  | null
  | enum (name : String)
  | list (items : List Value)
  | object (fields : List (String × Value))

namespace Value

/-- Whether a value is the literal `null`. -/
def isNull : Value → Bool
  | .null => true
  | _ => false

/-- Add a field to a list in ascending order, in place of one of that name. -/
def insertField (name : String) (value : Value) :
    List (String × Value) → List (String × Value)
  | [] => [(name, value)]
  | (key, old) :: rest =>
    if name = key then (name, value) :: rest
    else if name < key then (name, value) :: (key, old) :: rest
    else (key, old) :: insertField name value rest

/-- The object with the given fields; of two with one name the later counts. -/
def ofFields (fields : List (String × Value)) : Value :=
  .object (fields.foldl (fun sorted field => insertField field.1 field.2 sorted) [])

end Value

end GraphQLStatics
