/-!
# Fields of a text

A text cut at every occurrence of a separator.

## Main Definitions

* `Text.fields`
-/

namespace GraphQLStatics.Text

/-- A list of characters cut at a separator. -/
def cut (separator : Char) : List Char → List (List Char)
  | [] => [[]]
  | c :: cs =>
    if c = separator then [] :: cut separator cs
    else
      match cut separator cs with
      | [] => [[c]]
      | field :: fields => (c :: field) :: fields

/-- The fields of a text: there is one more of them than separators. -/
def fields (separator : Char) (text : String) : List String :=
  (cut separator text.toList).map String.ofList

end GraphQLStatics.Text
