import GraphQLStatics.Text.Hidden

/-!
# Quoted text

Text in double quotes for messages, with escapes for quotes, backslashes and
characters that would not show.

## Main Definitions

* `escaped`, `quoted`
-/

namespace GraphQLStatics.Text

/-- A character as it stands between quotes. -/
def escaped (c : Char) : List Char :=
  if c == '"' then ['\\', '"']
  else if c == '\\' then ['\\', '\\']
  else if c == '\t' then ['\\', 't']
  else if c == '\n' then ['\\', 'n']
  else if c == '\r' then ['\\', 'r']
  else if c.toNat = 0 then ['\\', '0']
  else if isHidden c then ['\\', 'u', '{'] ++ Nat.toDigits 16 c.toNat ++ ['}']
  else [c]

/-- A text in double quotes. -/
def quoted (text : String) : String :=
  String.ofList ('"' :: (text.toList.flatMap escaped ++ ['"']))

end GraphQLStatics.Text
