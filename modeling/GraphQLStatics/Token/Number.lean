import GraphQLStatics.Token.Basic

/-!
# Number tokens

A number token is a run of characters that begins with a digit or a minus sign
and ends before white space, a comment or punctuation.  `Token.ofNumber?`
decides whether such a run is an integer literal, a float literal or neither.

## Main Definitions

* `Token.endsNumber`
* `Token.isIntLiteral`, `Token.isDecimal`, `Token.isExponent`
* `Token.ofNumber?`

## Design Notes

The first character of an exponent is a sign or one of the digits one to
eight, and the digits after a sign may be missing.  Such a literal is a token
that denotes no value.
-/

namespace GraphQLStatics.Token

/-- Whether a character ends a number. -/
def endsNumber (c : Char) : Bool :=
  c == ' ' || c == '\n' || c == '\r' || c == '\t' || c == ',' || c == '#' ||
    (Punctuator.ofChar? c).isSome

/-- The parts before and after the last character that satisfies `p`. -/
def splitLast (p : Char → Bool) (cs : List Char) : Option (List Char × List Char) :=
  match cs.reverse.span (fun c => !p c) with
  | (_, []) => none
  | (after, _ :: before) => some (before.reverse, after.reverse)

/-- An integer literal has an optional minus sign and no needless leading
zero. -/
def isIntLiteral : List Char → Bool
  | ['0'] => true
  | ['-', '0'] => true
  | '0' :: _ => false
  | '-' :: '0' :: _ => false
  | ['-'] => false
  | [] => false
  | _ :: rest => rest.all Char.isDigit

/-- An integer literal that may be followed by a point and digits. -/
def isDecimal (cs : List Char) : Bool :=
  match splitLast (· == '.') cs with
  | none => isIntLiteral cs
  | some (whole, fraction) =>
    isIntLiteral whole && !fraction.isEmpty && fraction.all Char.isDigit

/-- What may follow the exponent mark of a float literal. -/
def isExponent : List Char → Bool
  | [] => false
  | c :: rest =>
    (c == '+' || c == '-' || ('1' ≤ c && c ≤ '8')) && rest.all Char.isDigit

/-- Whether a character separates a mantissa from its exponent. -/
def isExponentMark (c : Char) : Bool :=
  c == 'e' || c == 'E'

/-- The token of a run of number characters, if it is one. -/
def ofNumber? (cs : List Char) : Option Token :=
  match splitLast isExponentMark cs with
  | some (mantissa, exponent) =>
    if isDecimal mantissa && isExponent exponent then some (.float cs) else none
  | none =>
    if isIntLiteral cs then some (.int cs)
    else if isDecimal cs then some (.float cs)
    else none

end GraphQLStatics.Token
