import GraphQLStatics.Text.Fields
import GraphQLStatics.Validation.Validator

/-!
# Arguments

What the arguments of the `graphql` command ask for.

## Main Definitions

* `ArgumentForm`: an argument by its shape
* `ValidateCommand`, `ValidateOptions`: what `validate` is asked to do
* `Request`, `Request.ofArguments?`

## Design Notes

Arguments are read from left to right, and the first one that asks for help or
for the version settles the request.  Those after it are not looked at.
-/

namespace GraphQLStatics

/-- An argument by its shape. -/
inductive ArgumentForm where
  /-- `--`, after which every argument is plain. -/
  | separator
  /-- `--name` or `--name=value`. -/
  | long (name : String) (value : Option String)
  /-- `-` and the letters of one or more flags. -/
  | short (flags : List Char)
  | plain
  deriving DecidableEq, Repr

/-- The name and the value of a long option that is written without its
dashes. -/
def ArgumentForm.longOf (cs : List Char) : ArgumentForm :=
  .long (String.ofList (cs.takeWhile (· ≠ '=')))
    (match cs.dropWhile (· ≠ '=') with
      | [] => none
      | _ :: value => some (String.ofList value))

/-- The shape of an argument. -/
def ArgumentForm.of (argument : String) : ArgumentForm :=
  match argument.toList with
  | ['-', '-'] => .separator
  | '-' :: '-' :: cs => longOf cs
  | '-' :: c :: cs => .short (c :: cs)
  | _ => .plain

/-- What `validate` is asked to do. -/
structure ValidateCommand where
  /-- Where the files of the schema are looked for. -/
  schemas : List String
  /-- Where the documents are looked for. -/
  paths : List String
  /-- The extensions of the files that are looked for, without a dot. -/
  extensions : List String
  poolCapacity : Nat
  deriving DecidableEq, Repr

/-- Subjects on which there is help. -/
inductive HelpTopic where
  | program
  | validate
  | help
  deriving DecidableEq, Repr

/-- What arguments ask for. -/
inductive Request where
  | help (topic : HelpTopic)
  | version
  /-- No command is named. -/
  | nothing (verbose : Bool)
  | validate (verbose : Bool) (command : ValidateCommand)
  deriving DecidableEq, Repr

/-! ### The options of `validate` -/

/-- The options of `validate` as far as they have been read. -/
structure ValidateOptions where
  schemas : List String
  paths : List String
  extensions : Option (List String)
  poolCapacity : Option Nat
  deriving DecidableEq, Repr

/-- A count that fits in 64 bits: decimal digits, after a plus sign or not. -/
def readCount? (text : String) : Option Nat :=
  let digits := match text.toList with
    | '+' :: cs => cs
    | cs => cs
  if digits.isEmpty || digits.any (! ·.isDigit) then none
  else
    let n := digits.foldl (fun n c => n * 10 + (c.toNat - '0'.toNat)) 0
    if n < Nat.pow 2 64 then some n else none

namespace ValidateOptions

/-- No option is given. -/
def initial : ValidateOptions := ⟨[], [], none, none⟩

/-- Add a path, which must not be empty. -/
def addPath? (o : ValidateOptions) (path : String) : Option ValidateOptions :=
  if path.isEmpty then none else some { o with paths := o.paths ++ [path] }

/-- Add the value of a long option.  Lists are separated by commas and may be
given in several parts; a count may be given only once. -/
def set? (o : ValidateOptions) (name value : String) : Option ValidateOptions :=
  match name with
  | "schema" =>
    let parts := Text.fields ',' value
    if parts.any String.isEmpty then none else some { o with schemas := o.schemas ++ parts }
  | "graphql-file-exts" =>
    some { o with extensions := some (o.extensions.getD [] ++ Text.fields ',' value) }
  | "pool-capacity" =>
    match o.poolCapacity, readCount? value with
    | none, some n => some { o with poolCapacity := some n }
    | _, _ => none
  | _ => none

/-- A file extension without the dots before it. -/
def withoutDots (ext : String) : String :=
  String.ofList (ext.toList.dropWhile (· = '.'))

/-- The command of complete options: there must be a schema and a path. -/
def command? (o : ValidateOptions) : Option ValidateCommand :=
  if o.schemas.isEmpty || o.paths.isEmpty then none
  else some {
    schemas := o.schemas
    paths := o.paths
    extensions := (o.extensions.getD ["graphql", "graphqls"]).map withoutDots
    poolCapacity := o.poolCapacity.getD ValidatorConfig.standard.poolCapacity }

/-- Read the arguments that follow `validate`. -/
def read? (verbose : Bool) (o : ValidateOptions) : List String → Option Request
  | [] => o.command?.map (.validate verbose)
  | argument :: rest =>
    match ArgumentForm.of argument with
    | .separator =>
      ((rest.foldlM addPath? o).bind command?).map (.validate verbose)
    | .plain => (o.addPath? argument).bind fun o => read? verbose o rest
    | .short flags => if flags.head? = some 'h' then some (.help .validate) else none
    | .long name (some value) => (o.set? name value).bind fun o => read? verbose o rest
    | .long "help" none => some (.help .validate)
    | .long name none =>
      match rest with
      | [] => none
      | value :: rest =>
        if ArgumentForm.of value = .plain then
          (o.set? name value).bind fun o => read? verbose o rest
        else none

end ValidateOptions

/-! ### Requests -/

namespace Request

/-- The request after the word `help`. -/
def helpOn? : List String → Option Request
  | [] => some (.help .program)
  | ["validate"] => some (.help .validate)
  | ["help"] => some (.help .help)
  | _ => none

/-- Read the letters of short flags.  The result is a request that they settle,
or else whether the output is verbose. -/
def readFlags? (verbose : Bool) : List Char → Option (Request ⊕ Bool)
  | [] => some (.inr verbose)
  | 'h' :: _ => some (.inl (.help .program))
  | 'V' :: _ => some (.inl .version)
  | 'v' :: cs => if verbose then none else readFlags? true cs
  | _ :: _ => none

/-- Read arguments, after a flag for verbose output or not. -/
def read? (verbose : Bool) : List String → Option Request
  | [] => some (.nothing verbose)
  | argument :: rest =>
    match ArgumentForm.of argument with
    | .separator => if rest.isEmpty then some (.nothing verbose) else none
    | .plain =>
      match argument with
      | "validate" => ValidateOptions.initial.read? verbose rest
      | "help" => helpOn? rest
      | _ => none
    | .short flags =>
      match readFlags? verbose flags with
      | some (.inl request) => some request
      | some (.inr verbose) => read? verbose rest
      | none => none
    | .long "help" none => some (.help .program)
    | .long "version" none => some .version
    | .long "verbose" none => if verbose then none else read? true rest
    | .long _ _ => none

/-- What arguments ask for, unless they make no sense. -/
def ofArguments? (arguments : List String) : Option Request :=
  read? false arguments

end Request

end GraphQLStatics
