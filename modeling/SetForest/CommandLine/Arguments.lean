import SetForest.Text.Decimal

/-!
# Arguments of the command line

An option with a value is written as two arguments or as one with an equals
sign between.  The form with two arguments is looked for first.  Behind an equals
sign a value may stand between quotes of one kind and must not be empty.  An
option that was found is removed, so what is left in the end are the arguments
that belong to no option.
-/

namespace SetForest.CommandLine

open Text

/-- Why arguments do not fit a command. -/
inductive ArgumentError where
  | withoutValue (name : String)
  | missing (name : String)
  | invalidValue (value : String) (cause : IntegerError)
  | unknown (argument : String)
deriving DecidableEq, Repr

def ArgumentError.message : ArgumentError → String
  | withoutValue name => s!"the '{name}' option doesn't have an associated value"
  | missing name => s!"the '{name}' option must be set"
  | invalidValue value cause => s!"failed to parse '{value}': {cause.message}"
  | unknown argument => s!"unknown argument '{argument}'"

/-- The arguments that were not taken so far. -/
abbrev ArgumentsM := StateT (List String) (Except ArgumentError)

/-- The value behind an equals sign, without quotes around it. -/
def unquote : List Char → Option (List Char)
  | [] => none
  | first :: rest =>
    if first = '"' ∨ first = '\x27' then
      if rest.getLast? = some first ∧ 1 < rest.length then some rest.dropLast else none
    else some (first :: rest)

/-- Find the value of an option and the arguments without the option. -/
def findValue (name : String) (arguments : List String) :
    Except ArgumentError (Option (String × List String)) :=
  let start := name.toList ++ ['=']
  match arguments.findIdx? (· == name) with
  | some place =>
    match arguments[place + 1]? with
    | none => .error (.withoutValue name)
    | some value => .ok (some (value, (arguments.eraseIdx (place + 1)).eraseIdx place))
  | none =>
    match arguments.findIdx? (start.isPrefixOf ·.toList) with
    | none => .ok none
    | some place =>
      let argument := (arguments[place]?.getD "").toList
      match unquote (argument.drop start.length) with
      | none => .error (.withoutValue name)
      | some value => .ok (some (String.ofList value, arguments.eraseIdx place))

/-- Take an option with a value, if it is there. -/
def takeValue? (name : String) : ArgumentsM (Option String) := do
  match ← findValue name (← get) with
  | none => return none
  | some (value, rest) =>
    set rest
    return some value

/-- Read the value of an option. -/
def readValue {α : Type} (read : List Char → Except IntegerError α) (value : String) :
    Except ArgumentError α :=
  (read value.toList).mapError (.invalidValue value)

/-- Take an option whose value is a number, if it is there. -/
def takeNumber? {α : Type} (name : String) (read : List Char → Except IntegerError α) :
    ArgumentsM (Option α) := do
  match ← takeValue? name with
  | none => return none
  | some value => return some (← readValue read value)

/-- Take an option whose value is a number and that has to be there. -/
def takeNumber {α : Type} (name : String) (read : List Char → Except IntegerError α) :
    ArgumentsM α := do
  match ← takeNumber? name read with
  | none => throw (.missing name)
  | some value => return value

/-- Take one occurrence of a flag. -/
def takeFlag (name : String) : ArgumentsM Bool := do
  let arguments ← get
  set (arguments.erase name)
  return arguments.contains name

/-- Take all arguments that are left as paths.  None may look like an option. -/
def takePaths : ArgumentsM (List String) := do
  let arguments ← get
  match arguments.find? fun argument => "--".toList.isPrefixOf argument.toList with
  | some argument => throw (.unknown argument)
  | none =>
    set ([] : List String)
    return arguments

end SetForest.CommandLine
