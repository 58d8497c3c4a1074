/-!
# Failures

A command that fails explains itself by a message and the causes behind it.  The
causes are listed below the message.  A single cause is indented, several are
numbered from zero.
-/

namespace SetForest.CommandLine

/-- A message and its causes, outermost first. -/
structure Failure where
  message : String
  causes : List String := []
deriving DecidableEq, Repr

namespace Failure

/-- A failure with the messages of an error and of its causes as its own causes. -/
def withContext (context : String) (messages : List String) : Failure :=
  ⟨context, messages⟩

/-- A failure whose first message is the outermost one. -/
def ofMessages (messages : List String) : Failure :=
  ⟨messages.headD "", messages.tail⟩

/-- A cause in its place.  Further lines of the cause are indented likewise. -/
def causeText (number : Option Nat) (cause : String) : String :=
  match number with
  | none => "    " ++ "\n    ".intercalate (cause.splitOn "\n")
  | some number =>
    let digits := toString number
    let blanks := String.ofList (List.replicate (5 - digits.length) ' ')
    blanks ++ digits ++ ": " ++ "\n       ".intercalate (cause.splitOn "\n")

/-- The text that is written for a failure. -/
def text (failure : Failure) : String :=
  let causes :=
    match failure.causes with
    | [] => []
    | [cause] => [causeText none cause]
    | causes => causes.zipIdx.map fun (cause, number) => causeText (some number) cause
  let heading := if causes.isEmpty then [] else ["", "Caused by:"]
  "Error: " ++ "\n".intercalate (failure.message :: heading ++ causes) ++ "\n"

end Failure

end SetForest.CommandLine
