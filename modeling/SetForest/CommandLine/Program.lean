import SetForest.CommandLine.Arguments
import SetForest.CommandLine.Failure
import SetForest.CommandLine.FileTree
import SetForest.CommandLine.Report
import SetForest.OperationFile.Reader
import SetForest.OperationFile.Writer
import SetForest.Workload.Generate
import SetForest.Workload.Persistent

/-!
# The program

The program replays operation files, generates them, and runs the persistent
workload.  It is a function of its arguments, of the files that it may read and
of a seed for the case that none is given.  What it prints and writes is
collected, and what was collected before a failure stays.
-/

namespace SetForest.CommandLine

/-- The text that lists the commands. -/
def usage : String :=
  "Usage:\n" ++
  "  lhf-bench run [--backend local|locked|concurrent] [--dump] [--json FILE] PATH...\n" ++
  "  lhf-bench generate --count N --max-size S --max-val V [--seed X] [OUT]\n" ++
  "  lhf-bench persistent --properties P --iterations I [--seed X] [--profile]"

/-- A text, or a report that is completed by the time of the run. -/
inductive Document where
  | text (content : String)
  | report (summary : Report)

/-- The text of a document that was put out after the given time. -/
def Document.render (microseconds : Nat) : Document → String
  | .text content => content
  | .report summary => summary.json microseconds

/-- Where a document goes.  A file is given by its path. -/
inductive Target where
  | output
  | complaints
  | file (path : String)
deriving DecidableEq, Repr

/-- What was put out, latest first. -/
abbrev Output := List (Target × Document)

/-- An action of the program.  A failure keeps what was put out before it. -/
abbrev ProgramM := ExceptT Failure (StateM Output)

/-- Put out a document. -/
def send (target : Target) (document : Document) : ProgramM Unit :=
  modify ((target, document) :: ·)

/-- Print a text. -/
def print (text : String) : ProgramM Unit :=
  send .output (.text text)

/-- Open a path for writing, and tell the device that is there, if there is one. -/
def openPath (tree : FileTree) (verb path : String) : ProgramM (Option Device) := do
  match tree.deviceToWrite path with
  | .error error => throw (.withContext s!"failed to {verb} {path}" [error.message])
  | .ok device? => return device?

/-- Write a document to an opened path, with the device that is there. -/
def write (path : String) (device? : Option Device) (document : Document) : ProgramM Unit :=
  match device? with
  | none => send (.file path) document
  | some .output => send .output document
  | some .complaints => send .complaints document
  | some _ => return

/-- Take what a command needs from its arguments, which is all of them. -/
def parseArguments {α : Type} (parse : ArgumentsM α) (arguments : List String) : ProgramM α :=
  match parse.run' arguments with
  | .ok value => return value
  | .error error => throw ⟨error.message, []⟩

/-- Use a forest of its own for an action on a family. -/
def onForest {α : Type} (action : FamilyM Int64 1 α) (family : Family Int64 1) :
    ProgramM (α × Family Int64 1) :=
  match action family with
  | (.ok value, family) => return (value, family)
  | (.error error, _) => throw ⟨error.message, []⟩

/-! ## Replaying files -/

/-- What can be said about a run. -/
structure RunOptions where
  backend : String
  dump : Bool
  json : Option String
  paths : List String

/-- Take the options of a run. -/
def runOptions : ArgumentsM RunOptions := do
  let backend := (← takeValue? "--backend").getD "local"
  let dump ← takeFlag "--dump"
  let json ← takeValue? "--json"
  return { backend, dump, json, paths := ← takePaths }

/-- How far a run has come. -/
structure Progress where
  family : Family Int64 1
  cases : Nat := 0
  mismatches : Nat := 0

/-- Read the cases of an operation file. -/
def loadCases (tree : FileTree) (path : String) : ProgramM (List Case) := do
  match tree.readText path with
  | .error error => throw (.withContext s!"failed to read {path}" [error.message])
  | .ok text =>
    match OperationFile.read text.toList with
    | .error .excessiveCount => throw (.ofMessages OperationFile.FormatError.excessiveCount.messages)
    | .error error => throw (.withContext s!"failed to parse {path}" error.messages)
    | .ok cases => return cases

/-- Replay the cases of one file and print its mismatches. -/
def replayFile (tree : FileTree) (progress : Progress) (path : String) : ProgramM Progress := do
  let cases ← loadCases tree path
  let (mismatches, family) ← onForest (Workload.replay 0 cases) progress.family
  print (String.join (mismatches.map (mismatchText path)))
  return { family
           cases := progress.cases + cases.length
           mismatches := progress.mismatches + mismatches.length }

/-- Find the operation files that a path stands for. -/
def findFiles (tree : FileTree) (path : String) : ProgramM (List String) := do
  match tree.operationFiles path with
  | .ok files => return files
  | .error directory =>
    let cause := FileError.nameTooLong.message
    throw (.withContext s!"failed to walk {path}"
      [s!"IO error for operation on {directory}: {cause}", cause])

/-- Write the report of a run. -/
def writeReport (tree : FileTree) (path : String) (report : Report) : ProgramM Unit := do
  let device? ← openPath tree "write" path
  if device? = some .full then
    throw (.withContext s!"failed to write {path}" [FileError.noSpace.message])
  write path device? (.report report)

/-- Replay operation files in turn on one forest. -/
def runCommand (tree : FileTree) (arguments : List String) : ProgramM Unit := do
  let options ← parseArguments runOptions arguments
  if options.paths.isEmpty then throw ⟨"no operation files given\n" ++ usage, []⟩
  let files := (← options.paths.mapM (findFiles tree)).flatten
  let some strategy := Strategy.ofName? options.backend
    | throw ⟨s!"unknown backend '{options.backend}'", []⟩
  let start : Progress := { family := .single {} strategy }
  let progress ← files.foldlM (replayFile tree) start
  let reading := Family.reading (fun forest => .ok (forest.dump, forest.statistics)) 0
  let ((dump, statistics), _) ← onForest reading progress.family
  if options.dump then print dump
  print statistics.text
  let { cases, mismatches, .. } := progress
  if let some path := options.json then
    writeReport tree path ⟨strategy, files.length, cases, mismatches, statistics⟩
  if 0 < mismatches then throw ⟨s!"{mismatches} of {cases} test(s) did not match", []⟩
  print s!"All {cases} test(s) passed.\n"

/-! ## Random workloads -/

/-- What can be said about the cases to generate. -/
structure GenerateOptions where
  count : Nat
  maxSize : Nat
  maxValue : Nat
  seed : Option Nat
  paths : List String

/-- Take the options for generating cases. -/
def generateOptions : ArgumentsM GenerateOptions := do
  let count ← takeNumber "--count" Text.readUnsigned
  let maxSize ← takeNumber "--max-size" Text.readUnsigned
  let maxValue ← takeNumber "--max-val" Text.readUnsigned
  let seed ← takeNumber? "--seed" Text.readUnsigned
  return { count, maxSize, maxValue, seed, paths := ← takePaths }

/-- The generator of a workload. -/
def source (chosen : Option Nat) (fallback : UInt64) : SplitMix :=
  ⟨chosen.elim fallback UInt64.ofNat⟩

/-- The number of bytes that are gathered before an operation file is written
out.  What is left at the end is written without a complaint if that fails. -/
def gathered : Nat := 8192

/-- Write an operation file of random cases. -/
def writeCases (tree : FileTree) (path text : String) : ProgramM Unit := do
  let device? ← openPath tree "create" path
  if device? = some .full ∧ gathered < text.utf8ByteSize then
    throw ⟨FileError.noSpace.message, []⟩
  write path device? (.text text)

/-- Write an operation file of random cases, or print it if no path is given. -/
def generateCommand (tree : FileTree) (seed : UInt64) (arguments : List String) :
    ProgramM Unit := do
  let options ← parseArguments generateOptions arguments
  let generation :=
    Workload.generate options.count (.ofNat options.maxSize) (.ofNat options.maxValue)
  match (generation (source options.seed seed)).1 with
  | .error error => throw ⟨error.message, []⟩
  | .ok cases =>
    let text := String.ofList (OperationFile.write cases)
    match options.paths with
    | [] => print text
    | [path] => writeCases tree path text
    | _ => throw ⟨"generate takes at most one output file", []⟩

/-- What can be said about the persistent workload. -/
structure PersistentOptions where
  properties : Int64
  iterations : Nat
  seed : Option Nat
  profile : Bool

/-- Take the options of the persistent workload. -/
def persistentOptions : ArgumentsM PersistentOptions := do
  let properties ← takeNumber "--properties" Text.readSigned
  let iterations ← takeNumber "--iterations" Text.readUnsigned
  let seed ← takeNumber? "--seed" Text.readUnsigned
  let profile ← takeFlag "--profile"
  let _ ← takePaths
  return { properties, iterations, seed, profile }

/-- Run the persistent workload and print its statistics. -/
def persistentCommand (seed : UInt64) (arguments : List String) : ProgramM Unit := do
  let options ← parseArguments persistentOptions arguments
  if options.properties ≤ 0 ∨ options.iterations = 0 then
    throw ⟨"--properties and --iterations must be greater than 0", []⟩
  let config : Config := { profiling := options.profile }
  let workload := Workload.persistent 0 options.properties.toInt.toNat options.iterations
  let (_, family) ←
    onForest (workload.run' (source options.seed seed)) (.single config .unshared)
  let (statistics, _) ← onForest (Family.reading (fun forest => .ok forest.statistics) 0) family
  print statistics.text

/-! ## Commands -/

/-- Carry out the command that the arguments name.  Without one, list them. -/
def program (tree : FileTree) (seed : UInt64) : List String → ProgramM Unit
  | [] => print (usage ++ "\n")
  | command :: arguments =>
    if command.startsWith "-" then print (usage ++ "\n")
    else
      match command with
      | "run" => runCommand tree arguments
      | "generate" => generateCommand tree seed arguments
      | "persistent" => persistentCommand seed arguments
      | _ => throw ⟨s!"unknown command '{command}'\n" ++ usage, []⟩

/-- The outcome of the program: its exit status, and what it put out in this
order. -/
structure Result where
  status : Nat
  documents : List (Target × Document)

/-- Run the program.  A failure is explained where complaints go. -/
def run (tree : FileTree) (seed : UInt64) (arguments : List String) : Result :=
  match program tree seed arguments [] with
  | (.ok _, output) => ⟨0, output.reverse⟩
  | (.error failure, output) =>
    ⟨1, ((.complaints, .text failure.text) :: output).reverse⟩

namespace Result

/-- All that went to a target. -/
def textFor (result : Result) (microseconds : Nat) (target : Target) : String :=
  String.join (result.documents.filterMap fun (other, document) =>
    if other = target then some (document.render microseconds) else none)

/-- The file tree after a run. -/
def treeAfter (result : Result) (tree : FileTree) (microseconds : Nat) : FileTree :=
  tree.addFiles (result.documents.filterMap fun (target, document) =>
    match target with
    | .file path => some (path, (document.render microseconds).toUTF8)
    | _ => none)

end Result

end SetForest.CommandLine
