import SetForest.CommandLine.Program

/-!
# The executable

The outer layer of the program.  It looks up what the arguments name, runs the
program on that, prints, and writes the files that the program asks for.

Directories are recognised but not listed.  To replay the files of a directory,
they have to be named one by one.
-/

namespace SetForest.Main

open CommandLine

/-- The bytes of the file that a path leads to. -/
def readFile? (path : String) : IO (Option ByteArray) := do
  try
    return some (← IO.FS.readBinFile path)
  catch _ =>
    return none

/-- Whether something can be opened under a path. -/
def opens (path : String) : IO Bool := do
  try
    let _ ← IO.FS.Handle.mk path .read
    return true
  catch _ =>
    return false

/-- The paths that an argument can stand for: itself, and the value behind an
equals sign. -/
def pathsIn (argument : String) : List String :=
  match argument.splitOn "=" with
  | _ :: first :: rest =>
    let value := "=".intercalate (first :: rest)
    argument :: ((unquote value.toList).map String.ofList).toList
  | _ => [argument]

/-- The paths of everything on the way to what a path leads to. -/
def wayTo (path : String) : List String :=
  let names := splitPath path
  (List.range names.length).tail.map fun count =>
    if names.take count = [""] then "/" else "/".intercalate (names.take count)

/-- Whether a path leads to a device from which reading would not end. -/
def isEndless (tree : FileTree) (path : String) : Bool :=
  match tree.resolve path with
  | .ok (.file (.device device)) => device != .null && device != .terminal
  | _ => false

/-- The files that the arguments name, and the directories on the way to them
and among them.  The directories that are arguments themselves come second. -/
def lookUp (arguments : List String) : IO (FileTree × List String) := do
  let root : FileTree := {}
  let current := (root.trailOf (← IO.currentDir).toString).2
  let devices := (FileTree.ofCurrent current).addStandardDevices
  let mut files := []
  let mut directories := []
  for path in arguments.flatMap pathsIn do
    for place in wayTo path ++ [path] do
      if isEndless devices place then continue
      match ← readFile? place with
      | some bytes => files := (place, bytes) :: files
      | none => if ← opens place then directories := place :: directories
  let tree := directories.foldl FileTree.addDirectory devices
  return (tree.addFiles files, arguments.filter directories.contains)

end SetForest.Main

open SetForest SetForest.CommandLine in
/-- Run the program on what the arguments name. -/
def main (arguments : List String) : IO UInt32 := do
  let stderr ← IO.getStderr
  let (tree, directories) ← Main.lookUp arguments
  if let directory :: _ := directories then
    stderr.putStrLn s!"cannot list the directory {directory}"
    return 1
  else
    let started ← IO.monoNanosNow
    let result ← IO.lazyPure fun _ => run tree (.ofNat started) arguments
    let elapsed := (← IO.monoNanosNow) - started
    for (target, document) in result.documents do
      let text := document.render (elapsed / 1000)
      match target with
      | .output => (← IO.getStdout).putStr text
      | .complaints => stderr.putStr text
      | .file path => IO.FS.writeFile path text
    return .ofNat result.status
