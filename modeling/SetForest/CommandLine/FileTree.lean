import SetForest.CommandLine.Directory

/-!
# File trees

What a command sees of the file system: files, and the directories in which they
lie.  A path is resolved name by name, starting from the root if it begins with a
slash and from the current directory otherwise.  Every name but the last has to
lead to a directory.  A blank name or a dot stays where it is, so a path that
ends in a slash only leads to a directory, and two dots lead to the directory
above.  Nothing is above the root.  A name can be a link to another place, from
which the rest of the path goes on.

Names and paths have a longest length in bytes.  A path is measured before it is
resolved, a name only when it is looked up in a directory that exists.
-/

namespace SetForest.CommandLine

/-- Why a file cannot be read or written. -/
inductive FileError where
  | notFound
  | notDirectory
  | isDirectory
  | nameTooLong
  | noSpace
  | noDevice
  | invalidText
deriving DecidableEq, Repr

def FileError.message : FileError → String
  | notFound => "No such file or directory (os error 2)"
  | notDirectory => "Not a directory (os error 20)"
  | isDirectory => "Is a directory (os error 21)"
  | nameTooLong => "File name too long (os error 36)"
  | noSpace => "No space left on device (os error 28)"
  | noDevice => "No such device or address (os error 6)"
  | invalidText => "stream did not contain valid UTF-8"

/-- The bytes that are read from a file. -/
def File.read : File → Except FileError ByteArray
  | plain bytes => .ok bytes
  | device .terminal => .error .noDevice
  | device _ => .ok .empty

/-- The root directory with the place of the current directory.  Places are given
by the names on the way from the root.  A link is given by its place together
with the place to which it leads, where there is no link.  No file can be made in
a closed directory or below it. -/
structure FileTree where
  root : Directory := .empty
  current : List String := []
  links : List (List String × List String) := []
  closed : List (List String) := []

/-- The names of a path between its slashes. -/
def splitPath (path : String) : List String :=
  path.splitOn "/"

/-- The number of bytes that a name can have. -/
def longestName : Nat := 255

/-- The number of bytes that a path can have. -/
def longestPath : Nat := 4095

/-- Accept a name that a directory can hold. -/
def checkName (name : String) : Except FileError Unit :=
  if longestName < name.utf8ByteSize then .error .nameTooLong else .ok ()

/-- Accept a path that can be resolved.  The empty path leads nowhere. -/
def checkPath (path : String) : Except FileError Unit :=
  if path = "" then .error .notFound
  else if longestPath < path.utf8ByteSize then .error .nameTooLong
  else .ok ()

/-- Whether a name in a path stays where it is. -/
def staysInPlace (name : String) : Bool :=
  name == "" || name == "."

namespace FileTree

/-- The place to which a name leads from a directory. -/
def follow (tree : FileTree) (place : List String) (name : String) : List String :=
  if staysInPlace name then place
  else if name = ".." then place.dropLast
  else
    let next := place ++ [name]
    ((tree.links.find? (·.1 == next)).map (·.2)).getD next

/-- The places in which names are looked up one after the other, and the place to
which the last of them leads. -/
def trail (tree : FileTree) (place : List String) :
    List String → List (List String) × List String
  | [] => ([], place)
  | name :: rest =>
    let (passed, last) := tree.trail (tree.follow place name) rest
    (place :: passed, last)

/-- The place from which a path starts. -/
def startOf (tree : FileTree) (path : String) : List String :=
  if path.startsWith "/" then [] else tree.current

/-- The places through which a path leads, and the place to which it leads if all
of them are directories. -/
def trailOf (tree : FileTree) (path : String) : List (List String) × List String :=
  tree.trail (tree.startOf path) (splitPath path)

/-- Make directories at places, and those on the way to them. -/
def addPlaces (tree : FileTree) (places : List (List String)) : FileTree :=
  { tree with root := places.foldl (fun root place => root.change id place) tree.root }

/-- Make a directory, and those on the way to it. -/
def addDirectory (tree : FileTree) (path : String) : FileTree :=
  let (passed, place) := tree.trailOf path
  tree.addPlaces (place :: passed)

/-- Make a file, and the directories on the way to it.  A file that is there
already is replaced. -/
def addFile (tree : FileTree) (path : String) (file : File) : FileTree :=
  let (passed, place) := tree.trailOf path
  let tree := tree.addPlaces passed
  match place.getLast? with
  | none => tree
  | some name =>
    { tree with root := tree.root.change (·.put name (.file file)) place.dropLast }

/-- Make files made of the given bytes, one after the other. -/
def addFiles (tree : FileTree) (files : List (String × ByteArray)) : FileTree :=
  files.foldl (fun tree (path, bytes) => tree.addFile path (.plain bytes)) tree

/-- Make a link, and the directories on the way to it. -/
def addLink (tree : FileTree) (path target : String) : FileTree :=
  let (passed, place) := tree.trailOf path
  { tree.addPlaces passed with links := (place, (tree.trailOf target).2) :: tree.links }

/-- A tree with nothing but a current directory. -/
def ofCurrent (place : List String) : FileTree :=
  addPlaces { current := place } [place]

/-- The paths of devices that stand on any system.  There is no input to be read,
and what is written to the input is lost. -/
def standardDevices : List (String × Device) :=
  [("/dev/null", .null), ("/dev/zero", .source), ("/dev/random", .source),
    ("/dev/urandom", .source), ("/dev/full", .full), ("/dev/tty", .terminal),
    ("/proc/self/fd/0", .null), ("/proc/self/fd/1", .output), ("/proc/self/fd/2", .complaints)]

/-- The paths of links to what a program has at hand, with their targets. -/
def standardLinks : List (String × String) :=
  [("/proc/self/cwd", "."), ("/proc/self/root", "/"), ("/dev/fd", "/proc/self/fd"),
    ("/dev/stdin", "/proc/self/fd/0"), ("/dev/stdout", "/proc/self/fd/1"),
    ("/dev/stderr", "/proc/self/fd/2")]

/-- Make the devices that stand on any system, and what leads to them. -/
def addStandardDevices (tree : FileTree) : FileTree :=
  let tree := standardDevices.foldl
    (fun tree (path, device) => tree.addFile path (.device device)) tree
  let tree := standardLinks.foldl (fun tree (path, target) => tree.addLink path target) tree
  { tree with closed := ["proc"] :: tree.closed }

/-- The paths of directories that stand on most systems. -/
def commonDirectories : List String :=
  ["/boot", "/dev/shm", "/etc", "/home", "/media", "/mnt", "/opt", "/root", "/run", "/srv", "/sys",
    "/tmp", "/usr/bin", "/usr/include", "/usr/lib", "/usr/lib64", "/usr/local/bin",
    "/usr/local/lib", "/usr/sbin", "/usr/share", "/usr/src", "/var/cache", "/var/lib", "/var/log",
    "/var/tmp"]

/-- The paths of links that stand on most systems, with their targets. -/
def commonLinks : List (String × String) :=
  [("/bin", "/usr/bin"), ("/lib", "/usr/lib"), ("/lib64", "/usr/lib64"), ("/sbin", "/usr/sbin"),
    ("/var/run", "/run")]

/-- A tree with the given files in a directory of their own, and with what stands
outside of it on most systems.  No path can hold the name of that directory. -/
def fresh (files : List (String × ByteArray)) : FileTree :=
  let tree := commonDirectories.foldl addDirectory (ofCurrent ["tmp", "/"])
  let tree := commonLinks.foldl (fun tree (path, target) => tree.addLink path target) tree
  tree.addStandardDevices.addFiles files

/-- What stands at a place. -/
def node? (tree : FileTree) (place : List String) : Option Node :=
  Node.at? place (.directory tree.root)

/-- Follow names from a place. -/
def walk (tree : FileTree) (place : List String) :
    List String → Except FileError (List String × Node)
  | [] =>
    match tree.node? place with
    | none => .error .notFound
    | some node => .ok (place, node)
  | name :: rest =>
    match tree.node? place with
    | none => .error .notFound
    | some (.file _) => .error .notDirectory
    | some (.directory _) => do
      checkName name
      walk tree (tree.follow place name) rest

/-- What a path leads to. -/
def resolve (tree : FileTree) (path : String) : Except FileError Node := do
  checkPath path
  return (← tree.walk (tree.startOf path) (splitPath path)).2

/-- The text of the file that a path leads to. -/
def readText (tree : FileTree) (path : String) : Except FileError String := do
  match ← tree.resolve path with
  | .directory _ => throw .isDirectory
  | .file file =>
    match String.fromUTF8? (← file.read) with
    | none => throw .invalidText
    | some text => return text

/-- The device that is there if a path is opened for writing, if there is one.  A
file can be written in a directory that exists, under a name that is no
directory.  A path that ends in a slash asks for a directory, whether there is
one or not. -/
def deviceToWrite (tree : FileTree) (path : String) : Except FileError (Option Device) := do
  checkPath path
  match (splitPath path).reverse.dropWhile (· == "") with
  | [] => throw .isDirectory
  | name :: before =>
    match ← tree.walk (tree.startOf path) before.reverse with
    | (_, .file _) => throw .notDirectory
    | (directory, .directory _) =>
      if name = "." ∨ name = ".." ∨ path.endsWith "/" then throw .isDirectory
      else
        checkName name
        let place := tree.follow directory name
        match tree.node? place with
        | some (.directory _) => throw .isDirectory
        | some (.file (.device .terminal)) => throw .noDevice
        | some (.file (.device device)) => return some device
        | some (.file (.plain _)) => return none
        | none =>
          if tree.closed.any (·.isPrefixOf place) then throw .notFound
          return none

/-- The operation files that a path stands for, or the directory that cannot be
listed because its path is too long.  A directory stands for the text files below
it, any other path for itself. -/
def operationFiles (tree : FileTree) (path : String) : Except String (List String) :=
  match tree.resolve path with
  | .ok (.directory entries) => entries.textFiles longestPath path
  | _ => .ok [path]

end FileTree

end SetForest.CommandLine
