import SetForest.Key

/-!
# Directories

A directory holds files and further directories under their names, in the order
of the names.  A place in it is given by the names on the way there.

Looking up a name after something was put under it finds what was put
(`find?_put_self`), and all other names lead where they led before
(`find?_put_of_ne`).
-/

namespace SetForest.CommandLine

/-- What a device does with the text that is written to it.  What can be read from
it is not part of a directory, where a device counts as empty. -/
inductive Device where
  /-- It takes every text and forgets it. -/
  | null
  /-- It takes every text and forgets it, and it can be read without end. -/
  | source
  /-- It has no room for any text, and it can be read without end. -/
  | full
  /-- It prints the text. -/
  | output
  /-- It prints the text where complaints go. -/
  | complaints
  /-- It stands for a terminal, of which there is none, so it cannot be opened. -/
  | terminal
deriving DecidableEq, Repr

/-- A file is made of bytes, or it is a device. -/
inductive File where
  | plain (bytes : ByteArray)
  | device (device : Device)

/-- The entries of a directory, first to last.  Each is a file or a directory. -/
inductive Directory where
  | empty
  | file (name : String) (content : File) (rest : Directory)
  | directory (name : String) (entries rest : Directory)

/-- What stands at a place. -/
inductive Node where
  | file (content : File)
  | directory (entries : Directory)

namespace Directory

/-- A directory with one more entry in front. -/
def cons (name : String) (node : Node) (rest : Directory) : Directory :=
  match node with
  | .file content => .file name content rest
  | .directory entries => .directory name entries rest

/-- What stands under a name. -/
def find? (name : String) : Directory → Option Node
  | empty => none
  | file other content rest => if other = name then some (.file content) else rest.find? name
  | directory other entries rest =>
    if other = name then some (.directory entries) else rest.find? name

/-- Put something under a name, in place of what was there. -/
def put (name : String) (node : Node) : Directory → Directory
  | empty => cons name node empty
  | file other content rest =>
    match compare name other with
    | .lt => cons name node (file other content rest)
    | .eq => cons name node rest
    | .gt => file other content (rest.put name node)
  | directory other entries rest =>
    match compare name other with
    | .lt => cons name node (directory other entries rest)
    | .eq => cons name node rest
    | .gt => directory other entries (rest.put name node)

/-- The directory under a name, which is empty if there is none. -/
def subdirectory (name : String) (parent : Directory) : Directory :=
  match parent.find? name with
  | some (.directory entries) => entries
  | _ => empty

/-- Change the directory at a place.  It is made if it is not there. -/
def change (action : Directory → Directory) : List String → Directory → Directory
  | [], entries => action entries
  | name :: rest, entries =>
    entries.put name (.directory (change action rest (entries.subdirectory name)))

/-- Whether a name has something before its last dot and `txt` after it. -/
def isTextName (name : String) : Bool :=
  ".txt".toList.isSuffixOf name.toList && name != ".txt"

/-- The path of an entry, given the path of its directory. -/
def pathBelow (path name : String) : String :=
  if path.endsWith "/" then path ++ name else path ++ "/" ++ name

/-- The paths of the text files in a directory and in all directories below it,
in their order, or the first directory below it whose path has more bytes than
the given number.  All paths start with the one of the directory itself. -/
def textFiles (longest : Nat) (path : String) : Directory → Except String (List String)
  | empty => .ok []
  | file name _ rest => do
    let later ← rest.textFiles longest path
    return if isTextName name then pathBelow path name :: later else later
  | directory name entries rest => do
    let inner := pathBelow path name
    if longest < inner.utf8ByteSize then throw inner
    let texts ← entries.textFiles longest inner
    return texts ++ (← rest.textFiles longest path)

theorem find?_cons_self (name : String) (node : Node) (rest : Directory) :
    (cons name node rest).find? name = some node := by
  cases node <;> simp [cons, find?]

theorem find?_cons_of_ne {name other : String} (differ : name ≠ other) (node : Node)
    (rest : Directory) : (cons name node rest).find? other = rest.find? other := by
  cases node <;> simp [cons, find?, differ]

/-- What was put under a name is found there. -/
theorem find?_put_self (name : String) (node : Node) (entries : Directory) :
    (entries.put name node).find? name = some node := by
  induction entries with
  | empty => exact find?_cons_self name node empty
  | file other content rest ih =>
    unfold put
    split
    next => exact find?_cons_self ..
    next => exact find?_cons_self ..
    next after =>
      have differ : other ≠ name := by rintro rfl; simp at after
      simpa [find?, differ] using ih
  | directory other inner rest _ ih =>
    unfold put
    split
    next => exact find?_cons_self ..
    next => exact find?_cons_self ..
    next after =>
      have differ : other ≠ name := by rintro rfl; simp at after
      simpa [find?, differ] using ih

/-- Putting something under a name changes nothing under other names. -/
theorem find?_put_of_ne {name other : String} (differ : name ≠ other) (node : Node)
    (entries : Directory) : (entries.put name node).find? other = entries.find? other := by
  induction entries with
  | empty => exact find?_cons_of_ne differ node empty
  | file first content rest ih =>
    unfold put
    split
    next => exact find?_cons_of_ne differ node _
    next same =>
      have same : name = first := by simpa using same
      rw [find?_cons_of_ne differ]
      simp [find?, ← same, differ]
    next => simp only [find?, ih]
  | directory first inner rest _ ih =>
    unfold put
    split
    next => exact find?_cons_of_ne differ node _
    next same =>
      have same : name = first := by simpa using same
      rw [find?_cons_of_ne differ]
      simp [find?, ← same, differ]
    next => simp only [find?, ih]

end Directory

/-- What stands at a place below a node. -/
def Node.at? : List String → Node → Option Node
  | [], node => some node
  | _ :: _, .file _ => none
  | name :: rest, .directory entries => (entries.find? name).bind (at? rest)

end SetForest.CommandLine
