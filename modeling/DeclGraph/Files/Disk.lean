import DeclGraph.Files.Path

/-!
# Files and directories

A `Host` is what a program can ask of the files around it.  A `Disk` is a set of
files and directories, and `Disk.host` answers from it.

Directories are known by the names that lead to them from the working directory.
Steps above the working directory, and paths from a root, lead to directories
that hold nothing yet.
-/

namespace DeclGraph

section Host

/-- Why a file cannot be read. -/
inductive ReadFault where
  | missing
  | isDirectory
  /-- A step of the path leads through a file. -/
  | notDirectory
  /-- The file is there, but not for this reader. -/
  | denied
deriving Repr, DecidableEq, Inhabited

/-- Why a file cannot be written. -/
inductive WriteFault where
  | isDirectory
  /-- The directory to write into is a file. -/
  | fileExists
  /-- A step of the path leads through a file. -/
  | notDirectory
deriving Repr, DecidableEq, Inhabited

/-- What can be asked of files. -/
structure Host (m : Type → Type) where
  isFile : Path → m Bool
  read : Path → m (Except ReadFault (List UInt8))
  /-- Writes a file; directories that are missing on the way to it are made. -/
  write : Path → List UInt8 → m (Except WriteFault Unit)

end Host

section Disk

/-- The names that lead to a file or directory. -/
abbrev Key := List String

inductive Entry where
  | file (content : List UInt8)
  | directory
deriving Repr, DecidableEq, Inhabited

/-- Files and directories. -/
structure Disk where
  entries : List (Key × Entry) := []
deriving Repr, Inhabited

/-- Where a path leads. -/
inductive Found where
  | file (key : Key) (content : List UInt8)
  | directory (key : Key)
  /-- Nothing there; the key is what the last step would make, if all other steps lead
  somewhere. -/
  | missing (key : Option Key)
  /-- A step leads through a file. -/
  | blocked
deriving Repr, DecidableEq, Inhabited

/-- The key of the parent of a directory. -/
def parentKey (key : Key) : Key :=
  match key.getLast? with
  | none => [".."]
  | some name =>
    if name == ".." then key ++ [".."]
    else if name == "/" then key
    else key.dropLast

/-- The key of the directory that a path starts from. -/
def Path.start (p : Path) : Key :=
  if p.root.isEmpty then [] else ["/"]

namespace Disk

def get? (d : Disk) (key : Key) : Option Entry :=
  d.entries.lookup key

/-- Puts a file or directory in the place of what was there. -/
def put (d : Disk) (key : Key) (e : Entry) : Disk :=
  ⟨(key, e) :: d.entries.filter (·.1 != key)⟩

/-- Follows steps from a directory. -/
def walk (d : Disk) (here : Key) : List String → Found
  | [] => .directory here
  | step :: steps =>
    if step == ".." then d.walk (parentKey here) steps
    else
      let key := here ++ [step]
      match d.get? key with
      | some .directory => d.walk key steps
      | some (.file content) => if steps.isEmpty then .file key content else .blocked
      | none => .missing (if steps.isEmpty then some key else none)

/-- Where a path leads. -/
def find (d : Disk) (p : Path) : Found :=
  d.walk p.start p.parts

/-- Makes the directories that are missing on a way; those that were made before a fault
stay.  A file on the way is found where a directory should be made, or, if none had to be
made before it, where a step leads through it. -/
def makeWay (d : Disk) (made : Bool) (here : Key) : List String → Except WriteFault Unit × Disk
  | [] => (.ok (), d)
  | step :: steps =>
    if step == ".." then d.makeWay made (parentKey here) steps
    else
      let key := here ++ [step]
      match d.get? key with
      | some .directory => d.makeWay made key steps
      | some (.file _) => (.error (if steps.isEmpty || made then .fileExists else .notDirectory), d)
      | none => (d.put key .directory).makeWay true key steps

def isFile (d : Disk) (p : Path) : Bool :=
  match d.find p with
  | .file _ _ => true
  | _ => false

def read (d : Disk) (p : Path) : Except ReadFault (List UInt8) :=
  match d.find p with
  | .file _ content => .ok content
  | .directory _ => .error .isDirectory
  | .missing _ => .error .missing
  | .blocked => .error .notDirectory

/-- Writes a file, after making the way to it. -/
def write (d : Disk) (p : Path) (content : List UInt8) : Except WriteFault Unit × Disk :=
  match d.makeWay false p.start p.parent.parts with
  | (.error f, d) => (.error f, d)
  | (.ok (), d) =>
    match d.find p with
    | .file key _ => (.ok (), d.put key (.file content))
    | .missing (some key) => (.ok (), d.put key (.file content))
    | .directory _ => (.error .isDirectory, d)
    | _ => (.error .notDirectory, d)

/-- Answers from a disk; writing changes it. -/
def host : Host (StateM Disk) where
  isFile p := fun d => (d.isFile p, d)
  read p := fun d => (d.read p, d)
  write p content := fun d => d.write p content

end Disk

end Disk

end DeclGraph
