-- Files and directories: what a program may ask of them, and a file system in memory that
-- answers.
import WidgetSchema.Project.Place
namespace WidgetSchema

inductive EntryKind where
  | file
  | directory
  deriving DecidableEq

/-- The questions and orders of a program. Whatever cannot be answered or done has no effect. -/
structure FileSystem (m : Type → Type) where
  kind? : (path : String) → m (Option EntryKind)
  read? : (path : String) → m (Option String)
  /-- The names in a directory. -/
  names? : (path : String) → m (Option (List String))
  /-- The path from the root, of something that is there. -/
  canonical? : (path : String) → m (Option String)
  /-- Writes a file into a directory that is there, and tells whether it could. -/
  write : (path text : String) → m Bool
  /-- Makes a directory and all those above it. -/
  createDirectories : (path : String) → m Bool

namespace FileSystem

variable {m : Type → Type} [Monad m] (fs : FileSystem m)

def exists? (path : String) : m Bool := return (← fs.kind? path).isSome

def isFile (path : String) : m Bool := return (← fs.kind? path) == some .file

/-- The text of a file, if there is one. -/
def readFile? (path : String) : m (Option String) := do
  if ← fs.isFile path then fs.read? path else return none

end FileSystem

/-! ## In memory -/

/-- Files with their texts, and directories, by the names on the way from the root. -/
structure Disk where
  entries : List (List String × Option String) := []
  /-- The directory that relative paths start from. -/
  current : List String := []

namespace Disk

def find? (d : Disk) (place : List String) : Option (Option String) :=
  if place.isEmpty then some none else (d.entries.find? (·.1 == place)).map (·.2)

def kindAt? (d : Disk) (place : List String) : Option EntryKind :=
  (d.find? place).map fun
    | some _ => .file
    | none => .directory

def isIdle (part : String) : Bool := part == "" || part == "."

/-- One step along a path. It starts in a directory that is there. -/
def step? (d : Disk) (place : List String) (part : String) : Option (List String) :=
  if d.kindAt? place = some .directory then
    if isIdle part then some place
    else if part = ".." then some place.dropLast
    else some (place ++ [part])
  else none

def start (d : Disk) (path : String) : List String :=
  if Place.isAbsolute path then [] else d.current

/-- Where a path leads. The last name on it may be missing. -/
def resolve? (d : Disk) (path : String) : Option (List String) :=
  if path = "" then none else (Place.parts path).foldlM d.step? (d.start path)

def kind? (d : Disk) (path : String) : Option EntryKind := (d.resolve? path).bind d.kindAt?

def read? (d : Disk) (path : String) : Option String :=
  ((d.resolve? path).bind d.find?).bind id

def names? (d : Disk) (path : String) : Option (List String) := do
  let place ← d.resolve? path
  if d.kindAt? place = some .directory then
    some (d.entries.filterMap fun (other, _) =>
      if other.dropLast = place then other.getLast? else none)
  else none

def canonical? (d : Disk) (path : String) : Option String := do
  let place ← d.resolve? path
  let _ ← d.find? place
  return "/" ++ Text.join "/" place

def put (d : Disk) (place : List String) (content : Option String) : Disk :=
  { d with entries := d.entries.filter (·.1 ≠ place) ++ [(place, content)] }

def write? (d : Disk) (path text : String) : Option Disk := do
  let place ← d.resolve? path
  if d.kindAt? place = some .directory then none else some (d.put place (some text))

/-- One step along a path, with the directory made where it is missing. -/
def enter? (d : Disk) (place : List String) (part : String) : Option (Disk × List String) := do
  let next ← d.step? place part
  match d.kindAt? next with
  | some .file => none
  | some .directory => some (d, next)
  | none => some (d.put next none, next)

def createDirectories? (d : Disk) (path : String) : Option Disk :=
  if path = "" then some d
  else
    ((Place.parts path).foldlM (fun (s : Disk × List String) part => s.1.enter? s.2 part)
      (d, d.start path)).map (·.1)

/-- The disk after an order, and whether it could be carried out. -/
def order (change : Disk → Option Disk) : StateM Disk Bool := fun d =>
  match change d with
  | some d => (true, d)
  | none => (false, d)

/-- The file system of a disk in memory. -/
def fileSystem : FileSystem (StateM Disk) where
  kind? path := return (← get).kind? path
  read? path := return (← get).read? path
  names? path := return (← get).names? path
  canonical? path := return (← get).canonical? path
  write path text := order fun d => d.write? path text
  createDirectories path := order fun d => d.createDirectories? path

/-- The files below the current directory, with their texts. -/
def files (d : Disk) : List (String × String) :=
  d.entries.filterMap fun (place, content) =>
    match content with
    | some text =>
      if d.current.isPrefixOf place then
        some (Text.join "/" (place.drop d.current.length), text)
      else none
    | none => none

end Disk

end WidgetSchema
