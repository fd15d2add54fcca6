import Workplan.File.Access
import Workplan.Path

/-!
# Trees of files

The files and directories below a working directory, as a value. A path is followed segment by
segment, and every segment but the last has to lead to a directory. A tree gives access to its
files as a state.
-/

namespace Workplan

/-- A place that a path leads to: the names from the working directory on. Two dots at the front
lead to directories around it, and a single slash to the top. -/
abbrev Location := List (List Char)

namespace Location

def upward : List Char := ['.', '.']

def top : Location := [['/']]

def isOutside (l : Location) : Bool :=
  l.all (· == upward) || l == top

def parent (l : Location) : Location :=
  if l == top then top
  else if l.all (· == upward) then l ++ [upward]
  else l.dropLast

def child (l : Location) (segment : List Char) : Location :=
  if Path.isFiller segment then l
  else if segment == upward then l.parent
  else l ++ [segment]

def start (path : String) : Location × List (List Char) :=
  match Path.segments path with
  | [] :: next :: rest => (top, next :: rest)
  | segments => ([], segments)

end Location

structure FileTree where
  files : List (Location × ByteArray)
  directories : List Location
deriving Inhabited

namespace FileTree

def empty : FileTree := ⟨[], []⟩

def bytes? (t : FileTree) (l : Location) : Option ByteArray :=
  (t.files.find? (·.1 == l)).map (·.2)

def isDirectory (t : FileTree) (l : Location) : Bool :=
  l.isOutside || t.directories.contains l

/-- Follows segments from a location on. What they lead to may be missing. -/
def walk (t : FileTree) : (l : Location) → List (List Char) → Except FileFault Location
  | l, [] => .ok l
  | l, segment :: rest =>
    if t.isDirectory l then t.walk (l.child segment) rest
    else if (t.bytes? l).isSome then .error .notDirectory
    else .error .notFound

def find (t : FileTree) (path : String) : Except FileFault Location :=
  if path.isEmpty then .error .notFound
  else
    let (l, segments) := Location.start path
    t.walk l segments

def readText (t : FileTree) (path : String) : Except FileFault String :=
  match t.find path with
  | .error fault => .error fault
  | .ok l =>
    match t.bytes? l with
    | some bytes =>
      match String.fromUTF8? bytes with
      | some text => .ok text
      | none => .error .notUtf8
    | none => .error (if t.isDirectory l then .isDirectory else .notFound)

def isFile (t : FileTree) (path : String) : Bool :=
  match t.find path with
  | .ok l => (t.bytes? l).isSome
  | .error _ => false

def put (t : FileTree) (l : Location) (bytes : ByteArray) : FileTree :=
  { t with files := (l, bytes) :: t.files.filter (·.1 != l) }

/-- The location of a file that is to be written. Its directory has to be there. -/
def target (t : FileTree) (path : String) : Except FileFault Location :=
  if path.isEmpty then .error .notFound
  else
    let (l, segments) := Location.start path
    match segments.reverse.dropWhile List.isEmpty with
    | [] => .error .isDirectory
    | name :: before =>
      match t.walk l before.reverse with
      | .error fault => .error fault
      | .ok directory =>
        if !t.isDirectory directory then
          .error (if (t.bytes? directory).isSome then .notDirectory else .notFound)
        else
          let l := directory.child name
          if segments.getLast? == some [] || Path.isFiller name || t.isDirectory l then
            .error .isDirectory
          else .ok l

def writeText (t : FileTree) (path text : String) : Except FileFault FileTree :=
  (t.target path).map fun l => t.put l text.toUTF8

def addDirectory (t : FileTree) (l : Location) : FileTree :=
  { t with directories := (List.range (l.length + 1)).map l.take ++ t.directories }

def locate (path : String) : Location :=
  let (l, segments) := Location.start path
  segments.foldl Location.child l

def withDirectory (t : FileTree) (path : String) : FileTree :=
  t.addDirectory (locate path)

/-- Adds a file by its path, and the directories around it. -/
def withFile (t : FileTree) (path : String) (bytes : ByteArray) : FileTree :=
  (t.addDirectory (locate path).dropLast).put (locate path) bytes

instance : FileAccess (StateM FileTree) where
  readText path := do return (← get).readText path
  isFile path := do return (← get).isFile path
  writeText path text := do
    match (← get).writeText path text with
    | .ok t =>
      set t
      return .ok ()
    | .error fault => return .error fault

end FileTree
end Workplan
