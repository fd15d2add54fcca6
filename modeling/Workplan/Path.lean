/-!
# Paths as texts

A path is a text whose slashes separate segments. Empty segments and single dots do not count,
except that a leading slash makes the path absolute and a leading dot is a part of its own. The
operations keep the spelling of what they leave in place.
-/

namespace Workplan
namespace Path

inductive Part where
  | root
  | here
  | up
  | name (text : List Char)
deriving DecidableEq

/-- Splits a text at every slash; `current` is the segment read so far, reversed. -/
def splitSlash : (s current : List Char) → List (List Char)
  | [], current => [current.reverse]
  | c :: s, current =>
    if c = '/' then current.reverse :: splitSlash s [] else splitSlash s (c :: current)

def segments (path : String) : List (List Char) :=
  splitSlash path.toList []

def joinSlash : List (List Char) → List Char
  | [] => []
  | [s] => s
  | s :: rest => s ++ '/' :: joinSlash rest

/-- Whether a segment does not count as a part. -/
def isFiller (segment : List Char) : Bool :=
  segment.isEmpty || segment == ['.']

def trimRight (body : List (List Char)) : List (List Char) :=
  (body.reverse.dropWhile isFiller).reverse

def splitStart (path : String) : Option Part × List (List Char) :=
  match segments path with
  | [] :: next :: rest => (some .root, next :: rest)
  | ['.'] :: rest => (some .here, rest)
  | body => (none, body)

def partOf (segment : List Char) : Part :=
  if segment = ['.', '.'] then .up else .name segment

def parts (path : String) : List Part :=
  let (start, body) := splitStart path
  start.toList ++ (body.filter (!isFiller ·)).map partOf

/-- Drops segments up to and with the `n`-th that counts. -/
def dropCounted : Nat → List (List Char) → List (List Char)
  | 0, body => body
  | _ + 1, [] => []
  | n + 1, segment :: rest =>
    if isFiller segment then dropCounted (n + 1) rest else dropCounted n rest

def withStart (start : Option Part) (body : List (List Char)) : List Char :=
  match start, body with
  | some .root, body => '/' :: joinSlash body
  | some .here, [] => ['.']
  | some .here, body => '.' :: '/' :: joinSlash body
  | _, body => joinSlash body

/--
The rest of a path below a base: what follows the parts of the base, with nothing at its ends
that does not count. Nothing if the path does not begin with the parts of the base.
-/
def stripBase? (base path : String) : Option String :=
  let baseParts := parts base
  if baseParts.isPrefixOf (parts path) then
    let (start, body) := splitStart path
    if baseParts.isEmpty then some (String.ofList (withStart start (trimRight body)))
    else
      let rest := dropCounted (baseParts.length - start.toList.length) body
      some (String.ofList (joinSlash (trimRight (rest.dropWhile isFiller))))
  else none

def isAbsolute (path : String) : Bool :=
  path.toList.head? == some '/'

/-- A path seen from a directory. An absolute path stays, the empty one adds a slash. -/
def join (directory path : String) : String :=
  if isAbsolute path then path
  else
    match directory.toList.getLast? with
    | none => path
    | some '/' => directory ++ path
    | some _ => directory ++ "/" ++ path

/-- The path without its last part; nothing for the root and for the empty path. -/
def parent? (path : String) : Option String :=
  let (start, body) := splitStart path
  match (trimRight body).reverse with
  | _ :: before => some (String.ofList (withStart start (trimRight before.reverse)))
  | [] => if start = some .here then some "" else none

def fileName? (path : String) : Option (List Char) :=
  match (parts path).getLast? with
  | some (.name text) => some text
  | _ => none

/-- What follows the last dot of the file name, unless the only dot leads the name. -/
def extension? (path : String) : Option (List Char) :=
  match fileName? path with
  | none => none
  | some name =>
    let reversed := name.reverse
    match reversed.dropWhile (· != '.') with
    | [] => none
    | [_] => none
    | _ => some (reversed.takeWhile (· != '.')).reverse

end Path
end Workplan
