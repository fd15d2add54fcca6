/-!
# Access to files

What the program asks of the place where its files are, and the faults that it may meet there.
Programs that use files are written for every monad that gives this access.
-/

namespace Workplan

inductive FileFault where
  | notFound
  | isDirectory
  | notDirectory
  | notUtf8
  /-- A reason beyond the usual ones, in words. -/
  | other (reason : String)
deriving DecidableEq, Inhabited

namespace FileFault

def message : FileFault → String
  | notFound => "No such file or directory (os error 2)"
  | isDirectory => "Is a directory (os error 21)"
  | notDirectory => "Not a directory (os error 20)"
  | notUtf8 => "stream did not contain valid UTF-8"
  | other reason => reason

end FileFault

class FileAccess (m : Type → Type) where
  /-- The text of a file. -/
  readText : (path : String) → m (Except FileFault String)
  /-- Whether a path leads to a file. -/
  isFile : (path : String) → m Bool
  /-- Replaces the text of a file, which need not exist. -/
  writeText : (path text : String) → m (Except FileFault Unit)

end Workplan
