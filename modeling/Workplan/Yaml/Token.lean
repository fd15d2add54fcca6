/-!
# Tokens of Yaml

The parts that a Yaml text is made of: its indicators, its scalars, and marks for where the
indentation opens and closes a collection.
-/

namespace Workplan
namespace Yaml

inductive ScalarStyle where
  | plain
  | singleQuoted
  | doubleQuoted
  | literal
  | folded
deriving DecidableEq, Inhabited

/-- The text of a tag. In the place of bytes that are no character it has `none`. -/
abbrev TagText := List (Option Char)

namespace TagText

def ofString (s : String) : TagText := s.toList.map some

/-- The characters of a tag, if all of its bytes are characters. -/
def toString? (t : TagText) : Option String := (t.mapM id).map String.ofList

def isLocal (t : TagText) : Bool := t.head? == some (some '!')

end TagText

inductive Token where
  | versionDirective (major minor : Nat)
  | tagDirective (handle : String) (replacement : TagText)
  | documentStart
  | documentEnd
  | blockSequenceStart
  | blockMappingStart
  | blockEnd
  | flowSequenceStart
  | flowSequenceEnd
  | flowMappingStart
  | flowMappingEnd
  | blockEntry
  | flowEntry
  | key
  | value
  | reference (name : String)
  | anchor (name : String)
  | tag (handle : String) (rest : TagText)
  | scalar (style : ScalarStyle) (text : String)
deriving DecidableEq, Inhabited

end Yaml
end Workplan
