import Workplan.Text.Lowercase

/-!
# Slugs

The slug of a name is made of the maximal runs of ASCII letters and digits of its lower-case
form, joined by single hyphens.
-/

namespace Workplan
namespace Text

def isSlugChar (c : Char) : Bool :=
  ('a' ≤ c && c ≤ 'z') || ('0' ≤ c && c ≤ '9')

/--
Appends a character to a slug under construction, which is kept in reverse. `gap` tells whether
characters were dropped since the last one kept; a gap inside the slug becomes one hyphen.
-/
def slugStep (state : List Char × Bool) (c : Char) : List Char × Bool :=
  if isSlugChar c then
    (if state.2 && !state.1.isEmpty then c :: '-' :: state.1 else c :: state.1, false)
  else (state.1, true)

def slug (name : String) : String :=
  String.ofList ((lowercase name.toList).foldl slugStep ([], false)).1.reverse

end Text
end Workplan
