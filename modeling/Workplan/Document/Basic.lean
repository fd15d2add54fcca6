import Workplan.Json.Basic

/-!
# Documents

What a data file says, before anything is made of it. Both file formats are read into documents,
and the types of this library are decoded from documents.

A scalar carries every reading that a decoder may ask for, since the formats differ in what a
scalar may stand for: a plain word may serve as a text although its own type is a number, and
nothing at all may serve as an empty list.
-/

namespace Workplan

inductive Atom where
  | null
  | bool (value : Bool)
  | number (value : Number)
  /-- An infinite number, or what is not a number. -/
  | nonFinite
  | text (value : String)
deriving Inhabited

namespace Atom

/-- The Json value of an atom. Json knows finite numbers only. -/
def toJson : Atom → Json
  | null => .null
  | bool b => .bool b
  | number n => .number n
  | nonFinite => .null
  | text s => .text s

end Atom

/-- The readings of a scalar; a reading that is `none` is refused. -/
structure Scalar where
  /-- What it says where its own type decides. -/
  typed : Option Atom
  /-- What it says as a text. -/
  text : Option String
  /-- What it says as a boolean. -/
  bool : Option Bool
  /-- Whether it says something where nothing would do. -/
  present : Option Bool
  /-- The choice that it names. -/
  choice : Option String
  /-- Whether it may stand for a collection without members. -/
  isVoid : Bool
deriving Inhabited

inductive Style where
  | json
  | yaml
  /-- With a label in front, which says that it is no plain collection. -/
  | labelled
deriving DecidableEq

inductive Document where
  | scalar (readings : Scalar)
  | sequence (style : Style) (items : List Document)
  | mapping (style : Style) (entries : List (Document × Document))
  /-- A part that stands for nothing; it does no harm where nobody looks at it. -/
  | unreadable
deriving Inhabited

namespace Scalar

/-- The scalar of an atom that has no readings beyond its own type. -/
def ofAtom (a : Atom) : Scalar where
  typed := some a
  text := match a with | .text s => some s | _ => none
  bool := match a with | .bool b => some b | _ => none
  present := match a with | .null => some false | _ => some true
  choice := match a with | .text s => some s | _ => none
  isVoid := false

end Scalar

namespace Document

def ofAtom (a : Atom) : Document := scalar (.ofAtom a)

mutual

def ofJson : Json → Document
  | .null => ofAtom .null
  | .bool b => ofAtom (.bool b)
  | .number n => ofAtom (.number n)
  | .text s => ofAtom (.text s)
  | .array items => sequence .json (ofJsonAll items)
  | .object members => mapping .json (ofJsonMembers members)

def ofJsonAll : List Json → List Document
  | [] => []
  | item :: rest => ofJson item :: ofJsonAll rest

def ofJsonMembers : List (String × Json) → List (Document × Document)
  | [] => []
  | (key, value) :: rest => (ofAtom (.text key), ofJson value) :: ofJsonMembers rest

end

def text? : Document → Option String
  | scalar r => r.text
  | _ => none

def bool? : Document → Option Bool
  | scalar r => r.bool
  | _ => none

def optionalText? : Document → Option (Option String)
  | scalar r =>
    match r.present with
    | some true => r.text.map some
    | some false => some none
    | none => none
  | _ => none

def list? : Document → Option (List Document)
  | sequence _ items => some items
  | scalar r => if r.isVoid then some [] else none
  | _ => none

def table? : Document → Option (List (String × Document))
  | mapping _ entries => entries.mapM fun entry => entry.1.text?.map (·, entry.2)
  | scalar r => if r.isVoid then some [] else none
  | _ => none

def isNull : Document → Bool
  | scalar r => match r.typed with | some .null => true | _ => false
  | _ => false

/-- The choice that a document names: by a word, or in Json by a single key over null. -/
def choice? : Document → Option String
  | scalar r => r.choice
  | mapping .json [(key, value)] => if value.isNull then key.text? else none
  | _ => none

def natural? : Document → Option Nat
  | scalar r =>
    match r.typed with
    | some (.number (.integer n)) => if 0 ≤ n then some n.toNat else none
    | _ => none
  | _ => none

mutual

/-- A document as a Json value: scalars by their own type, keys as texts, of equal keys the
last, in increasing order. -/
def json? : Document → Option Json
  | scalar r => r.typed.map Atom.toJson
  | sequence style items =>
    if style = .labelled then none else (jsonAll? items).map .array
  | mapping style entries =>
    if style = .labelled then none else (jsonMembers? entries []).map .object
  | unreadable => none

def jsonAll? : List Document → Option (List Json)
  | [] => some []
  | d :: rest =>
    match json? d, jsonAll? rest with
    | some j, some js => some (j :: js)
    | _, _ => none

/-- The entries of a mapping put, one after the other, to the members `acc`. -/
def jsonMembers? : List (Document × Document) → List (String × Json) →
    Option (List (String × Json))
  | [], acc => some acc
  | (key, value) :: rest, acc =>
    match key.text?, json? value with
    | some k, some j => jsonMembers? rest (Dictionary.place k j acc)
    | _, _ => none

end

end Document
end Workplan
