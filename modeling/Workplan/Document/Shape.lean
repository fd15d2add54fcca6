/-!
# Shapes of documents

Which parts of a document a decoder looks at. Keys of a record that are none of its fields do not
matter, so what stands under them need not be worked out.
-/

namespace Workplan

/-- What a decoder looks at. -/
inductive Shape where
  /-- The whole document. -/
  | whole
  /-- The items of a list. -/
  | list (item : Shape)
  /-- The fields of a record. -/
  | record (fields : List (String × Shape))

namespace Shape

def plainRecord (names : List String) : Shape :=
  record (names.map (·, whole))

def names : Shape → List String
  | record fields => fields.map Prod.fst
  | _ => []

def item : Shape → Shape
  | list s => s
  | _ => whole

def member? (key : Option String) : Shape → Option Shape
  | record fields => (fields.find? fun field => some field.1 == key).map Prod.snd
  | _ => some whole

end Shape
end Workplan
