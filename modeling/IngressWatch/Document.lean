import IngressWatch.Dict

/-!
# Documents

The tree of values that a manifest is written in.

* `Document`: the values. Numbers are whole.
* `Document.field?`: the value of a field; a null field counts as missing.
* `Schema.normalize`: a value without the fields that its schema does not know.
-/

namespace IngressWatch

inductive Document where
  | null
  | flag (value : Bool)
  | number (value : Int)
  | text (value : String)
  | list (items : List Document)
  | object (fields : List (String × Document))

namespace Document

instance : Inhabited Document := ⟨null⟩

def isNull : Document → Bool
  | null => true
  | _ => false

def fields : Document → List (String × Document)
  | object fields => fields
  | _ => []

/-- The last field with this name, unless it is null. -/
def field? (d : Document) (name : String) : Option Document :=
  (d.fields.reverse.find? (·.1 = name)).bind fun e => if e.2.isNull then none else some e.2

def text? : Document → Option String
  | text value => some value
  | _ => none

def items? : Document → Option (List Document)
  | list items => some items
  | _ => none

def textField? (d : Document) (name : String) : Option String := (d.field? name).bind text?

/-- The fields of an object whose values can be read. -/
def dict? {α : Type} (read : Document → Option α) : Document → Option (Dict α)
  | object fields =>
    some (Dict.ofList (fields.filterMap fun e => (read e.2).map fun a => (e.1, a)))
  | _ => none

/-- A map of texts. -/
def textDict? : Document → Option (Dict String) := dict? text?

def ofDict {α : Type} (write : α → Document) (d : Dict α) : Document :=
  object (d.entries.map fun e => (e.1, write e.2))

def ofTextDict : Dict String → Document := ofDict text

/-- A field that is written only when it has a value. -/
def optionalField (name : String) (value : Option Document) : List (String × Document) :=
  value.toList.map fun v => (name, v)

end Document

/-- The shape of a value in a manifest. -/
inductive Schema where
  /-- Kept as it stands. -/
  | any
  /-- Read and written again in its standard form, or dropped when it can not be read. -/
  | via (standard : Document → Option Document)
  | list (item : Schema)
  | map (value : Schema)
  /-- An object with the given fields. A field that has a default is always written. -/
  | record (fields : List (String × Schema × Option Document))
  /-- An object of which only some fields are described; the others are kept. -/
  | openRecord (fields : List (String × Schema × Option Document))

namespace Schema

/-- An optional field. -/
def may (name : String) (schema : Schema) : String × Schema × Option Document :=
  (name, schema, none)

/-- A field that is written with a default when it is missing. -/
def must (name : String) (schema : Schema) (standard : Document) :
    String × Schema × Option Document :=
  (name, schema, some standard)

def plain (names : List String) : List (String × Schema × Option Document) :=
  names.map fun name => may name any

mutual

/-- Reads a value under its schema. -/
def normalize : Schema → Document → Option Document
  | any, d => some d
  | via standard, d => standard d
  | list item, d => d.items?.map fun items => .list (items.filterMap fun i => normalize item i)
  | map value, d =>
    some (.object (d.fields.filterMap fun e => (normalize value e.2).map fun v => (e.1, v)))
  | record fields, d => some (.object (normalizeFields fields d))
  | openRecord fields, d =>
    some (.object (normalizeFields fields d ++
      d.fields.filter fun e => !e.2.isNull && fields.all fun f => f.1 ≠ e.1))

/-- The described fields of an object. -/
def normalizeFields : List (String × Schema × Option Document) → Document →
    List (String × Document)
  | [], _ => []
  | (name, schema, standard) :: rest, d =>
    let value := ((d.field? name).bind fun v => normalize schema v).or standard
    Document.optionalField name value ++ normalizeFields rest d

end

end Schema

end IngressWatch
