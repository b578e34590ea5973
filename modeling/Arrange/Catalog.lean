import Arrange.CodedError
import Arrange.Partition.Feed
import Arrange.Value.Alike
import Arrange.Value.Sequence

/-!
# Catalogs of objects

A catalog describes objects: what each one is, its own fields, and what its methods do. An object
is referred to by its place in the catalog, so that two objects of the same description stay two
objects. `Catalog.objects` makes the entries of a catalog the objects of values.
-/

set_option autoImplicit false

namespace Arrange

/-- An object: its place in a catalog. -/
structure Item where
  index : Nat
deriving DecidableEq

/-! ## Descriptions -/

/-- What a method does when it is called. -/
inductive Behaviour where
  | returns (v : Value Item)
  | raises (message : Text)
  /-- Says whether the argument is an object with one of these labels. -/
  | isOneOf (labels : List Text)
  /-- Subtracts the argument's field from the object's own. -/
  | difference (field : Text)

/-- What an object is. -/
inductive Nature where
  /-- A version, ordered by its major, then by its minor number. -/
  | version (major minor : Value Item)
  /-- A point, equal to the points with the same coordinates. -/
  | point (x y : Value Item)
  /-- An object with a given hash code and text. -/
  | tagged (hash label : Value Item)
  /-- A code, equal to the codes with the same value. -/
  | code (value : Value Item)
  | error (e : CodedError Item)
  | function (name : Text)
  | date (time : Float)
  /-- An object of a type with this name and nothing else. -/
  | plain (typeName : Text)
  /-- An object without a type. -/
  | bare
  /-- A record of fields. -/
  | record

/-- The description of an object. -/
structure Entry where
  label : Option Text
  nature : Nature
  /-- The object's own fields, the field `constructor` included. -/
  fields : List (Text × Value Item)
  tag : Option Text
  order : Option Behaviour
  equality : Option Behaviour
  hash : Option Behaviour
  conversion : Option Behaviour

/-- Descriptions of objects. -/
abbrev Catalog := Array Entry

namespace Entry

/-- The entry of an object of which nothing is told. -/
def ofNature (label : Option Text) (nature : Nature) : Entry :=
  ⟨label, nature, [], none, none, none, none, none⟩

instance : Inhabited Entry := ⟨ofNature none .bare⟩

/-- The last value given to an own field. -/
def ownField? (e : Entry) (name : Text) : Option (Value Item) :=
  (e.fields.reverse.find? (·.1 == name)).map (·.2)

/-- The fields that come with what an object is. -/
def natureField? (e : Entry) (name : Text) : Option (Value Item) :=
  let fields : List (Text × Value Item) :=
    match e.nature with
    | .version major minor => [("major", major), ("minor", minor)]
    | .point x y => [("x", x), ("y", y)]
    | .tagged hash label => [("hash", hash), ("label", label)]
    | .code value => [("value", value)]
    | .error err =>
        if err.isCoded then
          [("name", .text err.name), ("message", .text err.message), ("code", .text err.code),
            ("context", err.context)]
        else [("message", .text err.message)]
    | .function n => [("name", .text n), (Value.lengthField, .number 0)]
    | _ => []
  (fields.find? (·.1 == name)).map (·.2)

/-- A field of an object, `undefined` when there is none. -/
def field (e : Entry) (name : Text) : Value Item :=
  (e.ownField? name).getD ((e.natureField? name).getD .undefined)

/-- The form of an object. -/
def form (e : Entry) : Form :=
  match e.nature with
  | .function _ => .function
  | .date time => .date time
  | _ => .plain

/-- The tag of an object: its own one, or that of its nature. -/
def shownTag (e : Entry) : Text :=
  e.tag.getD
    (match e.nature with
      | .function _ => "Function"
      | .date _ => "Date"
      | .error _ => "Error"
      | _ => "Object")

end Entry

namespace Catalog

/-! ## Reading objects -/

/-- The description of an object. -/
def entry (c : Catalog) (o : Item) : Entry := Array.getD c o.index default

/-- The description of a value that is an object. -/
def entry? (c : Catalog) : Value Item → Option Entry
  | .object o => some (c.entry o)
  | _ => none

/-- A field of a value; only objects have fields. -/
def field (c : Catalog) (v : Value Item) (name : Text) : Value Item :=
  match c.entry? v with
  | some e => e.field name
  | none => .undefined

/-- A field of a value that must not be absent. -/
def readField (c : Catalog) (v : Value Item) (name : Text) :
    Except (Fault Item) (Value Item) :=
  if v.isAbsent then .error .illTyped else .ok (c.field v name)

/-- Whether a value is a function. -/
def isFunction (c : Catalog) (v : Value Item) : Bool :=
  match c.entry? v with
  | some { nature := .function _, .. } => true
  | _ => false

/-- The difference of two doubles, NaN when either value is no double. -/
def difference : Value Item → Value Item → Value Item
  | .number x, .number y => .number (x - y)
  | _, _ => .number Number.nan

/-- What calling a method of an object with an argument does. -/
def call (c : Catalog) (self : Entry) (argument : Value Item) :
    Behaviour → Except (Fault Item) (Value Item)
  | .returns v => .ok v
  | .raises message => .error (.raised message)
  | .isOneOf labels =>
      match c.entry? argument with
      | some { label := some label, .. } => .ok (.bool (labels.contains label))
      | _ => .ok (.bool false)
  | .difference name => .ok (difference (self.field name) (c.field argument name))

/-! ## Methods -/

/-- A method of an object: one that was given, unless an own field of its name hides the one that
`standard` gives. A function in such a field does nothing when it is called. -/
def method? {φ : Type} (c : Catalog) (e : Entry) (name : Text) (given : Option Behaviour)
    (run : Behaviour → φ) (standard : Option φ) : Option φ :=
  match given with
  | some behaviour => some (run behaviour)
  | none =>
      match e.ownField? name with
      | some v => if c.isFunction v then some (run (.returns .undefined)) else none
      | none => standard

/-- The order of versions. The minor numbers decide where the difference of the major ones is zero
or no number. -/
def compareVersions [Objects Item] (c : Catalog) (major minor other : Value Item) :
    Except (Fault Item) (Value Item) := do
  let first ← major.minus (← c.readField other "major")
  if first.truthy then return first else minor.minus (← c.readField other "minor")

/-- The equality that comes with what an object is. -/
def standardEquality? (c : Catalog) (e : Entry) :
    Option (Value Item → Except (Fault Item) (Value Item)) :=
  match e.nature with
  | .point x y => some fun other =>
      match c.entry? other with
      | some { nature := .point x' y', .. } =>
          .ok (.bool (x'.strictlyEquals x && y'.strictlyEquals y))
      | _ => .ok (.bool false)
  | .code value => some fun other =>
      match c.entry? other with
      | some { nature := .code value', .. } => .ok (.bool (value'.strictlyEquals value))
      | _ => .ok (.bool false)
  | _ => none

/-- The hash code that comes with what an object is. -/
def standardHash? (e : Entry) : Option (Except (Fault Item) (Value Item)) :=
  match e.nature with
  | .tagged hash _ => some (.ok hash)
  | _ => none

/-- The text that comes with what an object is. -/
def standardText? [Objects Item] (e : Entry) : Option (Except (Fault Item) (Value Item)) :=
  match e.nature with
  | .version major minor => some do
      let first ← major.spelledWithin
      let second ← minor.spelledWithin
      return .text (first ++ Text.ofString "." ++ second)
  | .tagged _ label => some (.ok label)
  | .error err => some (.ok (.text err.text))
  | .function name => some (.ok (.text (Text.ofString "[function " ++ name ++ Text.ofString "]")))
  | .date time => some (.ok (.text (Calendar.spelled time)))
  | .bare => none
  | _ => some (.ok (.text (Text.ofString "[object " ++ e.shownTag ++ Text.ofString "]")))

/-- The number that comes with what an object is. -/
def standardNumber? (e : Entry) : Option (Except (Fault Item) (Value Item)) :=
  match e.nature with
  | .date time => some (.ok (.number time))
  | _ => none

/-- The order that comes with what an object is. -/
def standardOrder? [Objects Item] (c : Catalog) (e : Entry) :
    Option (Value Item → Except (Fault Item) (Value Item)) :=
  match e.nature with
  | .version major minor => some (c.compareVersions major minor)
  | _ => none

/-! ## Types -/

/-- The name that a value shows: its field `name`, which an error without a code has from its
class. -/
def shownName (c : Catalog) (v : Value Item) : Value Item :=
  match c.field v "name", c.entry? v with
  | .undefined, some { nature := .error err, .. } => .text err.name
  | name, _ => name

/-- The name of the type that a value stands for as a constructor: the name it shows, unless that is
absent. -/
def constructorName (c : Catalog) (constructor : Value Item) : Value Item :=
  match c.shownName constructor with
  | .undefined => .text "Object"
  | .null => .text "Object"
  | name => name

/-- The name of an object's type. -/
def typeName (c : Catalog) (e : Entry) : Value Item :=
  match e.ownField? "constructor" with
  | some constructor => c.constructorName constructor
  | none =>
      match e.nature with
      | .version _ _ => .text "Version"
      | .point _ _ => .text "Point"
      | .tagged _ _ => .text "Tagged"
      | .code _ => .text "Code"
      | .error err => .text err.errorClass.name
      | .function _ => .text "Function"
      | .date _ => .text "Date"
      | .plain name => .text name
      | .bare => .text "Object"
      | .record => .text "Object"

/-! ## Looks -/

/-- The fields by which an object is told from others, without those that are `undefined`. -/
def telling (e : Entry) : List (Text × Value Item) :=
  let names : List Text :=
    match e.nature with
    | .version _ _ => ["major", "minor"]
    | .point _ _ => ["x", "y"]
    | .tagged _ _ => ["hash", "label"]
    | .code _ => ["value"]
    | .error err => if err.isCoded then ["code", "context", "name"] else []
    | _ => []
  let fields := (names ++ e.fields.map (·.1)).eraseDups.map fun name => (name, e.field name)
  fields.filter fun entry => entry.2 ≠ .undefined

/-- Whether an object was given methods of its own. No two objects share such a method. -/
def hasGivenMethod (e : Entry) : Bool :=
  e.order.isSome || e.equality.isSome || e.hash.isSome || e.conversion.isSome

/-- Whether what two objects are lets them look the same. Errors must be of one class and have one
message, and a function only looks like itself. -/
def naturesAgree (d e : Entry) : Bool :=
  match d.nature, e.nature with
  | .function _, _ => false
  | _, .function _ => false
  | .error x, .error y => x.errorClass == y.errorClass && x.message == y.message
  | _, _ => true

/-- Whether two objects look the same: dates without a tag by their time, others by their tags and
fields. Objects in fields are compared in the same way down to the given depth. -/
def alike (c : Catalog) : Nat → Item → Item → Bool
  | 0, o, p => decide (o = p)
  | depth + 1, o, p =>
      let d := c.entry o
      let e := c.entry p
      match d.form, e.form, d.tag, e.tag with
      | .date s, .date t, none, none => decide (s = t)
      | _, _, _, _ =>
          naturesAgree d e && d.tag == e.tag && d.shownTag == e.shownTag &&
            !hasGivenMethod d && !hasGivenMethod e &&
            (telling d).length == (telling e).length &&
            (telling d).all fun field =>
              (telling e).any fun other =>
                field.1 == other.1 && field.2.looksLike (c.alike depth) other.2

/-! ## Entries as objects -/

/-- What the objects of a catalog show, where `inner` says what the objects in their fields show. -/
@[reducible] def objectsOver (c : Catalog) (inner : Objects Item) : Objects Item where
  form := fun o => (c.entry o).form
  ownOrder? := fun o =>
    let e := c.entry o
    c.method? e "compareTo" e.order (fun behaviour other => c.call e other behaviour)
      (@standardOrder? inner c e)
  ownEquality? := fun o =>
    let e := c.entry o
    c.method? e "equals" e.equality (fun behaviour other => c.call e other behaviour)
      (c.standardEquality? e)
  ownHash? := fun o =>
    let e := c.entry o
    c.method? e "hashCode" e.hash (c.call e .undefined) (standardHash? e)
  ownText? := fun o =>
    let e := c.entry o
    c.method? e "toString" e.conversion (c.call e .undefined) (@standardText? inner e)
  ownNumber? := fun o =>
    let e := c.entry o
    c.method? e "valueOf" none (c.call e .undefined) (standardNumber? e)
  field := fun o name => (c.entry o).field name
  alike := c.alike c.size
  tag := fun o => (c.entry o).shownTag
  typeName := fun o => c.typeName (c.entry o)
  errorCode? := fun o =>
    match (c.entry o).nature with
    | .error err => err.code?
    | _ => none

/-- Objects that show nothing. -/
@[reducible] def featureless : Objects Item where
  form := fun _ => .plain
  ownOrder? := fun _ => none
  ownEquality? := fun _ => none
  ownHash? := fun _ => none
  ownText? := fun _ => none
  ownNumber? := fun _ => none
  field := fun _ _ => .undefined
  alike := fun _ _ => false
  tag := fun _ => "Object"
  typeName := fun _ => .text "Object"
  errorCode? := fun _ => none

/-- What the objects of a catalog show, together with those in their fields down to a depth. -/
@[reducible] def objectsTo (c : Catalog) : Nat → Objects Item
  | 0 => featureless
  | depth + 1 => c.objectsOver (c.objectsTo depth)

/-- What the objects of a catalog show. The fields of an entry hold only objects of earlier entries,
so that none lies deeper than the catalog is long. -/
@[reducible] def objects (c : Catalog) : Objects Item := c.objectsTo c.size

/-! ## Values as answers -/

/-- What a feed answers when it is to answer with this value. -/
def reply (c : Catalog) (v : Value Item) : Reply Item :=
  match v with
  | .undefined => .missing
  | .null => .unreadable
  | v => .result (c.field v "done") (c.field v "value")

end Catalog

end Arrange
