import SolidityCalls.Data.Value

/-! Building a TOML document from its statements. A table is declared once, a value is given
once, and tables and arrays written as values cannot be extended. -/
namespace SolidityCalls.Toml

abbrev Key := List String

inductive Statement where
  | pair (key : Key) (value : Value)
  | table (key : Key)
  | item (key : Key)

/-- Changes the table at a key, making the tables on the way that are missing. With `lists`, an
array on the way stands for its last table. -/
def update (lists : Bool) (f : OrderedMap Value → Option (OrderedMap Value)) :
    Key → OrderedMap Value → Option (OrderedMap Value)
  | [], t => f t
  | k :: rest, t =>
    match OrderedMap.get? t k with
    | none => (update lists f rest []).map fun s => OrderedMap.put t k (.object s)
    | some (.object s) => (update lists f rest s).map fun s => OrderedMap.put t k (.object s)
    | some (.array items) =>
      match lists, items.getLast? with
      | true, some (.object s) =>
        (update lists f rest s).map fun s =>
          OrderedMap.put t k (.array (items.dropLast ++ [.object s]))
      | _, _ => none
    | some _ => none

/-- Gives a value to a name that has none. -/
def assign (name : String) (value : Value) (t : OrderedMap Value) : Option (OrderedMap Value) :=
  if OrderedMap.contains t name then none else some (OrderedMap.put t name value)

/-- Appends an empty table to the array of a name. -/
def appendItem (name : String) (t : OrderedMap Value) : Option (OrderedMap Value) :=
  match OrderedMap.get? t name with
  | none => some (OrderedMap.put t name (.array [.object []]))
  | some (.array items) => some (OrderedMap.put t name (.array (items ++ [.object []])))
  | some _ => none

def isContainer : Value → Bool
  | .array _ | .object _ => true
  | _ => false

structure Document where
  root : OrderedMap Value
  /-- The table that pairs are put into. -/
  header : Key
  /-- Tables that no header may declare again. -/
  declared : List Key
  /-- Tables opened by dotted keys, to be declared when the next header comes. -/
  pending : List Key
  /-- Tables and arrays written as values. -/
  frozen : List Key

namespace Document

def empty : Document := ⟨[], [], [], [], []⟩

def isFrozen (frozen : List Key) (key : Key) : Bool := frozen.any fun f => f.isPrefixOf key

/-- The keys between the header and the last part of a dotted key. -/
def openings (header key : Key) : List Key :=
  (List.range (key.length - 1)).map fun i => header ++ key.take (i + 1)

def addPair (d : Document) (key : Key) (value : Value) : Option Document :=
  let opened := openings d.header key
  let whole := d.header ++ key
  if opened.any d.declared.contains || isFrozen d.frozen whole.dropLast then none
  else
    match update true (assign (key.getLast?.getD "") value) whole.dropLast d.root with
    | none => none
    | some root =>
      some { d with
        root
        pending := d.pending ++ opened
        frozen := if isContainer value then whole :: d.frozen else d.frozen }

/-- Declares the tables that dotted keys have opened. -/
def settle (d : Document) : Document :=
  { d with declared := d.declared ++ d.pending, pending := [] }

def addTable (d : Document) (key : Key) : Option Document :=
  let d := d.settle
  if d.declared.contains key || isFrozen d.frozen key then none
  else
    (update true some key d.root).map fun root =>
      { d with root, header := key, declared := key :: d.declared }

def addItem (d : Document) (key : Key) : Option Document :=
  let d := d.settle
  if isFrozen d.frozen key then none
  else
    (update true (appendItem (key.getLast?.getD "")) key.dropLast d.root).map fun root =>
      { d with
        root
        header := key
        declared := key :: d.declared.filter fun k => !key.isPrefixOf k
        frozen := d.frozen.filter fun k => !key.isPrefixOf k }

def add (d : Document) : Statement → Option Document
  | .pair key value => d.addPair key value
  | .table key => d.addTable key
  | .item key => d.addItem key

end Document

/-- A table written as a value, while its pairs are read. -/
structure InlineTable where
  fields : OrderedMap Value
  /-- Tables and arrays written as values in it. -/
  frozen : List Key

namespace InlineTable

def empty : InlineTable := ⟨[], []⟩

def add (t : InlineTable) (key : Key) (value : Value) : Option InlineTable :=
  if Document.isFrozen t.frozen key then none
  else
    (update false (assign (key.getLast?.getD "") value) key.dropLast t.fields).map fun fields =>
      ⟨fields, if isContainer value then key :: t.frozen else t.frozen⟩

end InlineTable

end SolidityCalls.Toml
