import StackScript.Number.Shortest
import StackScript.Value.Calendar

/-!
# Values of documents

A template document is a tree of scalars, lists and mappings. Mappings keep the order in which
their keys were first written, and keys may be values of any immutable type. Documents read from
text can also hold byte strings, pairs, sets and points in time, and a collection that contains
itself: `knot label body` is `body` in which every `link label` stands for the knot itself.

## Main definitions

* `Scalar`: null, truth values, integers, floating-point numbers and strings.
* `Value`: the trees; `Value.unfold` shows the outermost collection of a knot.
* `Value.sameKey`, `Value.put`: equality of keys, and writing an entry of a mapping.
* `Value.kindName`: the name of a value's type in messages.
* `DumpFault`: why a value is not written.
-/

namespace StackScript

open Number

/-- A value without parts. -/
inductive Scalar where
  | null
  | bool (b : Bool)
  | int (n : Int)
  | float (x : Double)
  | str (s : String)
deriving DecidableEq

/-- A document value. -/
inductive Value where
  | scalar (s : Scalar)
  | list (items : List Value)
  | map (entries : List (Value × Value))
  | bytes (data : List UInt8)
  | tuple (items : List Value)
  | set (items : List Value)
  | date (d : Date)
  | moment (m : Moment)
  | knot (label : Nat) (body : Value)
  | link (label : Nat)

namespace Value

instance : Inhabited Value := ⟨.scalar .null⟩

/-- The string `s` as a value. -/
@[match_pattern] abbrev str (s : String) : Value := .scalar (.str s)

/-- The null value. -/
@[match_pattern] abbrev null : Value := .scalar .null

/-- The integer `n` as a value. -/
@[match_pattern] abbrev int (n : Int) : Value := .scalar (.int n)

/-- The truth value `b` as a value. -/
@[match_pattern] abbrev bool (b : Bool) : Value := .scalar (.bool b)

/-! ### Collections that contain themselves -/

mutual

/-- The value with `replacement` in place of every free `link label`. -/
def replace (label : Nat) (replacement : Value) : Value → Value
  | .list items => .list (replaceAll label replacement items)
  | .map entries => .map (replaceEntries label replacement entries)
  | .tuple items => .tuple (replaceAll label replacement items)
  | .set items => .set items
  | .knot other body =>
    if other = label then .knot other body else .knot other (replace label replacement body)
  | .link other => if other = label then replacement else .link other
  | value => value

/-- `replace` in every item of a list. -/
def replaceAll (label : Nat) (replacement : Value) : List Value → List Value
  | [] => []
  | item :: rest => replace label replacement item :: replaceAll label replacement rest

/-- `replace` in the value of every entry. -/
def replaceEntries (label : Nat) (replacement : Value) :
    List (Value × Value) → List (Value × Value)
  | [] => []
  | (key, value) :: rest =>
    (key, replace label replacement value) :: replaceEntries label replacement rest

end

/-- The outermost collection of a knot, whose links are the knot again; any other value is
itself. -/
def unfold : Value → Value
  | .knot label body => replace label (.knot label body) body
  | value => value

/-- The name of the type of a value, as messages give it. -/
def kindName : Value → String
  | .scalar .null => "NoneType"
  | .scalar (.bool _) => "bool"
  | .scalar (.int _) => "int"
  | .scalar (.float _) => "float"
  | .scalar (.str _) => "str"
  | .list _ => "list"
  | .map _ => "dict"
  | .bytes _ => "bytes"
  | .tuple _ => "tuple"
  | .set _ => "set"
  | .date _ => "date"
  | .moment _ => "datetime"
  | .knot _ body => kindName body
  | .link _ => "list"

/-! ### Keys of mappings -/

/-- Whether two scalars are the same key. Numbers are compared by their value, and the truth values
count as one and zero. -/
def sameScalar : Scalar → Scalar → Bool
  | .null, .null => true
  | .str s, .str t => s == t
  | .float x, .float y => x.equals y || (x == .undefined && y == .undefined)
  | .float x, .int n => x.equalsInt n
  | .int n, .float x => x.equalsInt n
  | .float x, .bool b => x.equalsInt b.toInt
  | .bool b, .float x => x.equalsInt b.toInt
  | .int m, .int n => m == n
  | .int m, .bool b => m == b.toInt
  | .bool a, .int n => a.toInt == n
  | .bool a, .bool b => a == b
  | _, _ => false

mutual

/-- Whether two values are the same key of a mapping. -/
def sameKey : Value → Value → Bool
  | .scalar s, .scalar t => sameScalar s t
  | .bytes a, .bytes b => a == b
  | .tuple a, .tuple b => sameKeys a b
  | .date a, .date b => a == b
  | .moment a, .moment b => a.same b
  | _, _ => false

/-- Whether two lists hold the same keys in the same order. -/
def sameKeys : List Value → List Value → Bool
  | [], [] => true
  | a :: as, b :: bs => sameKey a b && sameKeys as bs
  | _, _ => false

end

/-- Writes one entry of a mapping: a known key keeps its place and its first spelling and takes the
new value, a new key goes to the end. -/
def put (entries : List (Value × Value)) (key value : Value) : List (Value × Value) :=
  match entries with
  | [] => [(key, value)]
  | (k, v) :: rest => if sameKey k key then (k, value) :: rest else (k, v) :: put rest key value

/-- The mapping that results from writing entries one after the other. -/
def ofEntries (entries : List (Value × Value)) : Value :=
  .map (entries.foldl (fun done (key, value) => put done key value) [])

/-- The mapping that results from writing entries with string keys one after the other. -/
def ofFields (fields : List (String × Value)) : Value :=
  ofEntries (fields.map fun (key, value) => (.str key, value))

/-- The distinct keys of a list, in order of their first occurrence. -/
def distinct (items : List Value) : List Value :=
  items.foldl (fun done item => if done.any (sameKey · item) then done else done ++ [item]) []

/-- The value of a string key among the entries of a mapping. -/
def lookup (key : String) : List (Value × Value) → Option Value
  | [] => none
  | (k, v) :: rest =>
    match k with
    | .str s => if s = key then some v else lookup key rest
    | _ => lookup key rest

end Value

/-- What a value can hold that has no written form: an integer with too many digits, or in JSON a
value or a key of a type that JSON has no notation for. -/
inductive DumpFault where
  | integerTooLong
  | noNotation
deriving DecidableEq

end StackScript
