import DocumentSink.Numeral.Layout
import DocumentSink.Record
import DocumentSink.Text.Quoted

/-!
Values: what rows hold, what documents are made of, and what loosely typed input is. An object is an
ordered record.
-/

namespace DocumentSink

inductive Value
  | null
  | bool (b : Bool)
  | int (n : Int)
  | float (d : Numeral.Double)
  | text (s : String)
  | list (items : List Value)
  | object (members : List (String × Value))
  deriving Inhabited

namespace Value

def isNull : Value → Bool
  | null => true
  | _ => false

def isObject : Value → Bool
  | object _ => true
  | _ => false

/-- Equal to the number zero; a false flag counts as zero too. -/
def isZero : Value → Bool
  | bool b => !b
  | int n => n = 0
  | float d => d.isZero
  | _ => false

/-- Empty texts and collections, zeros, false and null count as false. -/
def truthy : Value → Bool
  | null => false
  | bool b => b
  | int n => n ≠ 0
  | float d => !d.isZero
  | text s => !s.isEmpty
  | list items => !items.isEmpty
  | object members => !members.isEmpty

def kindName : Value → String
  | null => "NoneType"
  | bool _ => "bool"
  | int _ => "int"
  | float _ => "float"
  | text _ => "str"
  | list _ => "list"
  | object _ => "dict"

def flagText (b : Bool) : String := if b then "True" else "False"

/-- Items in a row, with a comma and a space between them. -/
def commaSeparated : List String → String
  | [] => ""
  | [s] => s
  | s :: rest => s ++ ", " ++ commaSeparated rest

mutual
def shown : Value → String
  | null => "None"
  | bool b => flagText b
  | int n => Numeral.decimalText n
  | float d => .ofList d.text
  | text s => Text.quote s
  | list items => "[" ++ commaSeparated (shownItems items) ++ "]"
  | object members => "\x7b" ++ commaSeparated (shownMembers members) ++ "\x7d"

def shownItems : List Value → List String
  | [] => []
  | v :: items => shown v :: shownItems items

def shownMembers : List (String × Value) → List String
  | [] => []
  | (n, v) :: members => (Text.quote n ++ ": " ++ shown v) :: shownMembers members
end

mutual
/-- Whether there is an integer in a value that is too long to be shown. -/
def hasLong : Value → Bool
  | int n => Numeral.isLong n
  | list items => hasLongItems items
  | object members => hasLongMembers members
  | _ => false

def hasLongItems : List Value → Bool
  | [] => false
  | v :: items => hasLong v || hasLongItems items

def hasLongMembers : List (String × Value) → Bool
  | [] => false
  | (_, v) :: members => hasLong v || hasLongMembers members
end

/-- A value as text: a text stands for itself. -/
def display : Value → String
  | text s => s
  | v => shown v

/-- A value as text, unless an integer in it is too long. -/
def display? (v : Value) : Option String := if v.hasLong then none else some v.display

def lookup : List String → Value → Option Value
  | [], v => some v
  | name :: path, object members => (Record.get? name members).bind (lookup path)
  | _ :: _, _ => none

end Value

end DocumentSink
