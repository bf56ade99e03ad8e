import DocumentSink.Text.Utf8
import DocumentSink.Xml.Doctype
import DocumentSink.Xml.Tree

/-!
Documents: the tree that a text writes. The tokens of the content open and close elements; names are
looked up in the bindings of prefixes that are in force where they stand.
-/

namespace DocumentSink.Xml

/-- Prefixes and the namespaces bound to them, the innermost first. The empty prefix is that of
names without one. -/
abbrev Scope := List (List Char × List Char)

def xmlSpace : List Char := ("http:/" ++ "/www.w3.org/XML/1998/namespace").toList

def xmlnsSpace : List Char := ("http:/" ++ "/www.w3.org/2000/xmlns/").toList

namespace Scope

/-- The namespace of a prefix; an unbound one has none. -/
def space? (scope : Scope) (pre : List Char) : Option (List Char) :=
  if pre = ['x', 'm', 'l'] then some xmlSpace else (scope.find? fun b => b.1 = pre).map (·.2)

/-- Binds a prefix. The two reserved prefixes and their namespaces belong together, and only the
empty prefix can be bound to nothing. -/
def bind (scope : Scope) (pre space : List Char) : Option Scope :=
  if space.isEmpty && !pre.isEmpty then none
  else if pre = ['x', 'm', 'l', 'n', 's'] || space.contains '\x7d' then none
  else if (pre = ['x', 'm', 'l']) != (space = xmlSpace) || space = xmlnsSpace then none
  else some ((pre, space) :: scope)

def parts (name : List Char) : List Char × List Char :=
  (Text.cutFirst ':' name).getD ([], name)

def elementName? (scope : Scope) (name : List Char) : Option Name :=
  let (pre, label) := parts name
  match scope.space? pre with
  | some space => some ⟨.ofList space, .ofList label⟩
  | none => if pre.isEmpty then some ⟨"", .ofList label⟩ else none

/-- The prefix that an attribute binds, if it is one that binds a prefix. -/
def boundPrefix? (name : List Char) : Option (List Char) :=
  if name = ['x', 'm', 'l', 'n', 's'] then some []
  else match parts name with
    | (['x', 'm', 'l', 'n', 's'], label) => some label
    | _ => none

def bindAll (scope : Scope) (attributes : List (List Char × List Char)) : Option Scope :=
  attributes.foldlM (fun scope a => match boundPrefix? a.1 with
    | some pre => scope.bind pre a.2
    | none => some scope) scope

/-- The namespace and the label of each attribute with a prefix. -/
def attributeNames? (scope : Scope) (names : List (List Char)) :
    Option (List (List Char × List Char)) :=
  List.reduceOption <$> names.mapM fun name =>
    let (pre, label) := parts name
    if pre.isEmpty || (boundPrefix? name).isSome then some none
    else (scope.space? pre).map fun space => some (space, label)

end Scope

/-- The attributes of a tag with their values, first those written and then those declared. No name
is written twice. -/
def Declarations.attributesOf (d : Declarations) (element : List Char)
    (attributes : List Attribute) :
    Option (List (List Char × List Char)) := do
  let declared := d.attributes.filter fun a => a.element = element
  let names := attributes.map (·.name)
  if ¬ names.Nodup then none
  let written ← attributes.mapM fun a => do
    let asWords := (declared.find? fun b => b.name = a.name).any (·.words)
    return (a.name, ← d.value asWords a.value)
  let unwritten := declared.filter fun a => !names.contains a.name
  return written ++ unwritten.filterMap fun a => a.value.map (a.name, ·)

/-- An open element, with its text and its children so far, the last first. -/
structure Frame where
  tag : List Char
  name : Name
  scope : Scope
  text : List Char := []
  children : List Element := []

namespace Frame

/-- Text counts up to the first child. -/
def addText (f : Frame) (s : List Char) : Frame :=
  if f.children.isEmpty then { f with text := s.reverse ++ f.text } else f

def addChild (f : Frame) (e : Element) : Frame := { f with children := e :: f.children }

def element (f : Frame) : Element := .mk f.name (.ofList f.text.reverse) f.children.reverse

end Frame

/-- How far a document is read: before its root, inside open elements, or after the root. -/
inductive Progress
  | start
  | inside (top : Frame) (outer : List Frame)
  | done (root : Element)

def Declarations.frame (d : Declarations) (scope : Scope) (tag : List Char)
    (attributes : List Attribute) : Option Frame := do
  let attributes ← d.attributesOf tag attributes
  let scope ← scope.bindAll attributes
  let names ← scope.attributeNames? (attributes.map (·.1))
  if ¬ names.Nodup then none
  return { tag, name := ← scope.elementName? tag, scope }

namespace Progress

/-- Reads one token. Only white space stands outside the root. -/
def step (d : Declarations) : Progress → Token → Option Progress
  | start, .opening tag attributes => do return inside (← d.frame [] tag attributes) []
  | inside top outer, .opening tag attributes => do
    return inside (← d.frame top.scope tag attributes) (top :: outer)
  | inside top outer, .closing tag =>
    if top.tag = tag then
      match outer with
      | [] => some (done top.element)
      | next :: outer => some (inside (next.addChild top.element) outer)
    else none
  | inside top outer, .text (.char c) => some (inside (top.addText [c]) outer)
  | inside top outer, .text (.data s) => some (inside (top.addText s) outer)
  | done root, .text (.char c) => if isSpace c then some (done root) else none
  | _, _ => none

end Progress

def content (d : Declarations) (s : List Char) : Option Element := do
  match ← (← d.expand (← tokens s)).foldlM (Progress.step d) .start with
  | .done root => return root
  | _ => none

/-- A value in the first line of a document: letters, digits, point, hyphen and underscore. -/
def isVersionChar (c : Char) : Bool := c.isAlphanum || c == '.' || c == '-' || c == '_'

/-- A name and a value in the first line, with white space before them; none at the end. -/
def takeSetting (s : List Char) : Option (Option (List Char × List Char) × List Char) :=
  match s with
  | [] => some (none, [])
  | c :: _ =>
    if !isSpace c then none
    else
      match skipSpace s with
      | [] => some (none, [])
      | t =>
        let (name, r) := t.span fun c => !isSpace c && c != '='
        match skipSpace r with
        | '=' :: r => do
          let (value, r) ← takeQuoted (skipSpace r)
          if value.all isVersionChar then return (some (name, value), r) else none
        | _ => none

/-- Whether the first line of a document calls it standalone, from its settings: a version, an
encoding that is not looked at, and `standalone`. -/
def standalone? (s : List Char) : Option Bool := do
  let (some (['v', 'e', 'r', 's', 'i', 'o', 'n'], _), r) ← takeSetting s | none
  let (setting, r) ← takeSetting r
  let (setting, r) ← match setting with
    | some (['e', 'n', 'c', 'o', 'd', 'i', 'n', 'g'], value) =>
      if value.head?.any Char.isAlpha then takeSetting r else none
    | _ => some (setting, r)
  match setting with
  | none => return false
  | some (['s', 't', 'a', 'n', 'd', 'a', 'l', 'o', 'n', 'e'], value) =>
    if (skipSpace r).isEmpty then
      match value with
      | ['y', 'e', 's'] => return true
      | ['n', 'o'] => return false
      | _ => none
    else none
  | _ => none

/-- The first line of a document, if it has one: whether the document is standalone. -/
def takeFirstLine : List Char → Option (Bool × List Char)
  | '<' :: '?' :: 'x' :: 'm' :: 'l' :: c :: s =>
    if isNameChar c then some (false, '<' :: '?' :: 'x' :: 'm' :: 'l' :: c :: s)
    else do
      let (settings, r) ← Text.cutWord ['?', '>'] (c :: s)
      return (← standalone? settings, r)
  | s => some (false, s)

def dropMark : List Char → List Char
  | '\uFEFF' :: s => s
  | s => s

/-- The tree that a text writes, or none where the text is no document. -/
def read (s : List Char) : Option Element := do
  let s := Text.lineFeeds (dropMark s)
  if !s.all isChar then none
  let (standalone, s) ← takeFirstLine s
  let (words, s) ← prologWords s
  let d ← Declarations.prolog { standalone } words
  content d s

end DocumentSink.Xml
