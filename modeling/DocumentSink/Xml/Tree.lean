/-!
Trees of markup. An element has a name, the text before its first child, and its children;
attributes, comments and the text after a child are not part of the tree.
-/

namespace DocumentSink.Xml

/-- A name in a namespace; the empty one is no namespace. -/
structure Name where
  space : String := ""
  label : String
  deriving DecidableEq, Inhabited, Repr

inductive Element
  | mk (name : Name) (text : String) (children : List Element)
  deriving Inhabited

namespace Element

def name : Element → Name
  | mk name _ _ => name

def text : Element → String
  | mk _ text _ => text

def children : Element → List Element
  | mk _ _ children => children

def leaf (tag text : String) : Element := mk ⟨"", tag⟩ text []

def group (tag : String) (children : List Element) : Element := mk ⟨"", tag⟩ "" children

def hasTag (tag : String) (e : Element) : Bool := e.name = ⟨"", tag⟩

def child? (tag : String) (e : Element) : Option Element := e.children.find? (hasTag tag)

/-- The children with a tag, in order. -/
def childrenWith (tag : String) (e : Element) : List Element := e.children.filter (hasTag tag)

def childText? (tag : String) (e : Element) : Option String := (e.child? tag).map text

mutual
/-- The first element with a tag: the element itself, or the first below it in document order. -/
def find? (tag : String) : Element → Option Element
  | mk name text children =>
    if name = ⟨"", tag⟩ then some (mk name text children) else findIn? tag children

def findIn? (tag : String) : List Element → Option Element
  | [] => none
  | e :: rest => (find? tag e).orElse fun _ => findIn? tag rest
end

end Element

end DocumentSink.Xml
