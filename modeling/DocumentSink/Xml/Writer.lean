import DocumentSink.Xml.Tree

/-!
Trees as text. Every child stands on a line of its own, two spaces deeper than its parent. What
would be read otherwise is escaped: the ampersand, the angle brackets, and the carriage return.
-/

namespace DocumentSink.Xml

def escapedChar (c : Char) : List Char :=
  if c = '&' then ['&', 'a', 'm', 'p', ';']
  else if c = '<' then ['&', 'l', 't', ';']
  else if c = '>' then ['&', 'g', 't', ';']
  else if c = '\r' then ['&', '#', '1', '3', ';']
  else [c]

def escaped (s : List Char) : List Char := s.flatMap escapedChar

/-- A new line, indented for a level. -/
def newLine (level : Nat) : List Char := '\n' :: List.replicate (2 * level) ' '

mutual
/-- An element at a level. Text beside children is not written. -/
def write (level : Nat) : Element → List Char
  | .mk name text children =>
    let tag := name.label.toList
    match children, text.toList with
    | [], [] => '<' :: tag ++ [' ', '/', '>']
    | [], s => '<' :: tag ++ '>' :: escaped s ++ '<' :: '/' :: tag ++ ['>']
    | cs, _ =>
      '<' :: tag ++ '>' :: writeAll (level + 1) cs ++ newLine level ++ '<' :: '/' :: tag ++ ['>']

def writeAll (level : Nat) : List Element → List Char
  | [] => []
  | e :: rest => newLine level ++ write level e ++ writeAll level rest
end

end DocumentSink.Xml
