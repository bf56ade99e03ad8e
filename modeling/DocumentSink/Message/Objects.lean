import DocumentSink.Message.Fault

/-!
What a template asks of the objects that it is filled with. The objects are those of the host: they
answer for their attributes and elements, their texts and their layouts, or fail as they like.
-/

namespace DocumentSink.Message

/-- How a field makes a text of an object before it is laid out. -/
inductive Conversion
  | text
  | shown
  | ascii
  deriving DecidableEq, Repr

def Conversion.ofCodePoint? : CodePoint → Option Conversion
  | .char 's' => some .text
  | .char 'r' => some .shown
  | .char 'a' => some .ascii
  | _ => none

structure Objects where
  Object : Type
  ofValue : Value → Object
  attributeOf : Object → Wide → Except Fault Object
  elementAt : Object → Nat → Except Fault Object
  elementOf : Object → Wide → Except Fault Object
  convert : Conversion → Object → Except Fault Object
  /-- An object as a layout asks for; what it makes of an empty one is its own choice. -/
  layOut : Wide → Object → Except Fault Wide

end DocumentSink.Message
