import DocumentSink.Text.Wide
import DocumentSink.Value

/-!
What can be wrong with a message template or with what is put into it.
-/

namespace DocumentSink.Message

inductive Fault
  -- the text of the template
  | loneOpen
  | loneClose
  | unclosedField
  | openInName
  | noConversion
  | noColon
  | unmatchedOpen
  | nesting
  | unknownConversion (c : CodePoint)
  | longNumber
  | emptyAttribute
  | afterBracket
  -- the arguments
  | noArgument (name : Wide)
  | noPosition (index : Nat)
  | listIndex
  | textIndex
  | noName (name : Wide)
  | noNumber (index : Nat)
  | listKey
  | textKey
  | notIndexed (kind : String)
  | noAttribute (kind : String) (name : Wide)
  | noLayout (kind : String)
  -- how an argument is laid out
  | unknownCode (c : CodePoint) (kind : String)
  | unreadLayout (layout : Wide) (kind : String)
  | bothSeparators
  | separator (mark : Char) (code : CodePoint)
  | noPrecision
  | integerPrecision
  | integerPlainZero
  | characterSign
  | characterAlternate
  | characterRange
  | characterSize
  | doublePrecision
  | doubleSize
  | textSpace
  | textSign
  | textPlainZero
  | textAlternate
  | textAlign
  | tooLong
  -- what an object of the host fails with
  | raised (kind : String) (message : Wide)
  deriving DecidableEq, Repr

/-- A code point in a message: visible ASCII below the limit as itself, all else by number. -/
def visible (limit : Nat) (c : CodePoint) : Wide :=
  if 32 < c.number && c.number < limit then [c]
  else .ofChars ('\\' :: 'x' :: Nat.toDigits 16 c.number)

/-- A format code in a message. -/
def codeText (c : CodePoint) : Wide := visible 128 c

def Fault.message : Fault → Wide
  | loneOpen => "Single '\x7b' encountered in format string"
  | loneClose => "Single '\x7d' encountered in format string"
  | unclosedField => "expected '\x7d' before end of string"
  | openInName => "unexpected '\x7b' in field name"
  | noConversion => "end of string while looking for conversion specifier"
  | noColon => "expected ':' after conversion specifier"
  | unmatchedOpen => "unmatched '\x7b' in format spec"
  | nesting => "Max string recursion exceeded"
  | unknownConversion c => "Unknown conversion specifier " ++ visible 127 c
  | longNumber => "Too many decimal digits in format string"
  | emptyAttribute => "Empty attribute in format string"
  | afterBracket => "Only '.' or '[' may follow ']' in format field specifier"
  | noArgument name => name.quote
  | noPosition index =>
    "Replacement index " ++ Numeral.decimalText index ++ " out of range for positional args tuple"
  | listIndex => "list index out of range"
  | textIndex => "string index out of range"
  | noName name => name.quote
  | noNumber index => Numeral.decimalText index
  | listKey => "list indices must be integers or slices, not str"
  | textKey => "string indices must be integers, not 'str'"
  | notIndexed kind => "'" ++ kind ++ "' object is not subscriptable"
  | noAttribute kind name => "'" ++ kind ++ "' object has no attribute '" ++ name ++ "'"
  | noLayout kind => "unsupported format string passed to " ++ kind ++ ".__format__"
  | unknownCode c kind =>
    "Unknown format code '" ++ codeText c ++ "' for object of type '" ++ kind ++ "'"
  | unreadLayout layout kind =>
    "Invalid format specifier '" ++ layout ++ "' for object of type '" ++ kind ++ "'"
  | bothSeparators => "Cannot specify both ',' and '_'."
  | separator mark code =>
    "Cannot specify '" ++ mark.toString ++ "' with '" ++ codeText code ++ "'."
  | noPrecision => "Format specifier missing precision"
  | integerPrecision => "Precision not allowed in integer format specifier"
  | integerPlainZero => "Negative zero coercion (z) not allowed in integer format specifier"
  | characterSign => "Sign not allowed with integer format specifier 'c'"
  | characterAlternate => "Alternate form (#) not allowed with integer format specifier 'c'"
  | characterRange => "%c arg not in range(0x110000)"
  | characterSize => "Python int too large to convert to C long"
  | doublePrecision => "precision too big"
  | doubleSize => "int too large to convert to float"
  | textSpace => "Space not allowed in string format specifier"
  | textSign => "Sign not allowed in string format specifier"
  | textPlainZero => "Negative zero coercion (z) not allowed in string format specifier"
  | textAlternate => "Alternate form (#) not allowed in string format specifier"
  | textAlign => "'=' alignment not allowed in string format specifier"
  | tooLong => Numeral.longMessage
  | raised _ message => message

end DocumentSink.Message
