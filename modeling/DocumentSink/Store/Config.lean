import DocumentSink.Step.Markup
import DocumentSink.Store.Attributes
import DocumentSink.Store.Files
import DocumentSink.Text.Utf8

/-!
Configuration stores: definitions in files of markup, and definitions in an attribute store. Files
are UTF-8; every line end in them is read as a line feed.
-/

namespace DocumentSink

structure ConfigStore where
  files : Files := {}
  attributes : AttributeStore := {}
  deriving DecidableEq, Repr

namespace ConfigStore

inductive SaveFault
  | file (fault : FileFault)
  | markup (fault : Markup.WriteFault)
  deriving DecidableEq, Repr

inductive LoadFault
  | file (path : FilePath) (fault : FileFault)
  | notText (fault : Utf8.Fault)
  | markup (fault : Markup.ReadFault)
  deriving DecidableEq, Repr

def SaveFault.message (top : String) : SaveFault → String
  | file fault => fault.message top
  | markup fault => fault.message

def LoadFault.message (top : String) : LoadFault → String
  | file path fault =>
    "Cannot load configuration from " ++ path.written top ++ ": " ++ fault.message top
  | notText fault => fault.message
  | markup fault => fault.message

def LoadFault.kind : LoadFault → FailureKind
  | file _ _ => .configuration
  | notText _ => .decoding
  | markup fault => fault.kind

/-- Saves a definition in a file. The directory of the file is made first, whether or not the
definition can be written; the file is touched only if it can. -/
def saveMarkup (s : ConfigStore) (p : FilePath) (d : Definition) :
    ConfigStore × Except SaveFault Unit :=
  match s.files.makeDirectory p.dropLast with
  | .error fault => (s, .error (.file fault))
  | .ok files =>
    match Markup.write d with
    | .error fault => ({ s with files }, .error (.markup fault))
    | .ok text =>
      match files.write p (Utf8.encode text.toList) with
      | .error fault => ({ s with files }, .error (.file fault))
      | .ok files => ({ s with files }, .ok ())

def loadMarkup (s : ConfigStore) (p : FilePath) : Except LoadFault Definition := do
  let octets ← (s.files.read p).mapError (.file p)
  let text ← (Utf8.decode octets).mapError .notText
  (Markup.decode (.ofChars (Text.lineFeeds text))).mapError .markup

def saveAttributes (s : ConfigStore) (step : String) (d : Definition) :
    Except StoreFault ConfigStore :=
  return { s with attributes := ← s.attributes.save step d }

def loadAttributes (s : ConfigStore) (step : String) : Except AttributeStore.LoadFault Definition :=
  s.attributes.load step

end ConfigStore

end DocumentSink
