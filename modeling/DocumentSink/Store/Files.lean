import DocumentSink.Record
import DocumentSink.Text.Split
import DocumentSink.Text.Quoted
import DocumentSink.Numeral.Integer

/-!
A tree of files below one directory, as far as storing definitions needs one. A path is a list of
names, each of which leads one level down, so two paths that differ lead to two places; a file holds
octets. A path that leads through a file is told apart from one that leads nowhere.
-/

namespace DocumentSink

/-- A name that leads one level down: it neither stays nor leads up, and is one name. -/
def isFileName (s : String) : Bool :=
  !s.isEmpty && s ≠ "." && s ≠ ".." && s.toList.all fun c => c ≠ '/' && c ≠ '\x00'

structure FileName where
  text : String
  isName : isFileName text = true
  deriving DecidableEq, Repr

abbrev FilePath := List FileName

namespace FilePath

/-- The path that a text writes; empty names and single points stand for nothing. A text that leads
up or has a null in it writes none. -/
def ofText? (s : String) : Option FilePath :=
  let names := (Text.splitOn '/' s).filter fun name => !name.isEmpty && name ≠ "."
  names.mapM fun name => if h : isFileName name = true then some ⟨name, h⟩ else none

def written (top : String) (p : FilePath) : String :=
  Text.joinWith '/' (top :: p.map FileName.text)

/-- The directories that a path leads through, the outermost first. The top directory is none of
them. -/
def parents : FilePath → List FilePath
  | [] => []
  | [_] => []
  | name :: p => [name] :: (parents p).map (name :: ·)

end FilePath

/-- Why a file cannot be reached, and where. -/
inductive FileFault
  | notFound (path : FilePath)
  | fileExists (path : FilePath)
  | notDirectory (path : FilePath)
  | isDirectory (path : FilePath)
  deriving DecidableEq, Repr

def FileFault.message (top : String) : FileFault → String
  | notFound p => "[Errno 2] No such file or directory: " ++ Text.quote (p.written top)
  | fileExists p => "[Errno 17] File exists: " ++ Text.quote (p.written top)
  | notDirectory p => "[Errno 20] Not a directory: " ++ Text.quote (p.written top)
  | isDirectory p => "[Errno 21] Is a directory: " ++ Text.quote (p.written top)

inductive FileEntry
  | directory
  | file (octets : List UInt8)
  deriving DecidableEq, Repr

/-- Directories and files by path. The top directory is always there. -/
structure Files where
  entries : List (FilePath × FileEntry) := []
  deriving DecidableEq, Repr

namespace Files

def entry? (fs : Files) (p : FilePath) : Option FileEntry :=
  if p.isEmpty then some .directory else (fs.entries.find? fun e => e.1 = p).map (·.2)

def isFile (fs : Files) (p : FilePath) : Bool :=
  match fs.entry? p with
  | some (.file _) => true
  | _ => false

def put (fs : Files) (p : FilePath) (e : FileEntry) : Files :=
  ⟨(fs.entries.filter fun q => q.1 ≠ p) ++ [(p, e)]⟩

/-- Makes a directory and those that lead to it, as far as they are missing. -/
def makeDirectory (fs : Files) (p : FilePath) : Except FileFault Files :=
  if p.parents.any fs.isFile then .error (.notDirectory p)
  else if fs.isFile p then .error (.fileExists p)
  else .ok ((p.parents ++ [p]).foldl (fun fs d =>
    if (fs.entry? d).isSome then fs else fs.put d .directory) fs)

def read (fs : Files) (p : FilePath) : Except FileFault (List UInt8) :=
  match fs.entry? p with
  | some (.file octets) => .ok octets
  | some .directory => .error (.isDirectory p)
  | none => .error (if p.parents.any fs.isFile then .notDirectory p else .notFound p)

def write (fs : Files) (p : FilePath) (octets : List UInt8) : Except FileFault Files :=
  if fs.entry? p = some .directory then .error (.isDirectory p)
  else if p.parents.any fs.isFile then .error (.notDirectory p)
  else if p.parents.all fun d => (fs.entry? d).isSome then .ok (fs.put p (.file octets))
  else .error (.notFound p)

end Files

end DocumentSink
