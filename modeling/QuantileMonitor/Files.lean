import QuantileMonitor.Text.Blank

/-! A tree of files as a value. A file's content is kept apart from its place in the tree, so that a
handle goes on reading a file that was removed or replaced. -/

namespace QuantileMonitor

inductive FileError
  | missing
  | notDirectory
  | isDirectory
  | notText
  | nameTooLong
  | nulInPath
deriving DecidableEq

def FileError.message : FileError → String
  | missing => "No such file or directory (os error 2)"
  | notDirectory => "Not a directory (os error 20)"
  | isDirectory => "Is a directory (os error 21)"
  | notText => "stream did not contain valid UTF-8"
  | nameTooLong => "File name too long (os error 36)"
  | nulInPath => "file name contained an unexpected NUL byte"

/-- What stands at a place of the tree; a file is known by the number of its content. -/
inductive Node
  | directory
  | file (number : Nat)
deriving DecidableEq

abbrev Place := List String

structure Files where
  nodes : List (Place × Node)
  contents : Array ByteArray

namespace Files

def top : String := "/"

def empty : Files := ⟨[], #[]⟩

def node? (fs : Files) (place : Place) : Option Node :=
  if place = [] ∨ place = [top] then some .directory else (fs.nodes.find? (·.1 = place)).map (·.2)

def components (path : String) : Place × List String :=
  let names := (Text.splitOn '/' path.toList).map String.ofList
  (if names.head? = some "" && path ≠ "" then [top] else [], names)

def nameLimit : Nat := 255

def pathLimit : Nat := 4096

def walk (fs : Files) (place : Place) : List String → Except FileError Place
  | [] => .ok place
  | name :: rest =>
    match fs.node? place with
    | none => .error .missing
    | some (.file _) => .error .notDirectory
    | some .directory =>
      if name = "" ∨ name = "." then fs.walk place rest
      else if name = ".." then fs.walk place.dropLast rest
      else if nameLimit < name.utf8ByteSize then .error .nameTooLong
      else fs.walk (place ++ [name]) rest

def checkPath (path : String) : Except FileError Unit :=
  if path.toList.contains '\x00' then .error .nulInPath
  else if pathLimit ≤ path.utf8ByteSize then .error .nameTooLong
  else .ok ()

def lookup (fs : Files) (path : String) : Except FileError (Place × Node) := do
  checkPath path
  let (start, names) := components path
  let place ← fs.walk start names
  match fs.node? place with
  | none => .error .missing
  | some node => pure (place, node)

def openNode (fs : Files) (path : String) : Except FileError Node := (·.2) <$> fs.lookup path

def content (fs : Files) : Node → Except FileError ByteArray
  | .directory => .error .isDirectory
  | .file number => .ok (fs.contents.getD number ByteArray.empty)

def readBytes (fs : Files) (path : String) : Except FileError ByteArray := do
  fs.content (← fs.openNode path)

def readText (fs : Files) (path : String) : Except FileError String := do
  match String.fromUTF8? (← fs.readBytes path) with
  | none => .error .notText
  | some text => pure text

def list (fs : Files) (path : String) : Except FileError (List String) := do
  match ← fs.lookup path with
  | (_, .file _) => .error .notDirectory
  | (place, .directory) =>
    pure (fs.nodes.filterMap fun (p, _) =>
      match p.getLast? with
      | some name => if p = place ++ [name] then some name else none
      | none => none)

def makeDirectories (fs : Files) (place : Place) : List String → Files
  | [] => fs
  | name :: rest =>
    let place := place ++ [name]
    let fs := if (fs.node? place).isSome then fs else { fs with nodes := fs.nodes ++ [(place, .directory)] }
    makeDirectories fs place rest

/-- Writes a file, below directories that are made where they are missing. A file that is there keeps
its handles. -/
def write (fs : Files) (place : Place) (data : ByteArray) : Files :=
  let fs := fs.makeDirectories [] place.dropLast
  match fs.node? place with
  | some (.file number) => { fs with contents := fs.contents.setIfInBounds number data }
  | some .directory => fs
  | none =>
    { nodes := fs.nodes ++ [(place, .file fs.contents.size)]
      contents := fs.contents.push data }

def placeOf (path : String) : Place :=
  let (start, names) := components path
  names.foldl (fun place name =>
    if name = "" ∨ name = "." then place else if name = ".." then place.dropLast else place ++ [name]) start

def remove (fs : Files) (place : Place) : Files :=
  { fs with nodes := fs.nodes.filter fun (p, _) => !(place.isPrefixOf p) }

end Files

def joinPath (base part : String) : String :=
  if part.toList.head? = some '/' ∨ base = "" then part
  else if base.toList.getLast? = some '/' then base ++ part
  else base ++ "/" ++ part

end QuantileMonitor
