import CrossPlan.Table
import CrossPlan.Text.Blank

/-!
# Files

The files that sources read and sinks write, under paths from a working directory.  A path is taken
apart at its slashes; parts that are empty or a dot are skipped, and two dots lead back.
-/

set_option autoImplicit false

namespace CrossPlan

inductive FileFault where
  | notFound
  | isADirectory
  | notADirectory
  | alreadyExists
  | invalidData
  | invalidName
  | other
  deriving DecidableEq, Repr

def FileFault.message : FileFault → String
  | .notFound => "No such file or directory (os error 2)"
  | .isADirectory => "Is a directory (os error 21)"
  | .notADirectory => "Not a directory (os error 20)"
  | .alreadyExists => "File exists (os error 17)"
  | .invalidData => "stream did not contain valid UTF-8"
  | .invalidName => "file name contained an unexpected NUL byte"
  | .other => "not available"

/-- A path, taken apart. -/
structure FilePath where
  absolute : Bool
  parts : List String
  /-- whether it can only name a directory -/
  closed : Bool

namespace FilePath

/-- Appends a part of a path to the parts before it. -/
def enter (parts : List String) (part : String) : List String :=
  if part = "" ∨ part = "." then parts
  else if part = ".." ∧ parts.getLast?.any (· ≠ "..") then parts.dropLast
  else parts ++ [part]

def ofText? (text : String) : Option FilePath :=
  let pieces := (Text.pieces (· == '/') text.toList).map String.ofList
  if text = "" then none
  else some
    { absolute := text.startsWith "/"
      parts := pieces.foldl enter []
      closed := pieces.getLast?.any fun last => last = "" ∨ last = "." ∨ last = ".." }

/-- The text under which the file of some parts is kept. -/
def keyOf (absolute : Bool) (parts : List String) : String :=
  (if absolute then "/" else "") ++ "/".intercalate parts

def key (path : FilePath) : String := keyOf path.absolute path.parts

end FilePath

inductive FileEntry where
  | file (content : ByteArray)
  | directory
  deriving Inhabited

structure Files where
  entries : Table FileEntry

namespace Files

def empty : Files := ⟨.empty⟩

/-- What stands under a path; the working directory and the root are there in any case. -/
def entry? (files : Files) (absolute : Bool) (parts : List String) : Option FileEntry :=
  if parts.isEmpty then some .directory else files.entries.get? (FilePath.keyOf absolute parts)

def ancestors (path : FilePath) : List (List String) :=
  (List.range path.parts.length).map fun count => path.parts.take count

/-- Whether the directories above a path are there. -/
def reach (files : Files) (path : FilePath) : Except FileFault Unit :=
  (ancestors path).forM fun parts =>
    match files.entry? path.absolute parts with
    | none => .error .notFound
    | some (.file _) => .error .notADirectory
    | some .directory => .ok ()

def pathOf (text : String) : Except FileFault FilePath :=
  if text.toList.contains '\x00' then .error .invalidName
  else match FilePath.ofText? text with
    | some path => .ok path
    | none => .error .notFound

def read (files : Files) (text : String) : Except FileFault ByteArray := do
  let path ← pathOf text
  files.reach path
  match files.entry? path.absolute path.parts with
  | none => throw .notFound
  | some .directory => throw .isADirectory
  | some (.file content) => if path.closed then throw .notADirectory else pure content

def readText (files : Files) (text : String) : Except FileFault String := do
  match String.fromUTF8? (← files.read text) with
  | some content => pure content
  | none => throw .invalidData

/-- Writes a file, in place of one that is there. -/
def write (files : Files) (text : String) (content : ByteArray) : Except FileFault Files := do
  let path ← pathOf text
  files.reach path
  match files.entry? path.absolute path.parts with
  | some .directory => throw .isADirectory
  | _ =>
    if path.closed then throw .isADirectory
    pure ⟨files.entries.insert path.key (.file content)⟩

/-- Creates a directory and those above it, as far as they are missing. -/
def createDirectories (files : Files) (text : String) : Except FileFault Files :=
  if text = "" then .ok files
  else do
    let path ← pathOf text
    (ancestors path ++ [path.parts]).foldlM (fun files parts =>
      match files.entry? path.absolute parts with
      | some .directory => .ok files
      | some (.file _) =>
        .error (if parts.length = path.parts.length then .alreadyExists else .notADirectory)
      | none => .ok ⟨files.entries.insert (FilePath.keyOf path.absolute parts) .directory⟩) files

/-- Puts a file and the directories above it where they belong, whatever was there. -/
def put (files : Files) (text : String) (content : ByteArray) : Files :=
  match FilePath.ofText? text with
  | none => files
  | some path =>
    let above := (ancestors path).filter fun parts => !parts.isEmpty
    let entries := above.foldl (fun entries parts =>
      entries.insert (FilePath.keyOf path.absolute parts) .directory) files.entries
    ⟨entries.insert path.key (.file content)⟩

/-- The file of a name in a directory. -/
def join (directory name : String) : String :=
  if directory = "" ∨ directory.endsWith "/" then directory ++ name else directory ++ "/" ++ name

end Files

end CrossPlan
