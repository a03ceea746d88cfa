import CrossPlan.Command.Basic
import Std.Time.DateTime.Timestamp

/-!
# The program

Fetches the files that a command needs, does the command and writes back what it changed.
-/

set_option autoImplicit false

namespace CrossPlan.Program

/-- Adds what stands under a path on the disk. -/
def fetchPart (files : Files) (absolute : Bool) (parts : List String) : IO Files := do
  let key := FilePath.keyOf absolute parts
  let path := System.mkFilePath [key]
  if parts.isEmpty then return files
  if ← path.isDir then return ⟨files.entries.insert key .directory⟩
  if ← path.pathExists then
    return ⟨files.entries.insert key (.file (← IO.FS.readBinFile path))⟩
  return files

/-- Adds what stands under a path and the directories above it. -/
def fetch (files : Files) (text : String) : IO Files :=
  match FilePath.ofText? text with
  | none => return files
  | some path =>
    (Files.ancestors path ++ [path.parts]).foldlM (fun files parts =>
      fetchPart files path.absolute parts) files

def store (before after : Files) : IO Unit :=
  after.entries.rows.forM fun (key, entry) => do
    let path := System.mkFilePath [key]
    match entry, before.entries.get? key with
    | .directory, none => IO.FS.createDirAll path
    | .directory, some _ => pure ()
    | .file content, some (.file held) =>
      if content != held then IO.FS.writeBinFile path content
    | .file content, _ => IO.FS.writeBinFile path content

/-- A number for a run, by chance. -/
def drawRunId : IO String := do
  let digits ← (List.range 32).mapM fun _ => do
    return Json.hexDigit (← IO.rand 0 15)
  return RunId.hyphenated digits

/-- The milliseconds since the start of 1970. -/
def now : IO Nat := do
  return (← Std.Time.Timestamp.now).toMillisecondsSinceUnixEpoch.val.toNat

def environment (names : List String) : IO (String → Option String) := do
  let values ← names.filterMapM fun name => do
    return (← IO.getEnv name).map (name, ·)
  return fun name => values.lookup name

def perform (arguments : List String) : IO UInt32 := do
  let startedMs ← now
  let found : Surroundings :=
    { setting? := ← environment EngineConfig.settingNames, files := .empty
      runId := ← drawRunId, startedMs, finishedMs := startedMs }
  let files ← match Command.read arguments with
    | .error _ => pure found.files
    | .ok command => do
      let files ← command.firstFiles.foldlM fetch found.files
      (command.laterFiles { found with files }).foldlM fetch files
  let result := Command.performAll arguments { found with files, finishedMs := ← now }
  store files result.files
  result.output.forM IO.println
  result.errors.forM IO.eprintln
  return result.code.toUInt32

end CrossPlan.Program

def main (arguments : List String) : IO UInt32 := CrossPlan.Program.perform arguments
