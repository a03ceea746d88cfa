import CrossPlan.Execution.Run

/-!
# Keeping lineages

A finished lineage is kept in a file of a directory, which is named for the run.
-/

set_option autoImplicit false

namespace CrossPlan.LineageReport

def pathIn (report : LineageReport Float) (directory : String) : String :=
  Files.join directory ("lineage-" ++ report.runId ++ ".json")

def persist (report : LineageReport Float) (directory : String) (files : Files) :
    Except RunError Files :=
  let path := report.pathIn directory
  let written := do
    let files ← files.createDirectories directory
    files.write path report.text.toUTF8
  written.mapError (.persist path)

def load (files : Files) (path : String) : Except RunError (LineageReport Float) :=
  match files.read path with
  | .error fault => .error (.persist path fault)
  | .ok content =>
    match (String.fromUTF8? content).bind LineageReport.read? with
    | some report => .ok report
    | none => .error .encode

end CrossPlan.LineageReport
