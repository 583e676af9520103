import BotConsole.Console.Run

namespace BotConsole.Program

open Console

def entryAt (path : String) : IO (Option DiskEntry) :=
  try return some (.file (← IO.FS.readFile path))
  catch _ =>
    try
      let _ ← IO.FS.realPath (path ++ "/.")
      return some .folder
    catch _ => return none

def survey (disk : Disk) (p : Place) : IO Disk :=
  p.ancestry.foldlM (fun disk p => do
    if !disk.isVacant p then return disk
    match ← entryAt p.toText with
    | some e => return disk.put p e
    | none => return disk) disk

def follow (disk : Disk) (folder : Place) (path : String) : IO (Disk × Place) :=
  let start := if path.startsWith "/" then [] else folder
  (path.splitOn "/").foldlM (fun (disk, p) name => do
    let disk ← survey disk p
    let next := (disk.step? p name).getD p
    return (← survey disk next, next)) (disk, start)

def inputs : Command → List String
  | .showDefaults schema | .listVisible schema _ | .listControls schema _ | .checkSchema schema =>
    [schema]
  | .validateValues schema values => [schema, values]
  | _ => []

def files (folder : Place) (i : Invocation) : IO Disk := do
  let disk ← survey [] folder
  let (disk, place) ← follow disk folder (i.projectFolder.getD folder.toText)
  let p : Project := ⟨place, {}⟩
  let disk ← [p.settingsFile, p.preferenceFile, p.logFolder].foldlM survey disk
  (inputs i.command).foldlM (fun disk path => do return (← follow disk folder path).1) disk

def keepChanges (before after : Disk) : IO Unit :=
  after.reverse.forM fun (p, e) => do
    if before.find? p != some e then
      match e with
      | .folder => IO.FS.createDirAll p.toText
      | .file content => IO.FS.writeFile p.toText content

def environment : IO Environment := do
  let pairs ← Settings.Layers.variableNames.mapM fun name => do return (name, ← IO.getEnv name)
  return fun name => (pairs.lookup name).join

-- What the program finds around it. It has no network, so every request is refused.
def machine (arguments : List String) : IO Machine := do
  let folder : Place := ((toString (← IO.currentDir)).splitOn "/").filter (· != "")
  let disk ← match Invocation.ofArguments arguments with
    | .ok i => files folder i
    | .error _ => pure []
  return { environment := ← environment, disk, folder, server := fun _ => .refused, patience := 1 }

end BotConsole.Program

open BotConsole BotConsole.Console in
def main (arguments : List String) : IO UInt32 := do
  let before ← Program.machine arguments
  let (report, after) := before.run arguments
  Program.keepChanges before.disk after.disk
  IO.print report.output
  report.notices.forM fun line => IO.eprintln line
  match report.ending with
  | .done => pure ()
  | .failed message => IO.eprintln ("Error: " ++ message)
  | .misused => IO.eprint (Report.unlines Machine.usage)
  return UInt32.ofNat report.ending.exitCode
