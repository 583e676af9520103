import BotConsole.Disk
import BotConsole.Settings.Text

namespace BotConsole

structure Project where
  folder : Place
  settings : Settings
  deriving DecidableEq

namespace Project

inductive Failure where
  | noFolder
  | unreadable (file : String)
  | malformed
  | unwritable (file : String)
  deriving DecidableEq

namespace Failure

def message : Failure → String
  | .noFolder => "Failed to resolve project directory"
  | .unreadable file => "Failed to read config file: " ++ file
  | .malformed => "Failed to parse botdeck.toml"
  | .unwritable file => "Failed to write config file: " ++ file

end Failure

def configFolderOf (folder : Place) : Place :=
  folder.child ".botdeck"

def settingsFileOf (folder : Place) : Place :=
  (configFolderOf folder).child "botdeck.toml"

def configFolder (p : Project) : Place :=
  configFolderOf p.folder

def settingsFile (p : Project) : Place :=
  settingsFileOf p.folder

def preferenceFile (p : Project) : Place :=
  p.configFolder.child "prefs.toml"

def logFolder (p : Project) : Place :=
  p.configFolder.child "logs"

-- The settings of a project. Where there is no file the defaults are in force.
def loadSettings (disk : Disk) (folder : Place) : Except Failure Settings :=
  let file := settingsFileOf folder
  match disk.find? file with
  | none => .ok {}
  | some .folder => .error (.unreadable file.toText)
  | some (.file content) =>
    match Settings.ofText? content with
    | some settings => .ok settings
    | none => .error .malformed

def load (disk : Disk) (start : Place) (path : String) : Except Failure Project :=
  match disk.existing? start path with
  | none => .error .noFolder
  | some folder => do
    let settings ← loadSettings disk folder
    .ok ⟨folder, settings⟩

def save (disk : Disk) (start : Place) (path : String) (settings : Settings) :
    Except Failure Disk :=
  match (disk.resolve? start path).bind fun p => disk.write? p settings.toText with
  | some disk => .ok disk
  | none => .error (.unwritable path)

end Project

end BotConsole
