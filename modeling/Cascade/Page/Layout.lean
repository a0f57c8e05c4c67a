import Cascade.FileTree.Basic
import Cascade.Page.Settings.Json
import Cascade.Page.Settings.Yaml
import Cascade.Site.Error
import Cascade.Text.Blank
/-!
The layout file of a directory, and the front matter of its content files.
-/

namespace Cascade.PageConfig

/-- The names a layout file can have; the first that is there counts. -/
def layoutFiles : List String := ["layout.yml", "layout.yaml", "layout.json"]

/-- The settings in front matter or in a YAML layout; a blank text states none. -/
def ofYaml (text : List Char) : Except SettingsFault PageConfig :=
  if text.all isWhiteSpace then .ok {} else (Settings.ofYaml text).map (·.toConfig)

def ofJson (text : List Char) : Except SettingsFault PageConfig :=
  (Settings.ofJson text).map (·.toConfig)

/-- The content of a layout file, by the format its name tells. -/
def ofLayoutFile (path : String) (content : Bytes) : Except SettingsFault PageConfig :=
  match Utf8.text? content with
  | none => .error (.unreadable "stream did not contain valid UTF-8")
  | some text => if Path.extension? path = some "json" then ofJson text else ofYaml text

/-- Reads the layout file of a directory, if it has one. -/
def loadLayout (t : FileTree) (dir : String) : Except BuildError (Option PageConfig) :=
  match (layoutFiles.map (Path.join dir)).find? t.isFile with
  | none => .ok none
  | some path =>
    match t.read path with
    | .error e => .error (.layout path e.message)
    | .ok content =>
      match ofLayoutFile path content with
      | .ok c => .ok (some c)
      | .error fault => .error (.layout path fault.message)

end Cascade.PageConfig
