import Cascade.Page.Config
import Cascade.Value
/-!
The settings a file states, before they become a page configuration: the groups that have a name of
their own, and all other keys, which are metadata in short form.
-/

namespace Cascade

/-- Why a settings file cannot be used. -/
inductive SettingsFault where
  | unreadable (cause : String)
  | wrongKind (field : String)
  | duplicate (field : String)
  | number
  | tooDeep
  | tooManyReferences
  | severalDocuments
  deriving DecidableEq, Repr

namespace SettingsFault

def message : SettingsFault → String
  | .unreadable cause => cause
  | .wrongKind field => field ++ ": invalid type"
  | .duplicate field => "duplicate field `" ++ field ++ "`"
  | .number => "number out of range"
  | .tooDeep => "recursion limit exceeded"
  | .tooManyReferences => "repetition limit exceeded"
  | .severalDocuments =>
    "deserializing from YAML containing more than one document is not supported"

end SettingsFault

structure Settings where
  opts : Table Bool := {}
  vars : Table String := {}
  metadata : Table String := {}
  styles : List Style := []
  scripts : List Script := []
  /-- The keys that name no group. -/
  extra : Table Value := {}

namespace Settings

/-- Metadata with a key in short form; the group of that name wins, and null and collections are no
metadata. -/
def addShort (metadata : Table String) (entry : String × Value) : Table String :=
  match entry.2.text? with
  | some text => metadata.insertNew entry.1 text
  | none => metadata

def toConfig (s : Settings) : PageConfig :=
  { opts := s.opts
    vars := s.vars
    metadata := s.extra.entries.foldl addShort s.metadata
    styles := s.styles
    scripts := s.scripts }

end Settings

end Cascade
