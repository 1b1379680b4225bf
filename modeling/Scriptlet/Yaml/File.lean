import Scriptlet.Files.Tree
import Scriptlet.Yaml.Decode

/-!
# Records in files

Reading a file as a record. A file that cannot be opened, one that cannot be read and one that holds
something else fail in different ways.

## Main definitions

* `Yaml.LoadError`: why a file is not the record asked for
* `Yaml.load`: the record in a file
-/

namespace Scriptlet.Yaml

/-- Why a file is not the record asked for. -/
inductive LoadError where
  /-- The file cannot be opened. -/
  | missing (error : FileError)
  /-- The file was opened, but it cannot be read. -/
  | unreadable (error : FileError)
  | content (error : DecodeError)

def LoadError.message : LoadError → String
  | missing e => e.message
  | unreadable e => "yaml: input error: " ++ e.message
  | content e => e.message

/-- The record in the file at a path, which `read` finds in its bytes. -/
def load {σ : Type} (read : ByteArray → Except DecodeError σ) (files : FileTree) (path : String) :
    Except LoadError σ :=
  match files.read "/" path with
  | .ok bytes => (read bytes).mapError .content
  | .error e => .error (if e.operation = "read" then .unreadable e else .missing e)

end Scriptlet.Yaml
