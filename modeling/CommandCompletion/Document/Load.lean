import CommandCompletion.Document
import CommandCompletion.Files

/-!
# Loading documents

The name of a file says in which format its document is written: JSON if the name ends in
a dot and `json`, upper and lower case alike, and TOML otherwise.
-/

set_option autoImplicit false

namespace CommandCompletion.CommandDocument

/-- The format of the document in a file. -/
def formatOf (path : String) : DocumentFormat :=
  if (Path.extension path).any fun ending => ending.toList.map Char.toLower == "json".toList then
    .json
  else .toml

/-- Reads a document in a format. -/
def ofText (format : DocumentFormat) (text : String) : Except DecodingFault CommandDocument :=
  match format with
  | .json => ofJson text
  | .toml => ofToml text

variable {m : Type → Type} [Monad m] [FileStore m]

/-- Loads the document in a file. -/
def load (path : String) : ExceptT Failure m CommandDocument := do
  let text ← FileStore.readText path
  MonadExcept.ofExcept ((ofText (formatOf path) text).mapError (.document (formatOf path)))

end CommandCompletion.CommandDocument
