import Seeing.Toml.Reader
import Seeing.Toml.Writer

/-!
# The TOML library

Documents are written and read by a library. `Library` is what is asked of it, and whoever reads or
writes a document takes any library. The one to run with is `standardLibrary`.
-/

namespace Seeing.Toml

/-- A library that writes and reads documents. -/
class Library where
  /-- The text of the document of a record, unless there is none. -/
  write? : Fields → Option String
  /-- The entries of the document of a text, if it is one. -/
  read? : String → Option Entries

/-- The writer and the reader of this development. -/
instance standardLibrary : Library where
  write? fields := if fields.Fits then some (.ofList fields.text) else none
  read? text := Toml.read? text.toList

end Seeing.Toml
