import Formwork.Document
import Formwork.Json.Printer
import Formwork.Json.Reader
import Formwork.Path

/-!
# Paths in documents

A path is written as its dotted text (`Path.toJson`). Any text is read as a path, and nothing but
texts is (`Path.ofDocument?`), so a document may hold spellings that no path is written in, such as
`a..b` or `a. b`. `Path.print` and `Path.read?` are the same for JSON.
-/

set_option autoImplicit false

namespace Formwork.Path

/-- The value that a path is written as. -/
def toJson (path : Path) : Json := .text path.text

/-- The path that a document stands for. -/
def ofDocument? (document : Document) : Option Path := document.text?.map parse

/-- The JSON of a path. -/
def print (path : Path) : String := path.toJson.print

/-- The path that some JSON stands for. -/
def read? (text : String) : Option Path := (Json.parse? text).bind fun value => ofDocument? (.ofJson value)

end Formwork.Path
