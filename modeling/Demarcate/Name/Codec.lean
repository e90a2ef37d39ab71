import Demarcate.Json.Decode
import Demarcate.Name
/-!
# Names as JSON

A name is written as a JSON string.  A table's name and a row's key are read from any string, whether or not `parse` takes
it; a data source's name is read where `parse` does (`Definition.readBackend`).
-/
namespace Demarcate

def TableName.decode : Json.Document.Decoder TableName := fun source d => do
  return ⟨← Json.Document.readString source d⟩

def RowKey.decode : Json.Document.Decoder RowKey := fun source d => do
  return ⟨← Json.Document.readString source d⟩

end Demarcate
