import Demarcate.Directive
import Demarcate.Name
import Demarcate.Propagation
/-!
# Definition — what a call declares

A definition names the operation it belongs to, for messages alone, and gives the call's mode, its directive and its
data source.  As JSON it is a record whose operation is required; the rest defaults to a required transaction on the
default data source that every error rolls back.
-/
namespace Demarcate

structure Definition where
  operation : String
  mode : Mode := Mode.default
  directive : Directive := {}
  backend : BackendName := BackendName.default
  deriving DecidableEq, Inhabited

namespace Definition

def toJson (d : Definition) : Json :=
  .object [("operation", .string d.operation), ("mode", .string d.mode.name), ("directive", d.directive.toJson),
    ("backend", .string d.backend.text)]

open Json.Document (Decoder FieldShape RecordShape)

def readMode : Decoder Mode := Json.Document.parsed Mode.parse id

def readBackend : Decoder BackendName := Json.Document.parsed BackendName.parse NameError.message

structure Parts where
  operation : Option String := none
  mode : Option Mode := none
  directive : Option Directive := none
  backend : Option BackendName := none

def shape : RecordShape Parts where
  title := "struct TransactionDefinition"
  fields := [
    { name := "operation", isSet := (·.operation.isSome), required := true,
      read := fun source d p => do return { p with operation := some (← Json.Document.readString source d) } },
    { name := "mode", isSet := (·.mode.isSome), required := false,
      read := fun source d p => do return { p with mode := some (← readMode source d) } },
    { name := "directive", isSet := (·.directive.isSome), required := false,
      read := fun source d p => do return { p with directive := some (← Directive.decode source d) } },
    { name := "backend", isSet := (·.backend.isSome), required := false,
      read := fun source d p => do return { p with backend := some (← readBackend source d) } }]

def decode : Decoder Definition := fun source d => do
  let p ← shape.decode {} source d
  return {
    operation := p.operation.getD ""
    mode := p.mode.getD Mode.default
    directive := p.directive.getD {}
    backend := p.backend.getD BackendName.default }

end Definition
end Demarcate
