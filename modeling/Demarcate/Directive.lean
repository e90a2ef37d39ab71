import Demarcate.ErrorKind
import Demarcate.Json.Decode
import Demarcate.Json.Printer
/-!
# Directive — which errors roll a transaction back

A directive lists kinds of error that roll back and kinds that do not.  A kind in a list covers every kind within it;
the second list always wins, and an empty first list stands for every kind.
-/
namespace Demarcate

structure Directive where
  rollbackOn : List ErrorKind := []
  noRollbackOn : List ErrorKind := []
  deriving DecidableEq, Inhabited

namespace Directive

def addRollback (d : Directive) (k : ErrorKind) : Directive := { d with rollbackOn := d.rollbackOn ++ [k] }

def addNoRollback (d : Directive) (k : ErrorKind) : Directive := { d with noRollbackOn := d.noRollbackOn ++ [k] }

def shouldRollback (d : Directive) (k : ErrorKind) : Bool :=
  if d.noRollbackOn.any k.isWithin then false
  else if d.rollbackOn.isEmpty then true
  else d.rollbackOn.any k.isWithin

/-! ## As JSON -/

def kindsToJson (ks : List ErrorKind) : Json := .array (ks.map fun k => .string k.text)

def toJson (d : Directive) : Json :=
  .object [("rollback_on", kindsToJson d.rollbackOn), ("no_rollback_on", kindsToJson d.noRollbackOn)]

open Json.Document (Decoder FieldShape RecordShape)

def readKinds : Decoder (List ErrorKind) := Json.Document.list fun source d => do
  return ⟨← Json.Document.readString source d⟩

structure Parts where
  rollbackOn : Option (List ErrorKind) := none
  noRollbackOn : Option (List ErrorKind) := none

def shape : RecordShape Parts where
  title := "struct RollbackDirective"
  fields := [
    { name := "rollback_on", isSet := (·.rollbackOn.isSome), required := false,
      read := fun source d p => do return { p with rollbackOn := some (← readKinds source d) } },
    { name := "no_rollback_on", isSet := (·.noRollbackOn.isSome), required := false,
      read := fun source d p => do return { p with noRollbackOn := some (← readKinds source d) } }]

def decode : Decoder Directive := fun source d => do
  let p ← shape.decode {} source d
  return ⟨p.rollbackOn.getD [], p.noRollbackOn.getD []⟩

end Directive
end Demarcate
