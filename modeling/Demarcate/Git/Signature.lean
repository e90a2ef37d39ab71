import Demarcate.Json.Decode
import Demarcate.Json.Printer
/-!
# Signature — who commits

A commit names its author by a name and an address, which stand on one line of it: `name <address>`.  So neither may
hold an angle bracket or a NUL, the blanks and marks around them are left out, and neither may be empty then
(`Signature.stamp?`).  A signature is checked when it is used and not before.
-/
namespace Demarcate.Git

structure Signature where
  name : String
  email : String
  deriving DecidableEq

namespace Signature

/-- The signature of a store that is given none. -/
def default : Signature := ⟨"txscope", "txscope@localhost"⟩

instance : Inhabited Signature := ⟨default⟩

/-- The marks that are left out at both ends. -/
def marks : List Char := [',', ':', ';', '<', '>', '"', '\\', '\x27']

def isFringe (c : Char) : Bool := c.toNat ≤ 32 || marks.contains c

/-- The part as a commit shows it; `none` where it cannot stand there. -/
def shown? (s : String) : Option String :=
  if s.toList.any fun c => c = '<' || c = '>' || c = '\x00' then none
  else
    let cs := ((s.toList.dropWhile isFringe).reverse.dropWhile isFringe).reverse
    if cs.isEmpty then none else some (String.ofList cs)

/-- The signature as a commit shows it; `none` where no commit can be made under it. -/
def stamp? (s : Signature) : Option Signature := do
  return ⟨← shown? s.name, ← shown? s.email⟩

/-! ## As JSON -/

def toJson (s : Signature) : Json := .object [("name", .string s.name), ("email", .string s.email)]

open Json.Document (Decoder FieldShape RecordShape)

structure Parts where
  name : Option String := none
  email : Option String := none

def shape : RecordShape Parts where
  title := "struct GitSignature"
  fields := [
    { name := "name", isSet := (·.name.isSome), required := true,
      read := fun source d p => do return { p with name := some (← Json.Document.readString source d) } },
    { name := "email", isSet := (·.email.isSome), required := true,
      read := fun source d p => do return { p with email := some (← Json.Document.readString source d) } }]

def decode : Decoder Signature := fun source d => do
  let p ← shape.decode {} source d
  return ⟨p.name.getD "", p.email.getD ""⟩

end Signature
end Demarcate.Git
