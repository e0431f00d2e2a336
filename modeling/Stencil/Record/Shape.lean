import Stencil.Record.Declaration
import Stencil.Record.Typed

set_option autoImplicit false

namespace Stencil

inductive Instance where
  | node (data : List (String × Datum)) (parts : List (String × Instance))

namespace Instance

instance : Inhabited Instance := ⟨.node [] []⟩

def datum (name : String) : Instance → Datum
  | .node data _ => (data.lookup name).getD .absent

def part (name : String) : Instance → Instance
  | .node _ parts => (parts.lookup name).getD (.node [] [])

end Instance

inductive Shape where
  | declared (declaration : Declaration) (parts : List (String × Shape))

namespace Shape

def fieldsOfReading (parts : List (String × List (Field Instance))) :
    Declaration.Reading → List (Field Instance)
  | .leaf key name _ => [Field.ofDatum key (Instance.datum name)]
  | .embedded name _ =>
    ((parts.lookup name).getD []).map fun field => field.project (Instance.part name)

mutual

def fields : Shape → Except DerivationError (List (Field Instance))
  | .declared declaration parts => do
    let readings ← declaration.readings
    let known ← partFields parts
    return readings.flatMap (fieldsOfReading known)

def partFields : List (String × Shape) →
    Except DerivationError (List (String × List (Field Instance)))
  | [] => .ok []
  | (name, shape) :: rest => do
    let first ← fields shape
    let others ← partFields rest
    return (name, first) :: others

end

def typeName : Shape → String
  | .declared declaration _ => declaration.name

def record (shape : Shape) : Except DerivationError (Record Instance) :=
  shape.fields.map fun fields => ⟨shape.typeName, fields⟩

end Shape

end Stencil
