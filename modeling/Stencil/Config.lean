import Stencil.Text

set_option autoImplicit false

namespace Stencil

inductive NumberFormat where
  | plain
  | round
  | cents
  -- Reserved: no number can be written under it.
  | percent
deriving DecidableEq, Repr, Inhabited

namespace NumberFormat

def name : NumberFormat → String
  | .plain => "plain"
  | .round => "round"
  | .cents => "cents"
  | .percent => "percent"

def all : List NumberFormat := [.plain, .round, .cents, .percent]

def ofName? (text : String) : Option NumberFormat := all.find? fun format => format.name == text

def describe : NumberFormat → String
  | .plain => "Plain"
  | .round => "Round"
  | .cents => "Cents"
  | .percent => "Percent"

end NumberFormat

structure Config where
  globalDefault : String := ""
  separator : String := ","
  numberFormat : NumberFormat := .plain
deriving DecidableEq, Repr, Inhabited

namespace Config

def describe (config : Config) : String :=
  "TemplateConfig \x7b global_default: " ++ Text.quoted config.globalDefault
    ++ ", separator: " ++ Text.quoted config.separator
    ++ ", number_format: " ++ config.numberFormat.describe ++ " \x7d"

end Config

end Stencil
