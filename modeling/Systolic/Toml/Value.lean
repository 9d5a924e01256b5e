import Systolic.Number.Double
import Systolic.Toml.Moment

/-!
# Values of the TOML format
-/

namespace Systolic.Toml

inductive Value
  | text (s : String)
  | integer (n : Int)
  | float (x : Double)
  | boolean (b : Bool)
  | moment (m : Moment)
  | array (items : List Value)
  | table (entries : List (String × Value))

end Systolic.Toml
