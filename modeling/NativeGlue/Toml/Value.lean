/-!
# Values of settings

What a settings document holds. The type also has a place for the absence of
a value, which some notations can write.
-/

namespace NativeGlue
namespace Toml

/-- A value in a settings document. -/
inductive Value where
  | null
  | boolean (value : Bool)
  | integer (value : Int)
  /-- A number with a fraction or exponent, as it is written. -/
  | float (text : String)
  /-- A date, a time or both, as it is written. -/
  | moment (text : String)
  | string (text : String)
  | array (items : List Value)
  | table (entries : List (String × Value))
deriving Inhabited

end Toml
end NativeGlue
