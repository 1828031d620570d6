import Ferrowl.FloatBits
/-!
# LuaValue — the values scripts and modules exchange

`ferrowl-lua`'s `ValueType`; a float is its bit pattern.
-/
namespace Ferrowl

namespace Lua

inductive ValueType where
  | int (i : Int)
  | float (bits : BitVec 64)
  | string (s : String)
  | bool (b : Bool)
  | nil
  deriving DecidableEq, Repr

def ValueType.num : ValueType → Option (BitVec 64)
  | int i => some (i128AsF64 i)
  | float bits => some bits
  | _ => none

end Lua

end Ferrowl
