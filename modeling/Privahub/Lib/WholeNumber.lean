import Privahub.Lib.Float64
import Privahub.Lib.Json
import Privahub.Lib.JsValue

/-!
# Whole numbers of JavaScript

The integers that are numbers of JavaScript, and `NaN`, as far as texts of digits are read and numbers below `10 ^ 21` are written.
-/

abbrev WholeNumber := Option Int

namespace WholeNumber

def round (n : Int) : Int := if n < 0 then -(Float64.nearest n.natAbs) else Float64.nearest n.natAbs

def compare (p : Int → Int → Bool) (a b : WholeNumber) : Bool := (a.bind fun a => b.map fun b => p a b).getD false

instance : JsNumber WholeNumber where
  nan := none
  isNaN n := n.isNone
  isInteger n := n.isSome
  isZero n := n == some 0
  lt := compare fun a b => decide (a < b)
  le := compare fun a b => decide (a ≤ b)
  same a b := a == b
  ofNat n := some (round n)
  ofString s := if s = [] then some 0 else (Json.parseInt s).map round
  text n := n.elim (str "NaN") fun n => Bytes.itoa (Float64.viaFloat n)

end WholeNumber
