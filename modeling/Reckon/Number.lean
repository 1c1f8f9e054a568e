set_option autoImplicit false

/-!
# Numbers

Numbers are 64-bit floats, built here from the exact values they are nearest to.
-/

namespace Reckon

open Float.Model

def notANumber : Float := .ofModel (.pack .notANumber)

def numberOfInt (n : Int) : Float := .ofModel (.ofInt n)

def signed : UnpackedFloat.Sign → List Char → List Char
  | .negative, text => '-' :: text
  | .positive, text => text

end Reckon
