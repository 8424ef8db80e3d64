import Rpm.Bytes.BigEndian

/-!
Arithmetic modulo a number.
-/

namespace Rpm.Crypto

def powMod (m base exponent : Nat) : Nat :=
  if exponent = 0 then 1 % m
  else
    let half := powMod m (base * base % m) (exponent / 2)
    if exponent % 2 = 1 then half * base % m else half
termination_by exponent
decreasing_by omega

def naturalBytes (n : Nat) : ByteArray := bigEndian ((n.log2 + 8) / 8) n

end Rpm.Crypto
