import Qrax.Validation.Pow

namespace Qrax

-- `base_uint`: the limbs `pn`, the lowest first.
abbrev BaseUint := List (BitVec 32)

namespace BaseUint

-- The inner loops of the two `operator*=`, with `a` for the factor and `pn` for what the limbs hold.
def addMul (a : BitVec 32) : (carry : BitVec 64) → (b pn : BaseUint) → BaseUint
  | carry, b :: bs, d :: pn =>
    let n := carry + d.setWidth 64 + a.setWidth 64 * b.setWidth 64
    n.setWidth 32 :: addMul a (n >>> 32) bs pn
  | _, _, pn => pn

def mul32 (pn : BaseUint) (b32 : BitVec 32) : BaseUint :=
  addMul b32 0 pn (List.replicate pn.length 0)

-- The round `j` of the outer loop leaves the limbs below `j` alone.
def mulRows (b : BaseUint) : (a pn : BaseUint) → BaseUint
  | a :: as, pn =>
    match addMul a 0 b pn with
    | [] => []
    | d :: pn => d :: mulRows b as pn
  | [], pn => pn

def mul (a b : BaseUint) : BaseUint :=
  mulRows b a (List.replicate a.length 0)

end BaseUint

namespace Uint256

def divRounds : (rounds : ℕ) → (num div quotient : Uint256) → Uint256
  | 0, _, _, quotient => quotient
  | shift + 1, num, div, quotient =>
    if num ≥ div then divRounds shift (num - div) (div >>> 1) (quotient ||| 1#256 <<< shift)
    else divRounds shift num (div >>> 1) quotient

-- `operator/=`, on whole words.
def divide (num div : Uint256) : Except Failure Uint256 :=
  if div.bits = 0 then .error (.runtimeError "Division by zero")
  else if div.bits > num.bits then .ok 0
  else .ok (divRounds (num.bits - div.bits + 1) num (div <<< (num.bits - div.bits)) 0)

end Uint256

end Qrax
