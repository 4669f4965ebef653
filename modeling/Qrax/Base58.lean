import Qrax.Failure

open Fallible

namespace Qrax

-- The digits of a number, the lowest first, of which `length` are in use.
structure DigitBuffer where
  digits : List ℕ
  length : ℕ := 0

namespace DigitBuffer

-- A `std::vector` whose size was computed as an `int`.
def alloc (size : ℤ) : Except Failure DigitBuffer := do
  let size := size.bmod (2 ^ 32)
  failIf (size < 0) (.logicError "cannot create std::vector larger than max_size()")
  .ok { digits := List.replicate size.toNat 0 }

-- The inner loop: the digits times `factor` plus `carry`, what is left of `carry`, and `i`.
def mulAdd (factor base : ℕ) : (length carry : ℕ) → List ℕ → List ℕ × ℕ × ℕ
  | _, carry, [] => ([], carry, 0)
  | length, carry, d :: digits =>
    if carry ≠ 0 ∨ 0 < length then
      let (digits, left, i) := mulAdd factor base (length - 1) ((carry + factor * d) / base) digits
      ((carry + factor * d) % base :: digits, left, i + 1)
    else (d :: digits, carry, 0)

def apply (factor base : ℕ) (b : DigitBuffer) (carry : ℕ) : Except Failure DigitBuffer :=
  let (digits, left, length) := mulAdd factor base b.length carry b.digits
  if left ≠ 0 then .error (.assertion "carry == 0") else .ok { digits, length }

def significant (b : DigitBuffer) : List ℕ :=
  (b.digits.take b.length).reverse.dropWhile (· = 0)

end DigitBuffer

def pszBase58 : List Char :=
  "123456789ABCDEFGHJKLMNPQRSTUVWXYZabcdefghijkmnopqrstuvwxyz".toList

def base58Char (d : ℕ) : Char :=
  pszBase58.getD d ' '

def isSpace (c : Char) : Bool :=
  c = ' ' || '\t' ≤ c && c ≤ '\r'

def encodeBase58 (vch : Bytes) : Except Failure (List Char) := do
  let zeroes := (vch.takeWhile (· = 0)).length
  failIf (2 ^ 31 ≤ zeroes) .overflow
  let vch := vch.dropWhile (· = 0)
  let b58 ← (vch.map UInt8.toNat).foldlM (DigitBuffer.apply 256 58) (← DigitBuffer.alloc (vch.length * 138 / 100 + 1))
  .ok (List.replicate zeroes '1' ++ b58.significant.map base58Char)

def decodeChars : DigitBuffer → List Char → Except Failure (Option DigitBuffer)
  | b256, [] => .ok (some b256)
  | b256, c :: psz =>
    match pszBase58.idxOf? c with
    | none => .ok none
    | some carry => do decodeChars (← b256.apply 58 256 carry) psz

-- Nothing stands for `false`.
def decodeBase58 (psz : List Char) : Except Failure (Option Bytes) := do
  let psz := psz.dropWhile isSpace
  let zeroes := (psz.takeWhile (· = '1')).length
  failIf (2 ^ 31 ≤ zeroes) .overflow
  let psz := psz.dropWhile (· = '1')
  let b256 ← decodeChars (← DigitBuffer.alloc (psz.length * 733 / 1000 + 1)) (psz.takeWhile (!isSpace ·))
  if (psz.dropWhile (!isSpace ·)).dropWhile isSpace ≠ [] then .ok none
  else .ok (b256.map fun b256 => List.replicate zeroes 0 ++ b256.significant.map UInt8.ofNat)

end Qrax
