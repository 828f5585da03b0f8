import Phrasebook.Toml.Value
import Phrasebook.Toml.Reader
/-!
# Numbers of TOML

Integers are of 64 bits, in base 10 or, without a sign, in base 16, 8 or 2. Floats are decimal; a
positive one that no finite number of double precision is near is refused.

## Main definitions

* `Toml.spelled`: the number that digits spell.
* `Toml.roundsToInfinity`: the decimal number is too large for double precision.
* `Toml.Reader.number`: an integer or a float.
-/

namespace Phrasebook

namespace Toml

/-- The number that digits spell in a base. From `limit` on it no longer grows, so that a number of
any length is told from the smaller ones at once. -/
def spelled (limit base : Nat) (digits : List Nat) : Nat :=
  digits.foldl (fun number digit => if limit ≤ number then number else number * base + digit) 0

/-- The least number that rounding to double precision takes to infinity: halfway between the
largest finite number and the power of two above it. -/
def overflowThreshold : Nat :=
  Nat.pow 2 1024 - Nat.pow 2 970

/-- The decimal digits of the threshold. -/
def thresholdDigits : List Nat :=
  (Nat.toDigits 10 overflowThreshold).map fun c => c.toNat - '0'.toNat

/-- The number that the digits spell, times ten to the exponent, rounds to infinity. If it has as
many places before its point as the threshold, the two are compared digit by digit. -/
def roundsToInfinity (digits : List Nat) (exponent : Int) : Bool :=
  match digits.dropWhile (· = 0) with
  | [] => false
  | digits =>
    let places : Int := digits.length + exponent
    let threshold := thresholdDigits
    if places = threshold.length then
      !(digits ++ List.replicate threshold.length 0).lex threshold fun a b => decide (a < b)
    else threshold.length < places

namespace Reader

/-- A digit of a run. An underscore may stand between two digits. -/
def runItem (digit? : Char → Option Nat) : Reader (Nat × Bool) := do
  match digit? (← next) with
  | none => failure
  | some digit =>
    match (← get) with
    | '_' :: _ => do word ['_']; return (digit, true)
    | c :: _ => return (digit, (digit? c).isSome)
    | [] => return (digit, false)

/-- The digits of a run. -/
def run (digit? : Char → Option Nat) : Reader (List Nat) :=
  chain (runItem digit?)

/-- The digits before the point: a zero alone, or a run that does not begin with one. -/
def whole : Reader (List Nat) := do
  if (← peek?) = some '0' then
    let _ ← next
    return [0]
  else
    run (digitOf? 10)

/-- A sign, which may be missing: whether it makes the number negative. -/
def sign : Reader Bool := do
  match ← peek? with
  | some '+' => let _ ← next; return false
  | some '-' => let _ ← next; return true
  | _ => return false

/-- The exponent of a float, or one of at least the size `limit` if it has that size. -/
def exponent (limit : Nat) : Reader Int := do
  let _ ← nextIf fun c => c = 'e' || c = 'E'
  let negative ← sign
  let size : Int := spelled limit 10 (← run (digitOf? 10))
  return if negative then -size else size

/-- The digits after the point of a float. -/
def decimals : Reader (List Nat) := do
  word ['.']
  run (digitOf? 10)

/-- An exponent of this size moves the point far enough to settle whether a float rounds to
infinity, whatever its digits are. -/
def settlingExponent (digits : Nat) : Nat :=
  digits + thresholdDigits.length

/-- A float with digits. It has decimals, an exponent, or both. -/
def finite : Reader Unit := do
  let negative ← sign
  let before ← whole
  let after ← optional decimals
  let digits := before ++ after.getD []
  let exponent := exponent (settlingExponent digits.length)
  let scale ← if after.isSome then optional exponent else some <$> exponent
  guard (negative ||
    !roundsToInfinity digits (scale.getD 0 - (after.getD []).length))

/-- A float that is no number or none that is finite. -/
def special : Reader Unit := do
  let _ ← sign
  word "inf".toList <|> word "nan".toList

/-- Integers are below this number, and from its negative on. -/
def integerBound : Nat :=
  Nat.pow 2 63

/-- The least number that is too large for the digits of an integer, whatever its sign. -/
def tooLarge : Nat :=
  integerBound + 1

/-- A number in base 16, 8 or 2. -/
def based : Reader Nat := do
  word ['0']
  match ← next with
  | 'x' => return spelled tooLarge 16 (← run (digitOf? 16))
  | 'o' => return spelled tooLarge 8 (← run (digitOf? 8))
  | 'b' => return spelled tooLarge 2 (← run (digitOf? 2))
  | _ => failure

/-- A decimal integer. -/
def signed : Reader Int := do
  let negative ← sign
  let size : Int := spelled tooLarge 10 (← whole)
  return if negative then -size else size

/-- An integer of 64 bits. -/
def integer : Reader Int := do
  let number ← (Int.ofNat <$> based) <|> signed
  guard (-Int.ofNat integerBound ≤ number ∧ number < Int.ofNat integerBound)
  return number

/-- An integer or a float. -/
def number : Reader Value :=
  (do finite <|> special; return .float) <|> (.integer <$> integer)

end Reader

end Toml

end Phrasebook
