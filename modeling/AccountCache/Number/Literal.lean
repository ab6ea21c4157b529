import AccountCache.Bytes

namespace AccountCache.Number

-- A written number, `(-1) ^ negative * digits * 10 ^ exponent`.
structure Literal where
  negative : Bool
  digits : Nat
  exponent : Int
  -- Neither point nor exponent was written.
  integral : Bool
  deriving DecidableEq

namespace Literal

def isBlank (b : UInt8) : Bool := b = 32 || (9 ≤ b && b ≤ 13)

def isDigit (b : UInt8) : Bool := 48 ≤ b && b ≤ 57

def value (digits : Bytes) : Nat := digits.foldl (fun n b => n * 10 + (b.toNat - 48)) 0

-- An optional sign, and the rest.
def sign : Bytes → Bool × Bytes
  | 45 :: rest => (true, rest)
  | 43 :: rest => (false, rest)
  | bs => (false, bs)

-- The digits after the point, if there is one.
def fraction : Bytes → Option Bytes × Bytes
  | 46 :: rest => (some (rest.takeWhile isDigit), rest.dropWhile isDigit)
  | bs => (none, bs)

-- The exponent, if one is begun; begun and without digits, there is no number.
def exponent? : Bytes → Option (Option Int × Bytes)
  | b :: rest =>
    if b = 101 ∨ b = 69 then
      let (negative, rest) := sign rest
      let digits := rest.takeWhile isDigit
      if digits.isEmpty then none
      else
        let n : Int := value digits
        some (some (if negative then -n else n), rest.dropWhile isDigit)
    else some (none, b :: rest)
  | [] => some (none, [])

def ofBytes? (bs : Bytes) : Option Literal := do
  let (negative, bs) := sign (bs.dropWhile isBlank)
  let whole := bs.takeWhile isDigit
  let (part, bs) := fraction (bs.dropWhile isDigit)
  if (whole ++ part.getD []).isEmpty then none
  let (power, bs) ← exponent? bs
  if !(bs.dropWhile isBlank).isEmpty then none
  return {
    negative
    digits := value (whole ++ part.getD [])
    exponent := power.getD 0 - (part.getD []).length
    integral := part.isNone && power.isNone }

-- The nearest binary floating point number, by its bits.
def bits (n : Literal) : UInt64 :=
  let abs :=
    match n.exponent with
    | .ofNat e => Float.ofScientific n.digits false e
    | .negSucc e => Float.ofScientific n.digits true (e + 1)
  (if n.negative then -abs else abs).toBits

def signed (n : Literal) : Int := if n.negative then -n.digits else n.digits

end Literal
end AccountCache.Number
