namespace AccountCache.Binary64

-- A sign and the number `mantissa * 2 ^ exponent`.
structure Parts where
  negative : Bool
  mantissa : Nat
  exponent : Int
  deriving DecidableEq

inductive Form
  | finite (parts : Parts)
  | infinite (negative : Bool)
  | notANumber
  deriving DecidableEq

def form (bits : UInt64) : Form :=
  let n := bits.toNat
  let negative := decide (0x8000000000000000 ≤ n)
  let exponent : Nat := n / 0x10000000000000 % 0x800
  let fraction := n % 0x10000000000000
  if exponent = 2047 then if fraction = 0 then .infinite negative else .notANumber
  else if exponent = 0 then .finite ⟨negative, fraction, -1074⟩
  else .finite ⟨negative, fraction + 0x10000000000000, (exponent : Int) - 1075⟩

def Parts.signed (p : Parts) (n : Nat) : Int := if p.negative then -n else n

-- The integer that the bits stand for exactly.
def toInt? (bits : UInt64) : Option Int :=
  match form bits with
  | .finite p =>
    match p.exponent with
    | .ofNat e => some (p.signed (p.mantissa * Nat.pow 2 e))
    | .negSucc e =>
      let unit := Nat.pow 2 (e + 1)
      if p.mantissa % unit = 0 then some (p.signed (p.mantissa / unit)) else none
  | _ => none

-- Numerator and denominator of the absolute value.
def Parts.ratio (p : Parts) : Nat × Nat :=
  match p.exponent with
  | .ofNat e => (p.mantissa * Nat.pow 2 e, 1)
  | .negSucc e => (p.mantissa, Nat.pow 2 (e + 1))

def decimalDigits (n : Nat) : List Char := Nat.toDigits 10 n

-- The power of ten at or below a positive ratio.
def magnitude (num den : Nat) : Int :=
  if den ≤ num then ((decimalDigits (num / den)).length : Int) - 1
  else -(((List.range 400).find? fun k => den ≤ num * Nat.pow 10 k).getD 0 : Nat)

def significantDigits : Nat := 15

-- The nearest decimal with fifteen digits, a half going up: its digits and the power of ten of
-- the first one.
def roundedDigits (num den : Nat) : List Char × Int :=
  let d := magnitude num den
  let shift := (significantDigits : Int) - 1 - d
  let (n, m) :=
    if 0 ≤ shift then (num * Nat.pow 10 shift.toNat, den)
    else (num, den * Nat.pow 10 (-shift).toNat)
  let rounded := (2 * n + m) / (2 * m)
  if rounded = Nat.pow 10 significantDigits then
    (decimalDigits (Nat.pow 10 (significantDigits - 1)), d + 1)
  else (decimalDigits rounded, d)

-- A fraction without zeros at its end, of one digit at least.
def trimmed (digits : List Char) : List Char :=
  match (digits.reverse.dropWhile (· = '0')).reverse with
  | [] => ['0']
  | ds => ds

def exponentText (d : Int) : List Char :=
  let ds := decimalDigits d.natAbs
  'e' :: (if d < 0 then '-' else '+') :: (if ds.length < 2 then '0' :: ds else ds)

-- Positional notation from `0.0001` to below `10 ^ 15`, scientific outside.
def Parts.text (p : Parts) : List Char :=
  if p.mantissa = 0 then "0.0".toList
  else
    let (num, den) := p.ratio
    let (digits, d) := roundedDigits num den
    let body :=
      if d < -4 ∨ 14 < d then digits.take 1 ++ '.' :: trimmed (digits.drop 1) ++ exponentText d
      else if d < 0 then '0' :: '.' :: trimmed (List.replicate (-d - 1).toNat '0' ++ digits)
      else digits.take (d.toNat + 1) ++ '.' :: trimmed (digits.drop (d.toNat + 1))
    if p.negative then '-' :: body else body

def text (bits : UInt64) : String :=
  match form bits with
  | .finite p => String.ofList p.text
  | .infinite negative => if negative then "-Inf" else "Inf"
  | .notANumber => ""

end AccountCache.Binary64
