import AccountCache.Bytes

namespace AccountCache.Text.Base64Url

def symbol (n : Nat) : UInt8 :=
  if n < 26 then (65 + n).toUInt8
  else if n < 52 then (71 + n).toUInt8
  else if n < 62 then (n - 4).toUInt8
  else if n = 62 then 45
  else 95

def value? (b : UInt8) : Option Nat :=
  if 65 ≤ b ∧ b ≤ 90 then some (b.toNat - 65)
  else if 97 ≤ b ∧ b ≤ 122 then some (b.toNat - 71)
  else if 48 ≤ b ∧ b ≤ 57 then some (b.toNat + 4)
  else if b = 45 then some 62
  else if b = 95 then some 63
  else none

-- The sign that pads a text to full quads elsewhere; here it is always refused.
def padding : UInt8 := 61

inductive Fault
  | symbol (byte : UInt8) (offset : Nat)
  | length (n : Nat)
  | lastSymbol (byte : UInt8) (offset : Nat)
  | padding
  deriving DecidableEq

def Fault.message : Fault → String
  | symbol b i => s!"Invalid symbol {b}, offset {i}."
  | length n => s!"Invalid input length: {n}"
  | lastSymbol b i => s!"Invalid last symbol {b}, offset {i}."
  | padding => "Invalid padding"

def encode : Bytes → Bytes
  | [] => []
  | [a] => [symbol (a.toNat / 4), symbol (a.toNat % 4 * 16)]
  | [a, b] =>
    [symbol (a.toNat / 4), symbol (a.toNat % 4 * 16 + b.toNat / 16), symbol (b.toNat % 16 * 4)]
  | a :: b :: c :: rest =>
    symbol (a.toNat / 4) :: symbol (a.toNat % 4 * 16 + b.toNat / 16) ::
      symbol (b.toNat % 16 * 4 + c.toNat / 64) :: symbol (c.toNat % 64) :: encode rest

def readSymbol (offset : Nat) (b : UInt8) : Except Fault Nat :=
  match value? b with
  | some v => .ok v
  | none => .error (.symbol b offset)

-- The three bytes of four values.
def triple (w x y z : Nat) : Bytes :=
  [(w * 4 + x / 16).toUInt8, (x % 16 * 16 + y / 4).toUInt8, (y % 4 * 64 + z).toUInt8]

-- The values of the final quad up to its padding, which must be at its end and leave two symbols
-- or more. The third argument is the offset where padding began.
def quadValues (offset : Nat) (position : Nat) : Option Nat → Bytes → Except Fault (List Nat)
  | _, [] => .ok []
  | none, b :: rest =>
    if b = padding then
      if position < 2 then .error (.symbol b (offset + position))
      else quadValues offset (position + 1) (some (offset + position)) rest
    else do
      let v ← readSymbol (offset + position) b
      let vs ← quadValues offset (position + 1) none rest
      return v :: vs
  | some start, b :: rest =>
    if b = padding then quadValues offset (position + 1) (some start) rest
    else .error (.symbol padding start)

-- Reads the quad that ends the input; it holds one to four bytes unless the input is empty.
def lastQuad (offset : Nat) (quad : Bytes) : Except Fault Bytes := do
  let values ← quadValues offset 0 none quad
  if quad.length = 0 then return []
  else if values.length < 2 then throw (.length (offset + values.length))
  else if values.length < quad.length then throw .padding
  else
    match values, quad with
    | [w, x], [_, b] =>
      if x % 16 = 0 then return [(w * 4 + x / 16).toUInt8] else throw (.lastSymbol b (offset + 1))
    | [w, x, y], [_, _, b] =>
      if y % 4 = 0 then return [(w * 4 + x / 16).toUInt8, (x % 16 * 16 + y / 4).toUInt8]
      else throw (.lastSymbol b (offset + 2))
    | [w, x, y, z], _ => return triple w x y z
    | _, _ => throw .padding

def quads (offset : Nat) : Bytes → Except Fault Bytes
  | a :: b :: c :: d :: e :: rest => do
    let w ← readSymbol offset a
    let x ← readSymbol (offset + 1) b
    let y ← readSymbol (offset + 2) c
    let z ← readSymbol (offset + 3) d
    let tail ← quads (offset + 4) (e :: rest)
    return triple w x y z ++ tail
  | quad => lastQuad offset quad

-- A lone byte after full quads is looked at first, so that a foreign byte at the end, such as a
-- line break, is reported as such.
def loneByteFault? (t : Bytes) : Option Fault :=
  if t.length % 4 = 1 then
    match t.getLast? with
    | some b =>
      if (value? b).isNone ∧ b ≠ padding then some (.symbol b (t.length - 1)) else none
    | none => none
  else none

def decode (t : Bytes) : Except Fault Bytes :=
  match loneByteFault? t with
  | some fault => .error fault
  | none => quads 0 t

end AccountCache.Text.Base64Url
