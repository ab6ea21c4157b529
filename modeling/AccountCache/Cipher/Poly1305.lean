import AccountCache.Bytes

namespace AccountCache.Cipher.Poly1305

-- The number whose bytes, least significant first, are given.
def number (bs : Bytes) : Nat := bs.foldr (fun b n => n * 256 + b.toNat) 0

-- The least significant `length` bytes of a number, least significant first.
def numberBytes : (length : Nat) → Nat → Bytes
  | 0, _ => []
  | length + 1, n => n.toUInt8 :: numberBytes length (n / 256)

def modulus : Nat := Nat.pow 2 130 - 5

def clamp (r : Nat) : Nat := r &&& 0x0ffffffc0ffffffc0ffffffc0fffffff

-- Adds the message block by block of sixteen bytes, each with a one above its last byte.
def accumulate (r : Nat) (acc : Nat) (message : Bytes) : Nat :=
  match message with
  | [] => acc
  | b :: rest =>
    accumulate r ((acc + number ((b :: rest).take 16 ++ [1])) * r % modulus) (rest.drop 15)
termination_by message.length
decreasing_by simp only [List.length_drop, List.length_cons]; omega

def tag (key message : Bytes) : Bytes :=
  let r := clamp (number (key.take 16))
  let s := number ((key.drop 16).take 16)
  numberBytes 16 (accumulate r 0 message + s)

end AccountCache.Cipher.Poly1305
