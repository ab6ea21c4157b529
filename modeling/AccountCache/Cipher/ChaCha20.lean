import AccountCache.Bytes

namespace AccountCache.Cipher.ChaCha20

-- Sixteen words: four of a constant, eight of the key, four of counter and nonce.
abbrev State := Vector UInt32 16

-- The word whose bytes, least significant first, begin the list.
def word (bs : Bytes) : UInt32 :=
  (bs.take 4).foldr (fun b w => w * 256 + b.toUInt32) 0

def words (n : Nat) (bs : Bytes) : Vector UInt32 n :=
  Vector.ofFn fun i : Fin n => word (bs.drop (4 * i))

def wordBytes (w : UInt32) : Bytes :=
  [w.toUInt8, (w >>> 8).toUInt8, (w >>> 16).toUInt8, (w >>> 24).toUInt8]

def constants : Vector UInt32 4 := #v[0x61707865, 0x3320646e, 0x79622d32, 0x6b206574]

def rotate (w n : UInt32) : UInt32 := (w <<< n) ||| (w >>> (32 - n))

def quarterRound (s : State) (i j k l : Fin 16) : State :=
  let a := s[i] + s[j]
  let d := rotate (s[l] ^^^ a) 16
  let c := s[k] + d
  let b := rotate (s[j] ^^^ c) 12
  let a := a + b
  let d := rotate (d ^^^ a) 8
  let c := c + d
  let b := rotate (b ^^^ c) 7
  (((s.set i a).set j b).set k c).set l d

-- A round on the columns and a round on the diagonals.
def doubleRound (s : State) : State :=
  let s := quarterRound s 0 4 8 12
  let s := quarterRound s 1 5 9 13
  let s := quarterRound s 2 6 10 14
  let s := quarterRound s 3 7 11 15
  let s := quarterRound s 0 5 10 15
  let s := quarterRound s 1 6 11 12
  let s := quarterRound s 2 7 8 13
  quarterRound s 3 4 9 14

def rounds : Nat → State → State
  | 0, s => s
  | n + 1, s => rounds n (doubleRound s)

-- The state before the rounds; the last four words are the counter and the nonce.
def initial (key : Bytes) (tail : Vector UInt32 4) : State :=
  (constants ++ words 8 key ++ tail).cast rfl

def block (key : Bytes) (counter : UInt32) (nonce : Bytes) : Bytes :=
  let s := initial key ((#v[counter] ++ words 3 nonce).cast rfl)
  (Vector.zipWith (· + ·) (rounds 10 s) s).toList.flatMap wordBytes

-- Bytes of the stream, from the block with the given counter on.
def stream (key nonce : Bytes) (counter : Nat) (length : Nat) : Bytes :=
  ((List.range ((length + 63) / 64)).flatMap fun i =>
    block key (counter + i).toUInt32 nonce).take length

-- The key that a key and sixteen nonce bytes determine.
def derive (key nonce : Bytes) : Bytes :=
  let s := (rounds 10 (initial key (words 4 nonce))).toList
  (s.take 4 ++ s.drop 12).flatMap wordBytes

end AccountCache.Cipher.ChaCha20
