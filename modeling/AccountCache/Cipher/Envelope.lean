import AccountCache.Cipher.ChaCha20
import AccountCache.Cipher.Poly1305

namespace AccountCache.Cipher.Envelope

def nonceLength : Nat := 24

def tagLength : Nat := 16

-- The stream's counter is one word, which bounds the message.
def admits (length : Nat) : Bool := length / 64 < 0xffffffff

-- Zeros up to the next multiple of sixteen.
def filler (length : Nat) : Bytes := List.replicate ((16 - length % 16) % 16) 0

-- What the tag covers.
def covered (associated ciphertext : Bytes) : Bytes :=
  associated ++ filler associated.length ++ ciphertext ++ filler ciphertext.length ++
    Poly1305.numberBytes 8 associated.length ++ Poly1305.numberBytes 8 ciphertext.length

-- The key and the short nonce that the stream runs on.
def streamKey (key nonce : Bytes) : Bytes × Bytes :=
  (ChaCha20.derive key (nonce.take 16), [0, 0, 0, 0] ++ nonce.drop 16)

def tag (key nonce associated ciphertext : Bytes) : Bytes :=
  let (k, n) := streamKey key nonce
  Poly1305.tag (ChaCha20.stream k n 0 32) (covered associated ciphertext)

-- Combines a text with the stream; doing it twice gives the text back.
def combine (key nonce text : Bytes) : Bytes :=
  let (k, n) := streamKey key nonce
  List.zipWith (· ^^^ ·) text (ChaCha20.stream k n 1 text.length)

inductive Fault
  | tooShort
  | refused
  deriving DecidableEq

def Fault.message : Fault → String
  | tooShort => "sealed key ciphertext too short"
  | refused => "aead::Error"

def wrap (key nonce associated plain : Bytes) : Except Fault Bytes :=
  if admits plain.length then
    let ciphertext := combine key nonce plain
    .ok (nonce ++ ciphertext ++ tag key nonce associated ciphertext)
  else .error .refused

def unwrap (key associated sealed : Bytes) : Except Fault Bytes :=
  if sealed.length < nonceLength then .error .tooShort
  else
    let nonce := sealed.take nonceLength
    let rest := sealed.drop nonceLength
    if rest.length < tagLength then .error .refused
    else
      let ciphertext := rest.take (rest.length - tagLength)
      if admits ciphertext.length ∧
          rest.drop (rest.length - tagLength) = tag key nonce associated ciphertext then
        .ok (combine key nonce ciphertext)
      else .error .refused

end AccountCache.Cipher.Envelope
