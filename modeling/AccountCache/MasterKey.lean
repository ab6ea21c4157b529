import AccountCache.Cipher.Envelope
import AccountCache.Failure
import AccountCache.Text.Diagnostic

namespace AccountCache

-- A key is what it answers to each call, counted from one. It refuses with an error of any kind.
structure MasterKey where
  -- How many random bytes a call of `wrap` is given.
  nonceLength : Nat
  wrap : (call : Nat) → (nonce associated plain : Bytes) → Except Report Bytes
  unwrap : (call : Nat) → (associated sealed : Bytes) → Except Report Bytes

def Cipher.Envelope.Fault.report (f : Fault) : Report := .titled .crypto f.message

namespace MasterKey

-- The XChaCha20-Poly1305 envelope under 32 bytes.
def xchacha (key : Bytes) : MasterKey where
  nonceLength := Cipher.Envelope.nonceLength
  wrap _ nonce associated plain :=
    (Cipher.Envelope.wrap key nonce associated plain).mapError (·.report)
  unwrap _ associated sealed :=
    (Cipher.Envelope.unwrap key associated sealed).mapError (·.report)

-- What diagnostics show of such a key.
def xchachaDebug : String := Text.partRecord "XChaChaMasterKey" []

-- What an open envelope writes in front of its text.
def openLead (associated : Bytes) : Bytes := 80 :: associated ++ [0]

-- An envelope that hides nothing and only checks the associated data.
def transparent : MasterKey where
  nonceLength := 0
  wrap _ _ associated plain := .ok (openLead associated ++ plain)
  unwrap _ associated sealed :=
    if (openLead associated).isPrefixOf sealed then .ok (sealed.drop (openLead associated).length)
    else .error (.titled .crypto "plain envelope mismatch")

-- A key that refuses one call of either sort.
def refusing (k : MasterKey) (wrapAt unwrapAt : Option Nat) (reason : Report) : MasterKey where
  nonceLength := k.nonceLength
  wrap call nonce associated plain :=
    if wrapAt = some call then .error reason else k.wrap call nonce associated plain
  unwrap call associated sealed :=
    if unwrapAt = some call then .error reason else k.unwrap call associated sealed

end MasterKey

inductive KeyCall
  | wrap (associated : Bytes) (length : Nat)
  | unwrap (associated : Bytes) (length : Nat)
  deriving DecidableEq

def KeyCall.isWrap : KeyCall → Bool
  | wrap .. => true
  | unwrap .. => false

-- A master key together with the calls that were made of it.
-- Refused calls count too.
structure Keyholder where
  key : MasterKey
  calls : List KeyCall

namespace Keyholder

def wraps (k : Keyholder) : Nat := k.calls.countP (·.isWrap)

def unwraps (k : Keyholder) : Nat := k.calls.countP (!·.isWrap)

def wrap (k : Keyholder) (nonce associated plain : Bytes) : Except Report Bytes × Keyholder :=
  (k.key.wrap (k.wraps + 1) nonce associated plain,
    { k with calls := k.calls ++ [.wrap associated plain.length] })

def unwrap (k : Keyholder) (associated sealed : Bytes) : Except Report Bytes × Keyholder :=
  (k.key.unwrap (k.unwraps + 1) associated sealed,
    { k with calls := k.calls ++ [.unwrap associated sealed.length] })

end Keyholder
end AccountCache
