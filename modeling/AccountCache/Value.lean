import AccountCache.Text.Utf8
import AccountCache.Number.Binary64
import AccountCache.Number.Literal

namespace AccountCache

-- A column may hold a value of any kind, because other programs write to the same files.
inductive Value
  | null
  | integer (n : Int64)
  | real (bits : UInt64)
  | text (bytes : Bytes)
  | blob (bytes : Bytes)
  deriving DecidableEq

namespace Value

inductive Kind
  | null
  | integer
  | real
  | text
  | blob
  deriving DecidableEq

def Kind.name : Kind → String
  | null => "Null"
  | integer => "Integer"
  | real => "Real"
  | text => "Text"
  | blob => "Blob"

def kind : Value → Kind
  | null => .null
  | integer _ => .integer
  | real _ => .real
  | text _ => .text
  | blob _ => .blob

def ofString (s : String) : Value := text (Bytes.ofString s)

-- The absence of a value is stored as null.
def ofOption (f : α → Value) : Option α → Value
  | some a => f a
  | none => null

def isInteger (v : Value) (n : Int64) : Bool :=
  match v with
  | integer m => m = n
  | real bits => Binary64.toInt? bits = some n.toInt
  | _ => false

def isNull (v : Value) : Bool := v.kind = .null

def isInnerInteger (n : Int) : Bool := Int64.minValue.toInt < n && n < Int64.maxValue.toInt

-- A real that equals an integer becomes that integer.
def integerOfReal (bits : UInt64) : Value :=
  match Binary64.toInt? bits with
  | some n => if isInnerInteger n then integer (Int64.ofInt n) else real bits
  | none => real bits

-- A column of integers takes numbers, also written ones, as integers where that loses nothing.
def asInteger (v : Value) : Value :=
  match v with
  | real bits => integerOfReal bits
  | text bs =>
    match Number.Literal.ofBytes? bs with
    | some n =>
      if n.integral ∧ Int64.minValue.toInt ≤ n.signed ∧ n.signed ≤ Int64.maxValue.toInt then
        integer (Int64.ofInt n.signed)
      else integerOfReal n.bits
    | none => v
  | v => v

-- A column of texts takes numbers as their texts.
def asText (v : Value) : Value :=
  match v with
  | integer n => ofString (toString n.toInt)
  | real bits => ofString (Binary64.text bits)
  | v => v

end Value
end AccountCache
