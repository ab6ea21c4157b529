namespace AccountCache

inductive Root
  | files
  | inbox
  | rubbish
  deriving DecidableEq

namespace Root

def all : List Root := [files, inbox, rubbish]

def name : Root → String
  | files => "Files"
  | inbox => "Inbox"
  | rubbish => "Rubbish"

end Root

-- The two independent keys that obscure handles.
inductive HandleKeyKind
  | node
  | parent
  deriving DecidableEq

inductive Slot
  | syncToken
  | root (r : Root)
  | handleKey (kind : HandleKeyKind)
  deriving DecidableEq

namespace Slot

def number : Slot → Nat
  | syncToken => 0
  | root .files => 1
  | root .inbox => 2
  | root .rubbish => 3
  | handleKey .node => 4
  | handleKey .parent => 5

def key (s : Slot) : Int64 := Int64.ofNat s.number

-- Handle-key slots are written when a store is created and at no other time.
def isReserved : Slot → Bool
  | handleKey _ => true
  | _ => false

def name : Slot → String
  | syncToken => "SyncToken"
  | root r => s!"Root({r.name})"
  | handleKey .node => "NodeHandleKey"
  | handleKey .parent => "ParentHandleKey"

theorem key_injective {s₁ s₂ : Slot} (h : s₁.key = s₂.key) : s₁ = s₂ := by
  rcases s₁ with _ | ⟨⟨⟩⟩ | ⟨⟨⟩⟩ <;> rcases s₂ with _ | ⟨⟨⟩⟩ | ⟨⟨⟩⟩ <;> simp_all [key, number]

end Slot
end AccountCache
