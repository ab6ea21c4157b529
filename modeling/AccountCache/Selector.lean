import AccountCache.Content

namespace AccountCache

-- How a parent restricts a share selector.
inductive Scope
  -- Under the parent, and in the single or the combined state.
  | parent
  -- Under the parent and in the single state; or in the combined state, under any parent.
  | unscopedCombined
  deriving DecidableEq

instance : Inhabited Scope := ⟨.parent⟩

def Scope.name : Scope → String
  | parent => "Parent"
  | unscopedCombined => "LegacyUnscopedCombined"

inductive Selector
  | users
  | pendingContacts
  | children (parent : Handle)
  -- Nodes that still carry an attribute string.
  | encryptedNodes
  | outShares (parent : Option Handle) (scope : Scope)
  | pendingShares (parent : Option Handle) (scope : Scope)
  deriving DecidableEq

namespace Selector

-- Nodes in the share state or in the combined one, as far as the parent lets them.
def sharesMatch (state : Share) (parent : Option Handle) (scope : Scope) (r : NodeRow) : Bool :=
  let single := r.share.isInteger state.code
  let combined := r.share.isInteger Share.outgoingAndPending.code
  match parent, scope with
  | none, _ => single || combined
  | some p, .parent => r.parent.isInteger (Handle.key p) && (single || combined)
  | some p, .unscopedCombined => r.parent.isInteger (Handle.key p) && single || combined

-- Whether a selector of nodes visits the row; the others visit none.
def matchesNode (s : Selector) (r : NodeRow) : Bool :=
  match s with
  | children p => r.parent.isInteger (Handle.key p)
  | encryptedNodes => !r.attr.isNull
  | outShares p scope => sharesMatch .outgoing p scope r
  | pendingShares p scope => sharesMatch .pending p scope r
  | users | pendingContacts => false

def table : Selector → TableName
  | users => .users
  | pendingContacts => .pcrs
  | _ => .nodes

-- The rows that the selector visits, each as its key and its payload column.
def candidates (s : Selector) (c : Content) : Except QueryFault (List (Key × Value)) :=
  match s with
  | users => do
    let rows ← c.users.select .users ["userhandle", "user"]
    return rows.toList
  | pendingContacts => do
    let rows ← c.pcrs.select .pcrs ["id", "pcr"]
    return rows.toList
  | s => do
    let rows ← c.nodes.select .nodes ["nodehandle", "node"]
    return (rows.filter fun _ r => s.matchesNode r).map fun r => (r.1, r.2.payload)

-- The first row past the last key, so that rows written between steps do not shift the position.
def step (s : Selector) (last : Option Key) (c : Content) :
    Except QueryFault (Option (Key × Bytes)) := do
  let rows ← s.candidates c
  match rows.find? fun r => Rows.isPast last r.1 with
  | some (k, v) =>
    let payload ← v.readBlob 1 s.table.payloadColumn
    return some (k, payload)
  | none => return none

def sharesText (name : String) (parent : Option Handle) (scope : Scope) : String :=
  Text.record name [("parent", Text.option toString parent), ("scope", scope.name)]

def debug : Selector → String
  | users => "Users"
  | pendingContacts => "PendingContacts"
  | children p => Text.record "Children" [("parent", toString p)]
  | encryptedNodes => "EncryptedNodes"
  | outShares p scope => sharesText "OutShares" p scope
  | pendingShares p scope => sharesText "PendingShares" p scope

end Selector
end AccountCache
