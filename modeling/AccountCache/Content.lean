import AccountCache.Node
import AccountCache.Rows
import AccountCache.Slot

namespace AccountCache

-- Other programs may have taken the name of a table, or dropped the table.
inductive Relation (α : Type)
  | missing
  -- A view with an `id` and a `content` column and no rows.
  | view
  -- An index on some other table.
  | indexName
  | table (rows : Rows α)
  deriving DecidableEq

namespace Relation

variable {α : Type}

-- The rows that a reading statement sees. It names `columns`, in the order in which they are
-- looked up.
def select (r : Relation α) (t : TableName) (columns : List String) : Except QueryFault (Rows α) :=
  match r with
  | missing | indexName => .error (.noTable t)
  | view =>
    match columns.find? fun c => c ≠ "id" ∧ c ≠ "content" with
    | some c => .error (.noColumn c)
    | none => .ok .empty
  | table rows => .ok rows

def change (r : Relation α) (t : TableName) (f : Rows α → Rows α) :
    Except QueryFault (Relation α) :=
  match r with
  | missing | indexName => .error (.noTable t)
  | view => .error (.viewModified t)
  | table rows => .ok (table (f rows))

-- A table is created unless the name already belongs to a table or a view.
def create (r : Relation α) (t : TableName) : Except QueryFault (Relation α) :=
  match r with
  | missing => .ok (table .empty)
  | indexName => .error (.indexNamed t)
  | r => .ok r

def isTable : Relation α → Bool
  | table _ => true
  | _ => false

def isListed : Relation α → Bool
  | table _ | view => true
  | _ => false

def all (r : Relation α) (p : Key → α → Bool) : Bool :=
  match r with
  | table rows => rows.all p
  | _ => true

end Relation

structure Content where
  init : Relation Value
  nodes : Relation NodeRow
  users : Relation Value
  pcrs : Relation Value
  deriving DecidableEq

namespace Content

def blank : Content := ⟨.missing, .missing, .missing, .missing⟩

def has (t : TableName) (c : Content) : Bool :=
  match t with
  | .init => c.init.isListed
  | .nodes => c.nodes.isListed
  | .users => c.users.isListed
  | .pcrs => c.pcrs.isListed

def create (t : TableName) (c : Content) : Except QueryFault Content :=
  match t with
  | .init => (c.init.create t).map fun r => { c with init := r }
  | .nodes => (c.nodes.create t).map fun r => { c with nodes := r }
  | .users => (c.users.create t).map fun r => { c with users := r }
  | .pcrs => (c.pcrs.create t).map fun r => { c with pcrs := r }

def clear (t : TableName) (c : Content) : Except QueryFault Content :=
  match t with
  | .init => (c.init.change t fun _ => .empty).map fun r => { c with init := r }
  | .nodes => (c.nodes.change t fun _ => .empty).map fun r => { c with nodes := r }
  | .users => (c.users.change t fun _ => .empty).map fun r => { c with users := r }
  | .pcrs => (c.pcrs.change t fun _ => .empty).map fun r => { c with pcrs := r }

-- The payload in a row that a lookup may have found.
def payload? (t : TableName) : Option Value → Except QueryFault (Option Bytes)
  | some v => (v.readBlob 0 t.payloadColumn).map some
  | none => .ok none

def scalar (s : Slot) (c : Content) : Except QueryFault (Option Bytes) := do
  let rows ← c.init.select .init ["content", "id"]
  payload? .init (rows.get? s.key)

def putScalar (s : Slot) (bytes : Bytes) (c : Content) : Except QueryFault Content :=
  (c.init.change .init (·.put s.key (.blob bytes))).map fun r => { c with init := r }

def nodePayload (h : Handle) (c : Content) : Except QueryFault (Option Bytes) := do
  let rows ← c.nodes.select .nodes ["node", "nodehandle"]
  payload? .nodes ((rows.get? (Handle.key h)).map (·.payload))

-- The payload of the first node, by key, that has the fingerprint.
def fingerprintPayload (fingerprint : Bytes) (c : Content) : Except QueryFault (Option Bytes) := do
  let rows ← c.nodes.select .nodes ["node", "fingerprint"]
  let row := rows.next? (fun _ r => r.fingerprint = .blob fingerprint) none
  payload? .nodes (row.map (·.2.payload))

def node (h : Handle) (c : Content) : Except QueryFault (Option StoredNode) := do
  let rows ← c.nodes.select .nodes ["nodehandle"]
  match rows.get? (Handle.key h) with
  | some row => (row.read (Handle.key h)).map some
  | none => return none

-- Which children of a node are counted: files have a fingerprint, folders have none.
inductive ChildKind
  | any
  | files
  | folders
  deriving DecidableEq

def ChildKind.accepts (kind : ChildKind) (r : NodeRow) : Bool :=
  match kind with
  | any => true
  | files => !r.fingerprint.isNull
  | folders => r.fingerprint.isNull

def countChildren (kind : ChildKind) (parent : Handle) (c : Content) : Except QueryFault Nat := do
  let rows ← c.nodes.select .nodes ["parenthandle"]
  return rows.count fun _ r => r.parent.isInteger (Handle.key parent) && kind.accepts r

def putNode (record : NodeRecord) (c : Content) : Except QueryFault Content :=
  (c.nodes.change .nodes (·.put (Handle.key record.handle) record.row)).map fun r =>
    { c with nodes := r }

def deleteNode (h : Handle) (c : Content) : Except QueryFault Content :=
  (c.nodes.change .nodes (·.erase (Handle.key h))).map fun r => { c with nodes := r }

def putUser (h : Handle) (bytes : Bytes) (c : Content) : Except QueryFault Content :=
  (c.users.change .users (·.put (Handle.key h) (.blob bytes))).map fun r => { c with users := r }

def deleteUser (h : Handle) (c : Content) : Except QueryFault Content :=
  (c.users.change .users (·.erase (Handle.key h))).map fun r => { c with users := r }

def putContact (h : Handle) (bytes : Bytes) (c : Content) : Except QueryFault Content :=
  (c.pcrs.change .pcrs (·.put (Handle.key h) (.blob bytes))).map fun r => { c with pcrs := r }

def deleteContact (h : Handle) (c : Content) : Except QueryFault Content :=
  (c.pcrs.change .pcrs (·.erase (Handle.key h))).map fun r => { c with pcrs := r }

-- No column that must hold a value holds none.
def isIntact (c : Content) : Bool :=
  c.init.all (fun _ v => !v.isNull) &&
    c.nodes.all (fun _ r => !r.parent.isNull && !r.share.isNull && !r.payload.isNull) &&
    c.users.all (fun _ v => !v.isNull) && c.pcrs.all (fun _ v => !v.isNull)

end Content
end AccountCache
