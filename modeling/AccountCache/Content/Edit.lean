import AccountCache.Content

namespace AccountCache

inductive Edit
  | create (t : TableName)
  | drop (t : TableName)
  | view (t : TableName)
  | index (t : TableName)
  | putInit (k : Key) (v : Value)
  | eraseInit (k : Key)
  | putUser (k : Key) (v : Value)
  | putContact (k : Key) (v : Value)
  | putNode (k : Key) (row : NodeRow)
  -- A user without a payload, put in where the column refuses null; the table is made if there is
  -- none.
  | putNullUser (k : Key)
  deriving DecidableEq

namespace Edit

def replace (t : TableName) (c : Content) (r : {α : Type} → Relation α → Relation α) : Content :=
  match t with
  | .init => { c with init := r c.init }
  | .nodes => { c with nodes := r c.nodes }
  | .users => { c with users := r c.users }
  | .pcrs => { c with pcrs := r c.pcrs }

-- A name is taken only if it is free.
def occupy (new : {α : Type} → Relation α) : {α : Type} → Relation α → Relation α
  | _, .missing => new
  | _, r => r

def dropTable : {α : Type} → Relation α → Relation α
  | _, .table _ => .missing
  | _, r => r

def refuseNull (t : TableName) (column : String) (v : Value) : Except QueryFault Value :=
  if v.isNull then .error (.nullRefused t column) else .ok v

-- A row as the affinities of its columns leave it.
def storedRow (r : NodeRow) : Except QueryFault NodeRow := do
  let parent ← refuseNull .nodes "parenthandle" r.parent.asInteger
  let share ← refuseNull .nodes "shared" r.share.asInteger
  let payload ← refuseNull .nodes "node" r.payload
  return { parent, fingerprint := r.fingerprint, attr := r.attr.asText, share, payload }

-- Puts a row that its columns may refuse; the table is looked for first.
def upsert (r : Relation α) (t : TableName) (k : Key) (row : Except QueryFault α) :
    Except QueryFault (Relation α) := do
  let _ ← r.change t id
  let row ← row
  r.change t (·.put k row)

def apply (e : Edit) (c : Content) : Except QueryFault Content :=
  match e with
  | create t => c.create t
  | drop t => .ok (replace t c dropTable)
  | view t => .ok (replace t c (occupy .view))
  | index t => .ok (replace t c (occupy .indexName))
  | putInit k v => do
    let r ← upsert c.init .init k (refuseNull .init "content" v)
    return { c with init := r }
  | eraseInit k => do
    let r ← c.init.change .init (·.erase k)
    return { c with init := r }
  | putUser k v => do
    let r ← upsert c.users .users k (refuseNull .users "user" v)
    return { c with users := r }
  | putContact k v => do
    let r ← upsert c.pcrs .pcrs k (refuseNull .pcrs "pcr" v)
    return { c with pcrs := r }
  | putNode k row => do
    let r ← upsert c.nodes .nodes k (storedRow row)
    return { c with nodes := r }
  | putNullUser k => do
    let r ← c.users.create .users
    let r ← r.change .users (·.put k .null)
    return { c with users := r }

-- Whether an edit finds its work done, and only looks.
def isDone (e : Edit) (c : Content) : Bool :=
  match e with
  | create t => c.has t
  | drop t => !c.has t
  | _ => false

end Edit
end AccountCache
