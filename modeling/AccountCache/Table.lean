import AccountCache.Connection
import AccountCache.Failure
import AccountCache.Log
import AccountCache.MasterKey
import AccountCache.Selector

namespace AccountCache

inductive Cursor
  | idle
  | active (selector : Selector) (last : Option Key)
  deriving DecidableEq

def Cursor.isActive : Cursor → Bool
  | idle => false
  | active .. => true

structure Table where
  path : String
  conn : Connection
  cursor : Cursor
  key : Keyholder
  log : List Log.Record

-- An operation on a table: its result, and the table afterwards.
abbrev Action (α : Type) := Table → Except Failure α × Table

namespace Table

def inTransaction (t : Table) : Bool := t.conn.inTransaction

def note (t : Table) (level : Log.Level) (text : String) : Table :=
  { t with log := t.log ++ [⟨level, text⟩] }

def onConnection (f : Connection → Except QueryFault α × Connection) : Action α := fun t =>
  let (r, conn) := f t.conn
  (r.mapError .query, { t with conn })

def read (q : Content → Except QueryFault α) : Action α := onConnection (Connection.read q)

def write (u : Content → Except QueryFault Content) : Action Unit :=
  onConnection (Connection.write u)

def begin : Action Unit := onConnection Connection.begin

def commit : Action Unit := onConnection Connection.commit

-- Outside a transaction there is nothing to undo.
def abort : Action Unit := fun t => (.ok (), { t with conn := t.conn.abort })

def scalar (s : Slot) : Action (Option Bytes) := read (Content.scalar s)

def putScalar (s : Slot) (bytes : Bytes) : Action Unit := fun t =>
  if s.isReserved then (.error (.reservedSlot s), t) else write (Content.putScalar s bytes) t

def nodePayload (h : Handle) : Action (Option Bytes) := read (Content.nodePayload h)

def fingerprintPayload (fingerprint : Bytes) : Action (Option Bytes) :=
  read (Content.fingerprintPayload fingerprint)

def nodeRecord (h : Handle) : Action (Option NodeRecord) := fun t =>
  match read (Content.node h) t with
  | (.error f, t) => (.error f, t)
  | (.ok none, t) => (.ok none, t)
  | (.ok (some n), t) =>
    ((Share.decode n.shareCode).map fun share => some (n.record share), t)

def countChildren (kind : Content.ChildKind) (parent : Handle) : Action Nat :=
  read (Content.countChildren kind parent)

def putNode (r : NodeRecord) : Action Unit := write (Content.putNode r)

def deleteNode (h : Handle) : Action Unit := write (Content.deleteNode h)

def putUser (h : Handle) (bytes : Bytes) : Action Unit := write (Content.putUser h bytes)

def deleteUser (h : Handle) : Action Unit := write (Content.deleteUser h)

def putContact (h : Handle) (bytes : Bytes) : Action Unit := write (Content.putContact h bytes)

def deleteContact (h : Handle) : Action Unit := write (Content.deleteContact h)

-- Starts to enumerate, in place of an enumeration that may be under way.
def startCursor (s : Selector) : Action Unit := fun t =>
  let t :=
    if t.cursor.isActive then t.note .debug ("discarding active cursor for " ++ s.debug) else t
  (.ok (), { t with cursor := .active s none })

-- The next row. A step that fails or finds none releases the cursor.
def step : Action (Option (Key × Bytes)) := fun t =>
  match t.cursor with
  | .idle => (.ok none, t)
  | .active s last =>
    match read (s.step last) t with
    | (.ok (some r), t) => (.ok (some r), { t with cursor := .active s (some r.1) })
    | (.ok none, t) => (.ok none, { t with cursor := .idle })
    | (.error f, t) => (.error f, { t with cursor := .idle })

def advance : Action (Option Bytes) := fun t =>
  let (r, t) := step t
  (r.map (·.map (·.2)), t)

def advanceHandle : Action (Option Handle) := fun t =>
  let (r, t) := step t
  (r.map (·.map fun row => Key.handle row.1), t)

-- Deletes the rows of tables in order, up to the first that cannot be emptied.
def clear : List TableName → Action Unit
  | [], t => (.ok (), t)
  | name :: names, t =>
    match write (Content.clear name) t with
    | (.ok _, t) => clear names t
    | (.error f, t) => (.error f, t)

-- Deletes every row, handle keys included: in the open transaction, or else in one of its own.
def truncate : Action Unit := fun t =>
  if t.inTransaction then clear TableName.all t
  else
    match clear TableName.all { t with conn := { t.conn with phase := .begun } } with
    | (.error f, t) => (.error f, (abort t).2)
    | (.ok _, t) =>
      match commit t with
      | (.error f, t) => (.error f, (abort t).2)
      | (.ok _, t) => (.ok (), t.note .debug ("state cache truncated: " ++ t.path))

def checkIntegrity : Action Bool := read fun c => .ok c.isIntact

def debugHead (t : Table) : String := "StateTable \x7b path: " ++ Text.quoted t.path

end Table
end AccountCache
