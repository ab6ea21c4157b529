import AccountCache.Options
import AccountCache.Table.HandleKeys

namespace AccountCache

namespace Connection

-- Why the journal cannot be changed to the mode, if so. Leaving the log takes the file alone;
-- turning to it is a change like any other.
def journalRefusal? (mode : JournalMode) (c : Connection) : Option QueryFault :=
  match c.body.store? with
  | .error f => some f
  | .ok s =>
    if mode = .wal then
      if s.wal then none
      else if c.peers.reading ∨ c.peers.writing then some .locked
      else c.obstacle
    else if s.wal ∧ c.peers.present then some .locked
    else none

def setJournal (mode : JournalMode) (c : Connection) : Except QueryFault Unit × Connection :=
  match c.journalRefusal? mode with
  | some f => (.error f, c)
  | none =>
    if mode = .wal then (.ok (), { c with body := c.body.update fun s => { s with wal := true } })
    else if c.body.isBlank then (.ok (), c)
    else (.ok (), { c with body := c.body.update fun s => { s with wal := false } })

-- Creates a table unless there is one, or a view, with its name.
def establish (name : TableName) (c : Connection) : Except QueryFault Unit × Connection :=
  match c.read fun content => .ok (content.has name) with
  | (.error f, c) => (.error f, c)
  | (.ok true, c) => (.ok (), c)
  | (.ok false, c) => c.write (Content.create name)

-- Each table is created on its own, so those before a failing one stay.
def establishAll : List TableName → Connection → Except QueryFault Unit × Connection
  | [], c => (.ok (), c)
  | name :: names, c =>
    match c.establish name with
    | (.error f, c) => (.error f, c)
    | (.ok _, c) => establishAll names c

-- Creates the missing tables and says whether the `init` table was among them.
def ensureSchema (c : Connection) : Except QueryFault Bool × Connection :=
  match c.read fun content => .ok content.init.isTable with
  | (.error f, c) => (.error f, c)
  | (.ok old, c) =>
    let (r, c) := establishAll TableName.all c
    (r.map fun _ => !old, c)

end Connection

namespace Table

-- In memory there is no journal to speak of; elsewhere a refusal is no more than a warning.
def applyJournal (mode : JournalMode) (inMemory : Bool) (t : Table) : Table :=
  if inMemory then t.note .warn ("journal_mode " ++ mode.text ++ " not applied, using memory")
  else
    match t.conn.setJournal mode with
    | (.ok _, conn) => { t with conn }
    | (.error f, conn) =>
      { t with conn }.note .warn ("failed to set journal_mode " ++ mode.text ++ ": " ++ f.message)

def prepare (o : StoreOptions) (inMemory : Bool) (e : Entropy) (t : Table) :
    Except Failure Unit × Table × Entropy :=
  let t := applyJournal o.journal inMemory t
  let (r, conn) := t.conn.ensureSchema
  let t := { t with conn }
  match r with
  | .error f => (.error (.schema f), t, e)
  | .ok fresh =>
    let (r, t, e) := if fresh then provision e t else (.ok (), t, e)
    match r with
    | .error f => (.error f, t, e)
    | .ok _ =>
      (.ok (), t.note .debug
        ("state cache opened: " ++ t.path ++ " (fresh: " ++ toString fresh ++ ")"), e)

end Table
end AccountCache
