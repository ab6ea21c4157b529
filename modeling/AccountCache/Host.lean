import AccountCache.Disk
import AccountCache.Entropy
import AccountCache.Naming
import AccountCache.Table

namespace AccountCache

-- An open table lies on the host in parts, apart from the body of its store; it is put together for
-- each operation and taken apart afterwards.
structure Seat where
  path : String
  body : Nat
  -- The store lies in memory and has no file.
  inMemory : Bool
  key : String
  phase : Phase
  cursor : Cursor

structure Host where
  disk : Disk Body
  seats : List (String × Seat)
  keyring : List (String × Keyholder)
  entropy : Entropy
  log : List Log.Record

namespace Host

def assign (name : String) (a : α) (l : List (String × α)) : List (String × α) :=
  (name, a) :: l.filter (·.1 ≠ name)

def seat? (h : Host) (label : String) : Option Seat := h.seats.lookup label

-- A key that the host does not have refuses nothing and hides nothing.
def keyholder (h : Host) (name : String) : Keyholder :=
  (h.keyring.lookup name).getD ⟨.transparent, []⟩

def body (h : Host) (i : Nat) : Body := (h.disk.bodies[i]?).getD (.foreign [])

def seatsOn (h : Host) (body : Nat) : List (String × Seat) :=
  h.seats.filter fun s => s.2.body = body

def peers (h : Host) (label : String) (body : Nat) : Peers :=
  .ofPhases (((h.seatsOn body).filter fun s => s.1 ≠ label).map (·.2.phase))

def journalSuffix : String := "-journal"

-- Where changes that do not go to a log are kept undoable. That file is made, emptied and deleted
-- with the transactions of the tables, and is not among the files of the disk.
def journalPath (path : String) : String := path ++ journalSuffix

-- The last name of a path.
def baseName (path : String) : String := (Place.steps path).getLast?.getD ""

-- A journal can be made beside the file: its name is not too long, and no directory has it.
def Fits (path : String) (d : Disk Body) : Prop :=
  Place.isTooLong (baseName path ++ journalSuffix) = false ∧
    d.find? (journalPath path) ≠ some .directory

instance (path : String) (d : Disk Body) : Decidable (Fits path d) :=
  inferInstanceAs (Decidable (_ ∧ _))

-- A journal is made beside a file that is still found under its name. Readers are not held up here
-- by a directory that is put in its place while their table is open.
def obstacle (h : Host) (path : String) (body : Nat) : Option QueryFault :=
  if h.disk.file? path ≠ some body then some .detached
  else if Fits path h.disk then none
  else some .cannotOpen

def assemble (h : Host) (label : String) (s : Seat) : Table where
  path := s.path
  conn := {
    body := h.body s.body
    phase := s.phase
    peers := h.peers label s.body
    obstacle := if s.inMemory then none else h.obstacle s.path s.body }
  cursor := s.cursor
  key := h.keyholder s.key
  log := []

def restore (h : Host) (label : String) (s : Seat) (t : Table) : Host where
  disk := h.disk.setBody s.body t.conn.body
  seats := assign label { s with phase := t.conn.phase, cursor := t.cursor } h.seats
  keyring := assign s.key t.key h.keyring
  entropy := h.entropy
  log := h.log ++ t.log

-- Does something with an open table; there is no answer if none is open under the label.
def onTable (label : String) (f : Table → α × Table) (h : Host) : Option α × Host :=
  match h.seat? label with
  | none => (none, h)
  | some s =>
    let (a, t) := f (h.assemble label s)
    (some a, h.restore label s t)

def note (h : Host) (level : Log.Level) (text : String) : Host :=
  { h with log := h.log ++ [⟨level, text⟩] }

-- Closes a table; an open transaction is undone.
def close (label : String) (h : Host) : Option Unit × Host :=
  match h.seat? label with
  | none => (none, h)
  | some s =>
    (some (), { h with seats := h.seats.filter (·.1 ≠ label) }.note .debug
      ("state cache closed: " ++ s.path))

def keepsLog (h : Host) (s : Seat) : Bool :=
  match h.body s.body with
  | .store store => store.wal && h.disk.file? s.path = some s.body
  | .foreign _ => false

-- The log and its index exist beside a file while a table is open on it.
def sidecarPaths (h : Host) : List String :=
  (h.seats.filter fun s => h.keepsLog s.2).flatMap fun s => [walPath s.2.path, shmPath s.2.path]

-- The names in the directory at a path, in order; none if there is no directory.
def listing (h : Host) (path : String) : Option (List String) :=
  match h.disk.place path with
  | .error _ => none
  | .ok p =>
    if h.disk.link? p = some .directory then
      let beside := h.sidecarPaths.filterMap fun path =>
        match h.disk.place path with
        | .ok q => if q.dropLast = p then q.getLast? else none
        | .error _ => none
      some ((h.disk.names p ++ beside).eraseDups.mergeSort fun a b => !(b < a))
    else none

end Host
end AccountCache
