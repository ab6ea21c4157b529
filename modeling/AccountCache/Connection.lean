import AccountCache.Content

namespace AccountCache

structure Store where
  content : Content
  -- Counts the changes of the content.
  version : Nat
  -- Changes go to a log ahead of the file.
  wal : Bool
  deriving DecidableEq

namespace Store

def blank : Store := ⟨.blank, 0, false⟩

def commit (s : Store) (c : Content) : Store :=
  { s with content := c, version := if c = s.content then s.version else s.version + 1 }

end Store

inductive Body
  | store (s : Store)
  | foreign (bytes : Bytes)
  deriving DecidableEq

namespace Body

-- A file of at most one byte counts as an empty store.
def store? : Body → Except QueryFault Store
  | store s => .ok s
  | foreign bytes => if bytes.length ≤ 1 then .ok .blank else .error .notDatabase

def isBlank : Body → Bool
  | store _ => false
  | foreign bytes => bytes.length ≤ 1

def update (b : Body) (f : Store → Store) : Body :=
  match b.store? with
  | .ok s => store (f s)
  | .error _ => b

end Body

inductive Phase
  | idle
  -- A transaction is open and has not looked at the store.
  | begun
  | reading (seen : Content) (version : Nat)
  -- A pending draft could not be committed for readers, and lets no new ones in.
  | writing (draft : Content) (pending : Bool)
  deriving DecidableEq

namespace Phase

def isWriting : Phase → Bool
  | writing .. => true
  | _ => false

-- Whether the transaction holds on to what it has seen.
def isReading : Phase → Bool
  | reading .. | writing .. => true
  | _ => false

def isPending : Phase → Bool
  | writing _ pending => pending
  | _ => false

end Phase

structure Peers where
  present : Bool
  reading : Bool
  writing : Bool
  pending : Bool
  deriving DecidableEq

def Peers.ofPhases (phases : List Phase) : Peers where
  present := !phases.isEmpty
  reading := phases.any (·.isReading)
  writing := phases.any (·.isWriting)
  pending := phases.any (·.isPending)

-- A transaction sees the content as of its first statement, with its own changes; others see them
-- once it commits. Of the tables on a store one writes at a time, and one that has read cannot
-- write once the content has moved on. Without a log ahead of the file a commit waits for the
-- readers.
structure Connection where
  body : Body
  phase : Phase
  peers : Peers
  -- What keeps a journal from being made beside the file.
  obstacle : Option QueryFault
  deriving DecidableEq

namespace Connection

-- Whether a statement got as far as the rows, so that its transaction keeps what it saw.
def reachedRows : Except QueryFault α → Bool
  | .ok _ => true
  | .error f => f.isRowFault

def read (q : Content → Except QueryFault α) (c : Connection) : Except QueryFault α × Connection :=
  match c.phase with
  | .reading seen _ => (q seen, c)
  | .writing draft _ => (q draft, c)
  | phase =>
    match c.body.store? with
    | .error f => (.error f, c)
    | .ok s =>
      if c.peers.pending then (.error .locked, c)
      else if phase = .begun ∧ reachedRows (q s.content) then
        (q s.content, { c with phase := .reading s.content s.version })
      else (q s.content, c)

-- A change of a store without a log needs a journal, which has to lie beside its file.
def journalFault? (c : Connection) (s : Store) (before after : Content) : Option QueryFault :=
  if s.wal ∨ before = after then none else c.obstacle

-- The journal of a transaction is made with its first change.
def draftFault? (c : Connection) (draft next : Content) : Option QueryFault :=
  match c.body.store? with
  | .ok s => if draft = s.content then c.journalFault? s draft next else none
  | .error _ => none

def write (u : Content → Except QueryFault Content) (c : Connection) :
    Except QueryFault Unit × Connection :=
  match c.phase with
  | .writing draft pending =>
    match u draft with
    | .error f => (.error f, c)
    | .ok next =>
      match c.draftFault? draft next with
      | some f => (.error f, c)
      | none => (.ok (), { c with phase := .writing next pending })
  | .reading seen version =>
    match u seen, c.body.store? with
    | .error f, _ => (.error f, c)
    | _, .error f => (.error f, c)
    | .ok draft, .ok s =>
      if c.peers.writing ∨ s.version ≠ version then (.error .locked, c)
      else
        match c.journalFault? s seen draft with
        | some f => (.error f, c)
        | none => (.ok (), { c with phase := .writing draft false })
  | phase =>
    match c.body.store? with
    | .error f => (.error f, c)
    | .ok s =>
      match u s.content with
      | .error f => (.error f, c)
      | .ok draft =>
        if c.peers.writing ∨ c.peers.pending then (.error .locked, c)
        else
          match c.journalFault? s s.content draft with
          | some f => (.error f, c)
          | none =>
            if phase = .begun then (.ok (), { c with phase := .writing draft false })
            else if !s.wal ∧ c.peers.reading then (.error .locked, c)
            else (.ok (), { c with body := .store (s.commit draft) })

def inTransaction (c : Connection) : Bool := c.phase ≠ .idle

def begin (c : Connection) : Except QueryFault Unit × Connection :=
  if c.inTransaction then (.error .nestedBegin, c) else (.ok (), { c with phase := .begun })

-- Whether readers keep a draft from being written into the file.
def mustWait (c : Connection) : Bool :=
  match c.body.store? with
  | .ok s => !s.wal && c.peers.reading
  | .error _ => false

def commit (c : Connection) : Except QueryFault Unit × Connection :=
  match c.phase with
  | .idle => (.error .noTransaction, c)
  | .writing draft _ =>
    if c.mustWait then (.error .locked, { c with phase := .writing draft true })
    else (.ok (), { c with body := c.body.update (·.commit draft), phase := .idle })
  | _ => (.ok (), { c with phase := .idle })

def abort (c : Connection) : Connection := { c with phase := .idle }

end Connection
end AccountCache
