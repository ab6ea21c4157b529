import AccountCache.Content.Edit
import AccountCache.Host
import AccountCache.Naming
import AccountCache.Table.Opening

namespace AccountCache.Host

def memoryPath : String := ":memory:"

-- The body at the path of a store, made if there is none.
def locate (path : String) (h : Host) : Except OpenFault (Nat × Host) :=
  if path = memoryPath then
    let (body, disk) := h.disk.addBody (.foreign [])
    .ok (body, { h with disk })
  else
    match h.disk.openFile path (.foreign []) with
    | .ok (body, disk) => .ok (body, { h with disk })
    | .error _ => .error (.unopenable path)

def dropFile (path : String) (h : Host) : Host :=
  match h.disk.unlink path with
  | .ok disk => { h with disk }
  | .error _ => h

def isOccupied (h : Host) (path : String) : Bool :=
  match h.disk.find? path with
  | some .directory => true
  | some (.file body) => h.body body ≠ .foreign []
  | none => false

-- Whether what lies in the place of its journal keeps a file from being looked at.
def isJammed (path : String) (body : Nat) (h : Host) : Bool :=
  !(h.body body).isBlank && h.disk.find? (journalPath path) = some .directory

-- A log that is found beside a file belongs to no table: beside an empty file it is deleted, and
-- beside another one it is taken over with its index.
def adoptLog (path : String) (body : Nat) (h : Host) : Except QueryFault Host :=
  if path = memoryPath then .ok h
  else if h.isJammed path body then .error .diskError
  else if !h.isOccupied (walPath path) then .ok h
  else if h.disk.find? (walPath path) = some .directory then
    .error (if (h.body body).isBlank then .diskError else .cannotOpen)
  else if (h.body body).isBlank then .ok (h.dropFile (walPath path))
  else .ok ((h.dropFile (walPath path)).dropFile (shmPath path))

-- A store with a log has its own files in the place of any that lie there.
def claimSidecars (s : Seat) (h : Host) : Host :=
  if h.keepsLog s then (h.dropFile (walPath s.path)).dropFile (shmPath s.path) else h

-- Opens the store `name` under a label, and makes it if there is none.
def openNamed (label : String) (n : Naming) (o : StoreOptions) (name key : String) (h : Host) :
    Except Failure Unit × Host :=
  match n.path name with
  | .error f => (.error f, h)
  | .ok path =>
    match h.disk.makePath n.root with
    | (.error f, disk) => (.error (.opening (.directory n.root f)), { h with disk })
    | (.ok _, disk) =>
      match locate path { h with disk } with
      | .error f => (.error (.opening f), { h with disk })
      | .ok (body, h) =>
        match adoptLog path body h with
        | .error f => (.error (.opening (.unreadable path f)), h)
        | .ok h =>
          let inMemory := path = memoryPath
          let s : Seat := { path, body, inMemory, key, phase := .idle, cursor := .idle }
          match (h.assemble label s).conn.read fun _ => .ok () with
          | (.error f, _) => (.error (.opening (.unreadable path f)), h)
          | (.ok _, _) =>
            let (r, t, entropy) := (h.assemble label s).prepare o inMemory h.entropy
            let opened := claimSidecars s { h.restore label s t with entropy }
            match r with
            | .ok _ => (.ok (), opened)
            | .error f => (.error f, { opened with seats := h.seats })

-- Opens a store in the place of a table that may be open under the label.
def «open» (label : String) (n : Naming) (o : StoreOptions) (name key : String) (h : Host) :
    Except Failure Unit × Host :=
  openNamed label n o name key (h.close label).2

-- Deletes files in order, up to the first that is there and cannot be deleted.
def deleteFiles : List String → Host → Except Failure Unit × Host
  | [], h => (.ok (), h)
  | path :: paths, h =>
    match h.disk.unlink path with
    | .ok disk => deleteFiles paths { h with disk }
    | .error .notFound => deleteFiles paths h
    | .error f => (.error (.file path f), h)

def storeFiles (path : String) : List String := [path, walPath path, shmPath path]

-- Deletes the files of a store that is not open.
def discard (n : Naming) (name : String) (h : Host) : Except Failure Unit × Host :=
  match n.path name with
  | .error f => (.error f, h)
  | .ok path =>
    match deleteFiles (storeFiles path) h with
    | (.error f, h) => (.error f, h)
    | (.ok _, h) => (.ok (), h.note .debug ("state cache discarded: " ++ path))

-- Closes a table and deletes its files.
def remove (label : String) (h : Host) : Option (Except Failure Unit) × Host :=
  match h.seat? label with
  | none => (none, h)
  | some s =>
    match deleteFiles (storeFiles s.path) (h.close label).2 with
    | (.error f, h) => (some (.error f), h)
    | (.ok _, h) => (some (.ok ()), h.note .debug ("state cache removed: " ++ s.path))

def makeEdit (e : Edit) (c : Connection) : Except QueryFault Unit × Connection :=
  match c.read fun content => .ok (e.isDone content) with
  | (.error f, c) => (.error f, c)
  | (.ok true, c) => (.ok (), c)
  | (.ok false, c) => c.write e.apply

def editAll : List Edit → Connection → Except QueryFault Unit × Connection
  | [], c => (.ok (), c)
  | e :: es, c =>
    match makeEdit e c with
    | (.ok _, c) => editAll es c
    | (.error f, c) => (.error f, c)

-- Another program edits the store `name`, and makes its file if there is none.
def edit (n : Naming) (name : String) (edits : List Edit) (h : Host) : Except Failure Unit × Host :=
  match n.path name with
  | .error f => (.error f, h)
  | .ok path =>
    match h.disk.makePath n.root with
    | (.error f, disk) => (.error (.opening (.directory n.root f)), { h with disk })
    | (.ok _, disk) =>
      match locate path { h with disk } with
      | .error f => (.error (.opening f), { h with disk })
      | .ok (body, h) =>
        match if edits.isEmpty then .ok h else adoptLog path body h with
        | .error f => (.error (.query f), h)
        | .ok h =>
          let conn : Connection := {
            body := h.body body
            phase := .idle
            peers := .ofPhases ((h.seatsOn body).map (·.2.phase))
            obstacle := if path = memoryPath then none else h.obstacle path body }
          let (r, conn) := editAll edits conn
          (r.mapError .query, { h with disk := h.disk.setBody body conn.body })

def parentSteps (path : String) : List String := (Place.steps path).dropLast

-- Another program writes a file, and makes the directories that lead to it.
def writeFile (path : String) (bytes : Bytes) (h : Host) : Except FileFault Unit × Host :=
  match h.disk.makeDirectories (parentSteps path).reverse with
  | (.error f, disk) => (.error f, { h with disk })
  | (.ok _, disk) =>
    match disk.openFile path (.foreign bytes) with
    | .error f => (.error f, { h with disk })
    | .ok (body, disk) => (.ok (), { h with disk := disk.setBody body (.foreign bytes) })

def makeDirectory (path : String) (h : Host) : Except FileFault Unit × Host :=
  let (r, disk) := h.disk.makePath path
  (r, { h with disk })

end AccountCache.Host
