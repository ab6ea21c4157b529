import AccountCache.Entropy
import AccountCache.Table

namespace AccountCache

structure HandleKeys where
  node : Bytes
  parent : Bytes
  deriving DecidableEq

-- Keys stay out of what diagnostics show.
def HandleKeys.debug (_ : HandleKeys) : String := Text.partRecord "HandleKeys" []

namespace HandleKeyKind

def all : List HandleKeyKind := [node, parent]

-- What the seal of the key is bound to.
def associated : HandleKeyKind → Bytes
  | node => Bytes.ofString "statecache:node-handle-key"
  | parent => Bytes.ofString "statecache:parent-handle-key"

end HandleKeyKind

def decodeHandleKey (text : Bytes) : Except HandleKeyFault Bytes :=
  match Text.Base64Url.decode text with
  | .error f => .error (.encoding f)
  | .ok key => if key.length = handleKeyLength then .ok key else .error (.length key.length)

namespace Table

def readHandleKey (kind : HandleKeyKind) : Action Bytes := fun t =>
  match scalar (.handleKey kind) t with
  | (.error f, t) => (.error f, t)
  | (.ok none, t) => (.error (.missingHandleKey (.handleKey kind)), t)
  | (.ok (some sealed), t) =>
    let (r, key) := t.key.unwrap kind.associated sealed
    let t := { t with key }
    match r with
    | .error reason => (.error (.unsealing reason), t)
    | .ok text => ((decodeHandleKey text).mapError (.handleKey (.handleKey kind)), t)

def readHandleKeys : Action HandleKeys := fun t =>
  match readHandleKey .node t with
  | (.error f, t) => (.error f, t)
  | (.ok node, t) =>
    match readHandleKey .parent t with
    | (.error f, t) => (.error f, t)
    | (.ok parent, t) => (.ok ⟨node, parent⟩, t)

def provisionKey (kind : HandleKeyKind) (e : Entropy) (t : Table) :
    Except Failure Unit × Table × Entropy :=
  let (key, e) := e.draw handleKeyLength
  let (nonce, e) := e.draw t.key.key.nonceLength
  let (r, holder) := t.key.wrap nonce kind.associated (Text.Base64Url.encode key)
  let t := { t with key := holder }
  match r with
  | .error reason => (.error (.sealing reason), t, e)
  | .ok sealed =>
    let (r, conn) := t.conn.write (Content.putScalar (.handleKey kind) sealed)
    (r.mapError .storing, { t with conn }, e)

def provisionKeys : List HandleKeyKind → Entropy → Table → Except Failure Unit × Table × Entropy
  | [], e, t => (.ok (), t, e)
  | kind :: kinds, e, t =>
    match provisionKey kind e t with
    | (.error f, t, e) => (.error f, t, e)
    | (.ok _, t, e) => provisionKeys kinds e t

-- Both keys are stored, or neither is.
def provision (e : Entropy) (t : Table) : Except Failure Unit × Table × Entropy :=
  match provisionKeys HandleKeyKind.all e { t with conn := { t.conn with phase := .begun } } with
  | (.error f, t, e) => (.error f, (abort t).2, e)
  | (.ok _, t, e) =>
    match t.conn.commit with
    | (.error f, conn) => (.error (.provisioning f), (abort { t with conn }).2, e)
    | (.ok _, conn) => (.ok (), { t with conn }.note .debug "provisioned handle keys", e)

end Table
end AccountCache
