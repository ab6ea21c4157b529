import AccountCache.Table.HandleKeys

namespace AccountCache

inductive Ending
  | commit
  | drop
  deriving DecidableEq

namespace Table

-- A failed commit is undone.
def finish (ending : Ending) : Action Unit := fun t =>
  match ending with
  | .drop => abort t
  | .commit =>
    match commit t with
    | (.ok _, t) => (.ok (), t)
    | (.error f, t) => (.error f, (abort t).2)

-- Runs steps in a transaction of their own. The guard fails if the transaction cannot begin;
-- otherwise it gives what the steps gave and how it ended.
def guarded (steps : Table → α × Table) (ending : Ending) : Action (α × Except Failure Unit) :=
  fun t =>
    match begin t with
    | (.error f, t) => (.error f, t)
    | (.ok _, t) =>
      let (a, t) := steps t
      let (e, t) := finish ending t
      (.ok (a, e), t)

def guardDebug : String := Text.partRecord "TableTransaction" [("committed", toString false)]

end Table

inductive Op
  | scalar (s : Slot)
  | putScalar (s : Slot) (bytes : Bytes)
  | readHandleKeys
  | nodePayload (h : Handle)
  | fingerprintPayload (fingerprint : Bytes)
  | nodeRecord (h : Handle)
  | countChildren (kind : Content.ChildKind) (parent : Handle)
  | putNode (r : NodeRecord)
  | deleteNode (h : Handle)
  | putUser (h : Handle) (bytes : Bytes)
  | deleteUser (h : Handle)
  | putContact (h : Handle) (bytes : Bytes)
  | deleteContact (h : Handle)
  | startCursor (s : Selector)
  | advance
  | advanceHandle
  | begin
  | commit
  | abort
  | truncate
  | checkIntegrity
  | guarded (steps : List Op) (ending : Ending)

inductive Reply
  | done
  | bytes (b : Option Bytes)
  | handle (h : Option Handle)
  | record (r : Option NodeRecord)
  | count (n : Nat)
  | keys (k : HandleKeys)
  | flag (b : Bool)
  | guarded (steps : List (Except Failure Reply)) (ending : Except Failure Unit)

namespace Op

def answer (f : α → Reply) (a : Action α) : Action Reply := fun t =>
  let (r, t) := a t
  (r.map f, t)

def done : Action Unit → Action Reply := answer fun _ => .done

mutual

def run : Op → Action Reply
  | scalar s => answer .bytes (Table.scalar s)
  | putScalar s bytes => done (Table.putScalar s bytes)
  | readHandleKeys => answer .keys Table.readHandleKeys
  | nodePayload h => answer .bytes (Table.nodePayload h)
  | fingerprintPayload fingerprint => answer .bytes (Table.fingerprintPayload fingerprint)
  | nodeRecord h => answer .record (Table.nodeRecord h)
  | countChildren kind parent => answer .count (Table.countChildren kind parent)
  | putNode r => done (Table.putNode r)
  | deleteNode h => done (Table.deleteNode h)
  | putUser h bytes => done (Table.putUser h bytes)
  | deleteUser h => done (Table.deleteUser h)
  | putContact h bytes => done (Table.putContact h bytes)
  | deleteContact h => done (Table.deleteContact h)
  | startCursor s => done (Table.startCursor s)
  | advance => answer .bytes Table.advance
  | advanceHandle => answer .handle Table.advanceHandle
  | begin => done Table.begin
  | commit => done Table.commit
  | abort => done Table.abort
  | truncate => done Table.truncate
  | checkIntegrity => answer .flag Table.checkIntegrity
  | guarded steps ending =>
    answer (fun r => .guarded r.1 r.2) (Table.guarded (runAll steps) ending)

-- Runs operations one after the other, whatever they answer.
def runAll : List Op → Table → List (Except Failure Reply) × Table
  | [], t => ([], t)
  | op :: ops, t =>
    let (r, t) := run op t
    let (rs, t) := runAll ops t
    (r :: rs, t)

end

end Op
end AccountCache
