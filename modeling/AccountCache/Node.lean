import AccountCache.Handle
import AccountCache.Share
import AccountCache.QueryFault
import AccountCache.Text.Diagnostic
import AccountCache.Text.Quoted

namespace AccountCache

structure NodeRecord where
  handle : Handle
  parent : Handle
  fingerprint : Option Bytes
  attr : Option String
  share : Share
  payload : Bytes
  deriving DecidableEq

structure NodeRow where
  parent : Value
  fingerprint : Value
  attr : Value
  share : Value
  payload : Value
  deriving DecidableEq

-- A row whose columns have been read, while the share code is still any number.
structure StoredNode where
  handle : Handle
  parent : Handle
  fingerprint : Option Bytes
  attr : Option String
  shareCode : Int64
  payload : Bytes
  deriving DecidableEq

namespace NodeRecord

def isFolder (r : NodeRecord) : Bool := r.fingerprint.all List.isEmpty

-- An empty fingerprint is stored as none, like that of a folder.
def mark (r : NodeRecord) : Option Bytes := r.fingerprint.filter (!·.isEmpty)

def row (r : NodeRecord) : NodeRow where
  parent := .integer (Handle.key r.parent)
  fingerprint := .ofOption .blob r.mark
  attr := .ofOption .ofString r.attr
  share := .integer r.share.code
  payload := .blob r.payload

end NodeRecord

-- Reads the columns in their order; the first one of the wrong kind is the fault.
def NodeRow.read (r : NodeRow) (k : Key) : Except QueryFault StoredNode := do
  let parent ← r.parent.readInteger 1 "parenthandle"
  let fingerprint ← r.fingerprint.readBlob? 2 "fingerprint"
  let attr ← r.attr.readText? 3 "attrstring"
  let shareCode ← r.share.readInteger 4 "shared"
  let payload ← r.payload.readBlob 5 "node"
  return { handle := Key.handle k, parent := Key.handle parent, fingerprint, attr,
           shareCode, payload }

def StoredNode.record (n : StoredNode) (share : Share) : NodeRecord where
  handle := n.handle
  parent := n.parent
  fingerprint := n.fingerprint
  attr := n.attr
  share := share
  payload := n.payload

namespace NodeRecord

def debug (r : NodeRecord) : String :=
  Text.record "NodeRecord" [
    ("handle", toString r.handle),
    ("parent", toString r.parent),
    ("fingerprint", Text.option (Text.list toString) r.fingerprint),
    ("attr_string", Text.option Text.quoted r.attr),
    ("share", r.share.name),
    ("payload", Text.list toString r.payload)]

end NodeRecord
end AccountCache
