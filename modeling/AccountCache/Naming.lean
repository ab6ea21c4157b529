import AccountCache.Failure

namespace AccountCache

-- The file of the store `name` is `root`/`lead``name``extension`.
structure Naming where
  root : String
  lead : String
  extension : String
  deriving DecidableEq

namespace Naming

def defaultLead : String := "megaclient_statecache7_"

def defaultExtension : String := ".db"

def under (root : String) : Naming := ⟨root, defaultLead, defaultExtension⟩

def isSeparator (c : Char) : Bool := c = '/' || c = '\\' || c = '\x00'

def accepts (name : String) : Bool :=
  name ≠ "" && !name.toList.any isSeparator && name ≠ ".."

-- A file in a directory; an absolute file name stands for itself.
def join (directory file : String) : String :=
  if file.startsWith "/" then file
  else if directory = "" ∨ directory.endsWith "/" then directory ++ file
  else directory ++ "/" ++ file

def fileName (n : Naming) (name : String) : String := n.lead ++ name ++ n.extension

def path (n : Naming) (name : String) : Except Failure String :=
  if accepts name then .ok (join n.root (n.fileName name)) else .error (.invalidName name)

theorem path_eq_ok_iff {n : Naming} {name p : String} :
    n.path name = .ok p ↔ accepts name = true ∧ join n.root (n.fileName name) = p := by
  unfold path
  split <;> simp_all

theorem eq_invalidName_of_path {n : Naming} {name : String} {f : Failure}
    (h : n.path name = .error f) : f = .invalidName name := by
  unfold path at h
  split at h <;> cases h
  rfl

end Naming

def walPath (path : String) : String := path ++ "-wal"

def shmPath (path : String) : String := path ++ "-shm"

end AccountCache
