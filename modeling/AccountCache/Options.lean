import AccountCache.Text.Diagnostic

namespace AccountCache

inductive JournalMode
  | wal
  | delete
  | truncate
  | persist
  deriving DecidableEq

inductive Synchronous
  | full
  | normal
  | off
  deriving DecidableEq

-- Texts are in capitals, and read whatever the case of their ASCII letters.
def readOption (all : List α) (text : α → String) (s : String) : Option α :=
  all.find? fun a => s.toUpper = text a

def unknownOption : String := "Matching variant not found"

namespace JournalMode

def all : List JournalMode := [wal, delete, truncate, persist]

def text : JournalMode → String
  | wal => "WAL"
  | delete => "DELETE"
  | truncate => "TRUNCATE"
  | persist => "PERSIST"

def name : JournalMode → String
  | wal => "Wal"
  | delete => "Delete"
  | truncate => "Truncate"
  | persist => "Persist"

def ofText? (s : String) : Option JournalMode := readOption all text s

end JournalMode

namespace Synchronous

def all : List Synchronous := [full, normal, off]

def text : Synchronous → String
  | full => "FULL"
  | normal => "NORMAL"
  | off => "OFF"

def name : Synchronous → String
  | full => "Full"
  | normal => "Normal"
  | off => "Off"

def ofText? (s : String) : Option Synchronous := readOption all text s

end Synchronous

structure StoreOptions where
  journal : JournalMode
  synchronous : Synchronous
  deriving DecidableEq

namespace StoreOptions

def default : StoreOptions := ⟨.wal, .full⟩

def debug (o : StoreOptions) : String :=
  Text.record "StoreOptions" [
    ("journal_mode", o.journal.name),
    ("synchronous", o.synchronous.name)]

end StoreOptions
end AccountCache
