import AccountCache.Value

namespace AccountCache

inductive TableName
  | init
  | nodes
  | users
  | pcrs
  deriving DecidableEq

namespace TableName

def all : List TableName := [init, nodes, users, pcrs]

def name : TableName → String
  | init => "init"
  | nodes => "nodes"
  | users => "users"
  | pcrs => "pcrs"

def payloadColumn : TableName → String
  | init => "content"
  | nodes => "node"
  | users => "user"
  | pcrs => "pcr"

end TableName

inductive QueryFault
  -- No table or view has the name.
  | noTable (table : TableName)
  | noColumn (column : String)
  | viewModified (table : TableName)
  -- The name of a table to be created is that of an index.
  | indexNamed (table : TableName)
  | nullRefused (table : TableName) (column : String)
  -- A column holds a value of a kind that its reader does not take.
  | wrongKind (kind : Value.Kind) (index : Nat) (column : String)
  | badText (index : Nat) (fault : Text.Utf8.Fault)
  -- Another table on the store is in the way, or has moved past this one's snapshot.
  | locked
  | notDatabase
  -- The file is no longer found under its name.
  | detached
  | cannotOpen
  | diskError
  | nestedBegin
  | noTransaction
  deriving DecidableEq

namespace QueryFault

def message : QueryFault → String
  | noTable t => s!"no such table: {t.name}"
  | noColumn c => s!"no such column: {c}"
  | viewModified t => s!"cannot modify {t.name} because it is a view"
  | indexNamed t => s!"there is already an index named {t.name}"
  | nullRefused t c => s!"NOT NULL constraint failed: {t.name}.{c}"
  | wrongKind k i c => s!"Invalid column type {k.name} at index: {i}, name: {c}"
  | badText i f => s!"Conversion error from type Text at index: {i}, {f.message}"
  | locked => "database is locked"
  | notDatabase => "file is not a database"
  | detached => "attempt to write a readonly database"
  | cannotOpen => "unable to open database file"
  | diskError => "disk I/O error"
  | nestedBegin => "cannot start a transaction within a transaction"
  | noTransaction => "cannot commit - no transaction is active"

-- Faults that are found in the rows; all others are found before the first row is read.
def isRowFault : QueryFault → Bool
  | wrongKind .. => true
  | badText .. => true
  | _ => false

end QueryFault

namespace Value

def readInteger (v : Value) (index : Nat) (column : String) : Except QueryFault Int64 :=
  match v with
  | integer n => .ok n
  | v => .error (.wrongKind v.kind index column)

def readBlob (v : Value) (index : Nat) (column : String) : Except QueryFault Bytes :=
  match v with
  | blob bs => .ok bs
  | v => .error (.wrongKind v.kind index column)

def readBlob? (v : Value) (index : Nat) (column : String) : Except QueryFault (Option Bytes) :=
  match v with
  | null => .ok none
  | v => (v.readBlob index column).map some

def readText? (v : Value) (index : Nat) (column : String) : Except QueryFault (Option String) :=
  match v with
  | null => .ok none
  | text bs =>
    match Text.Utf8.decode bs with
    | .ok s => .ok (some s)
    | .error fault => .error (.badText index fault)
  | v => .error (.wrongKind v.kind index column)

end Value
end AccountCache
