import AccountCache.QueryFault
import AccountCache.Share
import AccountCache.Slot
import AccountCache.Text.Base64Url
import AccountCache.Text.Quoted

namespace AccountCache

inductive FileFault
  | notFound
  | exists
  | notDirectory
  | isDirectory
  | nameTooLong
  deriving DecidableEq

def FileFault.message : FileFault → String
  | notFound => "No such file or directory (os error 2)"
  | «exists» => "File exists (os error 17)"
  | notDirectory => "Not a directory (os error 20)"
  | isDirectory => "Is a directory (os error 21)"
  | nameTooLong => "File name too long (os error 36)"

inductive OpenFault
  | directory (root : String) (fault : FileFault)
  -- No file can be opened or made under the path.
  | unopenable (path : String)
  | unreadable (path : String) (fault : QueryFault)
  deriving DecidableEq

def OpenFault.message : OpenFault → String
  | directory root f => "create " ++ root ++ ": " ++ f.message
  | unopenable path => path ++ ": unable to open database file: " ++ path
  | unreadable path f => path ++ ": " ++ f.message

inductive HandleKeyFault
  | encoding (fault : Text.Base64Url.Fault)
  | length (n : Nat)
  deriving DecidableEq

-- Length in bytes of each handle key.
def handleKeyLength : Nat := 16

def HandleKeyFault.message (slot : Slot) : HandleKeyFault → String
  | encoding f => s!"slot {slot.number}: {f.message}"
  | length n => s!"slot {slot.number} length mismatch: expected {handleKeyLength}, got {n}"

-- What a report begins with when its text is free.
inductive Title
  | «open»
  | schemaInit
  | keyProvisioning
  | query
  | crypto
  | keyDecode
  | io
  deriving DecidableEq

namespace Title

def all : List Title := [.open, schemaInit, keyProvisioning, query, crypto, keyDecode, io]

def name : Title → String
  | «open» => "Open"
  | schemaInit => "SchemaInit"
  | keyProvisioning => "KeyProvisioning"
  | query => "Query"
  | crypto => "Crypto"
  | keyDecode => "KeyDecode"
  | io => "Io"

def heading : Title → String
  | «open» => "failed to open state cache: "
  | schemaInit => "schema initialization failed: "
  | keyProvisioning => "handle key provisioning failed: "
  | query => "query failed: "
  | crypto => "crypto error: "
  | keyDecode => "handle key decode error: "
  | io => "io error: "

end Title

-- A failure names its cause; its report is what callers see.
inductive Report
  | titled (title : Title) (text : String)
  | missingHandleKey (slot : Slot)
  | reservedSlot (slot : Slot)
  | invalidName (name : String)
  | invalidShareState (code : Int64)
  deriving DecidableEq

namespace Report

def kind : Report → String
  | titled t _ => t.name
  | missingHandleKey _ => "MissingHandleKey"
  | reservedSlot _ => "ReservedSlot"
  | invalidName _ => "InvalidName"
  | invalidShareState _ => "InvalidShareState"

def message : Report → String
  | titled t text => t.heading ++ text
  | missingHandleKey s => s!"handle key missing from slot {s.number}"
  | reservedSlot s => s!"slot {s.number} is reserved for handle keys"
  | invalidName n => "invalid store name: " ++ Text.quoted n
  | invalidShareState n => s!"invalid share state: {n}"

def debug (r : Report) : String :=
  let argument :=
    match r with
    | titled _ text => Text.quoted text
    | missingHandleKey s => s.name
    | reservedSlot s => s.name
    | invalidName n => Text.quoted n
    | invalidShareState n => toString n
  r.kind ++ "(" ++ argument ++ ")"

end Report

inductive Failure
  | opening (fault : OpenFault)
  | schema (fault : QueryFault)
  -- The master key would not seal a new handle key.
  | sealing (reason : Report)
  | storing (fault : QueryFault)
  -- The transaction around the new handle keys would not begin or end.
  | provisioning (fault : QueryFault)
  | query (fault : QueryFault)
  -- The master key would not open what is in a slot.
  | unsealing (reason : Report)
  | handleKey (slot : Slot) (fault : HandleKeyFault)
  | missingHandleKey (slot : Slot)
  | reservedSlot (slot : Slot)
  | invalidName (name : String)
  | invalidShareState (code : Int64)
  | file (path : String) (fault : FileFault)
  deriving DecidableEq

namespace Failure

def report : Failure → Report
  | opening f => .titled .open f.message
  | schema f => .titled .schemaInit f.message
  | sealing reason => .titled .keyProvisioning reason.message
  | storing f => .titled .keyProvisioning (Title.query.heading ++ f.message)
  | provisioning f => .titled .keyProvisioning f.message
  | query f => .titled .query f.message
  | unsealing reason => reason
  | handleKey s f => .titled .keyDecode (f.message s)
  | missingHandleKey s => .missingHandleKey s
  | reservedSlot s => .reservedSlot s
  | invalidName n => .invalidName n
  | invalidShareState n => .invalidShareState n
  | file path f => .titled .io (path ++ ": " ++ f.message)

def kind (f : Failure) : String := f.report.kind

def message (f : Failure) : String := f.report.message

end Failure

def Share.decode (code : Int64) : Except Failure Share :=
  match ofCode? code with
  | some share => .ok share
  | Option.none => .error (.invalidShareState code)

end AccountCache
