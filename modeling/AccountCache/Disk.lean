import AccountCache.Failure

namespace AccountCache

-- The names from the top directory down.
abbrev Place := List String

namespace Place

def split : List Char → List (List Char)
  | [] => [[]]
  | c :: cs =>
    if c = '/' then [] :: split cs
    else
      match split cs with
      | [] => [[c]]
      | part :: parts => (c :: part) :: parts

-- The steps that a path takes; empty parts and single dots take none.
def steps (path : String) : List String :=
  ((split path.toList).map String.ofList).filter fun part => part ≠ "" ∧ part ≠ "."

-- In bytes.
def maxNameLength : Nat := 255

def isTooLong (name : String) : Bool := maxNameLength < name.utf8ByteSize

end Place

inductive Link
  | directory
  | file (body : Nat)
  deriving DecidableEq

-- A file is a link to a body, so that a body stays for those who hold it when its link is gone.
structure Disk (β : Type) where
  links : List (Place × Link)
  bodies : List β

namespace Disk

variable {β : Type}

-- What is at a place. The top directory is always there.
def link? (d : Disk β) : Place → Option Link
  | [] => some .directory
  | p => d.links.lookup p

-- Follows steps from a place. All but the last must lead to directories; two dots go back.
def follow (d : Disk β) (at_ : Place) : List String → Except FileFault Place
  | [] => .ok at_
  | step :: steps =>
    match d.link? at_ with
    | none => .error .notFound
    | some (.file _) => .error .notDirectory
    | some .directory =>
      if step = ".." then d.follow at_.dropLast steps
      else if Place.isTooLong step then .error .nameTooLong
      else d.follow (at_ ++ [step]) steps

-- The place that a path leads to; nothing needs to be there yet.
def place (d : Disk β) (path : String) : Except FileFault Place := d.follow [] (Place.steps path)

def find? (d : Disk β) (path : String) : Option Link :=
  match d.place path with
  | .ok p => d.link? p
  | .error _ => none

def file? (d : Disk β) (path : String) : Option Nat :=
  match d.find? path with
  | some (.file body) => some body
  | _ => none

-- Makes a directory where nothing is. A directory that is there already will do.
def makeDirectory (steps : List String) (d : Disk β) : Except FileFault Unit × Disk β :=
  match d.follow [] steps with
  | .error f => (.error f, d)
  | .ok p =>
    match d.link? p with
    | none => (.ok (), { d with links := (p, .directory) :: d.links })
    | some .directory => (.ok (), d)
    | some (.file _) => (.error .exists, d)

-- Makes a directory, whose steps are given last first, and those that lead to it.
def makeDirectories : List String → Disk β → Except FileFault Unit × Disk β
  | [], d => (.ok (), d)
  | step :: back, d =>
    match makeDirectory (step :: back).reverse d with
    | (.error .notFound, d) =>
      match makeDirectories back d with
      | (.error f, d) => (.error f, d)
      | (.ok _, d) => makeDirectory (step :: back).reverse d
    | r => r

def makePath (path : String) (d : Disk β) : Except FileFault Unit × Disk β :=
  makeDirectories (Place.steps path).reverse d

-- The file at a path, made with the given body if nothing is there.
def openFile (path : String) (fresh : β) (d : Disk β) : Except FileFault (Nat × Disk β) := do
  let p ← d.place path
  match d.link? p with
  | some (.file body) => return (body, d)
  | some .directory => throw .isDirectory
  | none =>
    return (d.bodies.length,
      { links := (p, .file d.bodies.length) :: d.links, bodies := d.bodies ++ [fresh] })

-- A body that no path leads to.
def addBody (fresh : β) (d : Disk β) : Nat × Disk β :=
  (d.bodies.length, { d with bodies := d.bodies ++ [fresh] })

def setBody (body : Nat) (b : β) (d : Disk β) : Disk β :=
  { d with bodies := d.bodies.set body b }

def unlink (path : String) (d : Disk β) : Except FileFault (Disk β) := do
  let p ← d.place path
  match d.link? p with
  | some (.file _) => return { d with links := d.links.filter (·.1 ≠ p) }
  | some .directory => throw .isDirectory
  | none => throw .notFound

-- The names of what lies in a directory.
def names (p : Place) (d : Disk β) : List String :=
  d.links.filterMap fun l =>
    match l.1.getLast? with
    | some name => if l.1.dropLast = p then some name else none
    | none => none

end Disk
end AccountCache
