import AccountCache.Selector

namespace AccountCache

inductive Truth
  | yes
  | no
  | unknown
  deriving DecidableEq

namespace Truth

def ofBool : Bool → Truth
  | true => yes
  | false => no

def and : Truth → Truth → Truth
  | no, _ | _, no => no
  | yes, yes => yes
  | _, _ => unknown

def or : Truth → Truth → Truth
  | yes, _ | _, yes => yes
  | no, no => no
  | _, _ => unknown

@[simp]
theorem ofBool_eq_yes {b : Bool} : ofBool b = yes ↔ b = true := by
  cases b <;> simp [ofBool]

theorem and_eq_yes {a b : Truth} : a.and b = yes ↔ a = yes ∧ b = yes := by
  cases a <;> cases b <;> simp [and]

theorem or_eq_yes {a b : Truth} : a.or b = yes ↔ a = yes ∨ b = yes := by
  cases a <;> cases b <;> simp [or]

end Truth

namespace Search

-- The columns that conditions look at, besides the key.
inductive Column
  | parent
  | attr
  | share
  deriving DecidableEq

-- A number in the text of the statement, or the place of one that is bound to it.
inductive Operand
  | literal (n : Int64)
  | bound (place : Nat)
  deriving DecidableEq

inductive Test
  | always
  | equal (column : Column) (operand : Operand)
  | notNull (column : Column)
  | keyFrom (bound : Operand)
  | keyPast (bound : Operand)
  deriving DecidableEq

inductive Piece
  | test (t : Test)
  | and
  | or
  | opening
  | closing
  deriving DecidableEq

-- A row as a statement sees it. Only nodes have columns besides the key and the payload.
structure Line where
  key : Key
  payload : Value
  node? : Option NodeRow

def Line.column (l : Line) (column : Column) : Value :=
  match l.node?, column with
  | none, _ => .null
  | some r, .parent => r.parent
  | some r, .attr => r.attr
  | some r, .share => r.share

-- A place to which nothing is bound holds null.
def Operand.value? (bounds : List Int64) : Operand → Option Int64
  | literal n => some n
  | bound place => bounds[place - 1]?

def Test.truth (bounds : List Int64) (l : Line) : Test → Truth
  | always => .yes
  | equal column operand =>
    match operand.value? bounds with
    | some n =>
      if (l.column column).isNull then .unknown else .ofBool ((l.column column).isInteger n)
    | none => .unknown
  | notNull column => .ofBool !(l.column column).isNull
  | keyFrom bound =>
    match bound.value? bounds with
    | some n => .ofBool (n ≤ l.key)
    | none => .unknown
  | keyPast bound =>
    match bound.value? bounds with
    | some n => .ofBool (n < l.key)
    | none => .unknown

-- A condition that has been read.
inductive Formula
  | test (t : Test)
  | and (a b : Formula)
  | or (a b : Formula)
  deriving DecidableEq

namespace Formula

def truth (bounds : List Int64) (l : Line) : Formula → Truth
  | test t => t.truth bounds l
  | and a b => (truth bounds l a).and (truth bounds l b)
  | or a b => (truth bounds l a).or (truth bounds l b)

-- A group that is being read and waits for a test: what stands before its last `or`, and what its
-- last `and` joins.
structure Group where
  before : Option Formula
  joined : Option Formula

def Group.fresh : Group := ⟨none, none⟩

-- The conjunction that a formula ends for now.
def Group.conjunction (g : Group) (f : Formula) : Formula :=
  match g.joined with
  | some a => and a f
  | none => f

-- What the group comes to if the formula is its last one.
def Group.result (g : Group) (f : Formula) : Formula :=
  match g.before with
  | some a => or a (g.conjunction f)
  | none => g.conjunction f

mutual

-- Reads on where a test or a group has to come.
def readOperand (g : Group) (outer : List Group) : List Piece → Option Formula
  | .test t :: ps => readOperator g (test t) outer ps
  | .opening :: ps => readOperand .fresh (g :: outer) ps
  | _ => none

-- Reads on after a test or a group.
def readOperator (g : Group) (f : Formula) (outer : List Group) : List Piece → Option Formula
  | [] => if outer.isEmpty then some (g.result f) else none
  | .and :: ps => readOperand { g with joined := some (g.conjunction f) } outer ps
  | .or :: ps => readOperand ⟨some (g.result f), none⟩ outer ps
  | .closing :: ps =>
    match outer with
    | o :: outer => readOperator o (g.result f) outer ps
    | [] => none
  | _ => none

end

-- Parentheses group, and a conjunction binds tighter than a disjunction.
def read (ps : List Piece) : Option Formula := readOperand .fresh [] ps

end Formula

def Operand.place : Operand → Nat
  | literal _ => 0
  | bound place => place

-- The last place that a test looks at.
def Piece.place : Piece → Nat
  | test (.equal _ o) | test (.keyFrom o) | test (.keyPast o) => o.place
  | _ => 0

end Search

-- A statement that looks for the first row, in the order of keys, for which its condition is true.
structure Search where
  table : TableName
  key : String
  payload : String
  condition : List Search.Piece

namespace Search

def arity (q : Search) : Nat := (q.condition.map (·.place)).foldr max 0

def lines (q : Search) (c : Content) : Except QueryFault (List Line) :=
  let columns := [q.key, q.payload]
  match q.table with
  | .init => (c.init.select .init columns).map (·.toList.map fun r => ⟨r.1, r.2, none⟩)
  | .nodes =>
    (c.nodes.select .nodes columns).map (·.toList.map fun r => ⟨r.1, r.2.payload, some r.2⟩)
  | .users => (c.users.select .users columns).map (·.toList.map fun r => ⟨r.1, r.2, none⟩)
  | .pcrs => (c.pcrs.select .pcrs columns).map (·.toList.map fun r => ⟨r.1, r.2, none⟩)

-- There is no answer if the condition cannot be read or another number of values is bound.
def run (q : Search) (bounds : List Int64) (c : Content) :
    Option (Except QueryFault (Option (Key × Bytes))) :=
  if q.arity ≠ bounds.length then none
  else (Formula.read q.condition).map fun f => do
    let lines ← q.lines c
    match lines.find? fun l => f.truth bounds l = .yes with
    | some l =>
      let payload ← l.payload.readBlob 1 q.payload
      return some (l.key, payload)
    | none => return none

end Search

structure Query where
  table : TableName
  key : String
  payload : String
  predicate : List Search.Piece
  parent : Option Handle

namespace Query

open Search (Piece Test)

-- The predicate is a group of its own next to the bound on keys.
def search (q : Query) (bound : Test) : Search where
  table := q.table
  key := q.key
  payload := q.payload
  condition := [.opening] ++ q.predicate ++ [.closing, .and, .test bound]

-- The first step takes the least key in, and all others go past the last one.
def boundTest : Option Key → Test
  | none => .keyFrom (.bound 1)
  | some _ => .keyPast (.bound 1)

def bounds (q : Query) (last : Option Key) : List Int64 :=
  last.getD Int64.minValue :: q.parent.toList.map Handle.key

def run (q : Query) (last : Option Key) (c : Content) :
    Option (Except QueryFault (Option (Key × Bytes))) :=
  (q.search (boundTest last)).run (q.bounds last) c

end Query

namespace Selector

open Search

def sharePredicate (state : Share) (parent : Option Handle) (scope : Scope) : List Piece :=
  let single := .test (.equal .share (.literal state.code))
  let combined := .test (.equal .share (.literal Share.outgoingAndPending.code))
  let under := .test (.equal .parent (.bound 2))
  match parent, scope with
  | none, _ => [single, .or, combined]
  | some _, .parent => [under, .and, .opening, single, .or, combined, .closing]
  | some _, .unscopedCombined => [under, .and, single, .or, combined]

def nodesQuery (predicate : List Piece) (parent : Option Handle) : Query :=
  ⟨.nodes, "nodehandle", "node", predicate, parent⟩

def query : Selector → Query
  | users => ⟨.users, "userhandle", "user", [.test .always], none⟩
  | pendingContacts => ⟨.pcrs, "id", "pcr", [.test .always], none⟩
  | children p => nodesQuery [.test (.equal .parent (.bound 2))] (some p)
  | encryptedNodes => nodesQuery [.test (.notNull .attr)] none
  | outShares p scope => nodesQuery (sharePredicate .outgoing p scope) p
  | pendingShares p scope => nodesQuery (sharePredicate .pending p scope) p

end Selector

end AccountCache
