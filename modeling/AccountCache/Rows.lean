import AccountCache.Handle

namespace AccountCache

@[ext]
structure Rows (α : Type) where
  toList : List (Key × α)
  ordered : toList.Pairwise (·.1 < ·.1)
  deriving DecidableEq

namespace Rows

variable {α : Type}

def empty : Rows α := ⟨[], .nil⟩

def get? (rows : Rows α) (k : Key) : Option α :=
  (rows.toList.find? (·.1 = k)).map (·.2)

def insert (k : Key) (a : α) : List (Key × α) → List (Key × α)
  | [] => [(k, a)]
  | r :: rs =>
    if k < r.1 then (k, a) :: r :: rs
    else if k = r.1 then (k, a) :: rs
    else r :: insert k a rs

theorem mem_insert {k : Key} {a : α} {r : Key × α} {rs : List (Key × α)} (h : r ∈ insert k a rs) :
    r = (k, a) ∨ r ∈ rs := by
  fun_induction insert k a rs <;> grind

theorem insert_ordered {k : Key} {a : α} {rs : List (Key × α)} (h : rs.Pairwise (·.1 < ·.1)) :
    (insert k a rs).Pairwise (·.1 < ·.1) := by
  fun_induction insert k a rs with
  | case1 => simp
  | case2 r rs hk =>
    refine .cons (fun s hs => ?_) h
    cases hs with
    | head => exact hk
    | tail _ hs => exact Int64.lt_trans hk ((List.pairwise_cons.1 h).1 s hs)
  | case3 r rs _ hk =>
    exact hk ▸ .cons (fun s hs => (List.pairwise_cons.1 h).1 s hs) (List.pairwise_cons.1 h).2
  | case4 r rs hlt hne ih =>
    have hr : r.1 < k := Int64.lt_of_le_of_ne (Int64.not_lt.1 hlt) (Ne.symm hne)
    refine .cons (fun s hs => ?_) (ih (List.pairwise_cons.1 h).2)
    cases mem_insert hs with
    | inl hs => exact hs ▸ hr
    | inr hs => exact (List.pairwise_cons.1 h).1 s hs

def put (rows : Rows α) (k : Key) (a : α) : Rows α :=
  ⟨insert k a rows.toList, insert_ordered rows.ordered⟩

def erase (rows : Rows α) (k : Key) : Rows α :=
  ⟨rows.toList.filter (·.1 ≠ k), rows.ordered.filter _⟩

-- Past no bound lies every key.
def isPast (bound : Option Key) (k : Key) : Bool :=
  match bound with
  | none => true
  | some b => b < k

def next? (rows : Rows α) (p : Key → α → Bool) (bound : Option Key) : Option (Key × α) :=
  rows.toList.find? fun r => isPast bound r.1 && p r.1 r.2

def filter (rows : Rows α) (p : Key → α → Bool) : List (Key × α) :=
  rows.toList.filter fun r => p r.1 r.2

def count (rows : Rows α) (p : Key → α → Bool) : Nat := (rows.filter p).length

def all (rows : Rows α) (p : Key → α → Bool) : Bool := rows.toList.all fun r => p r.1 r.2

end Rows
end AccountCache
