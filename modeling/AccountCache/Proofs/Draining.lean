import AccountCache.Proofs.Enumeration
import AccountCache.Proofs.Search
import AccountCache.Proofs.Schema

namespace AccountCache

-- Keys whose handles lie in the upper half are the negative ones.
theorem Key.upper_half {k : Key} : 0x8000000000000000 ≤ Key.handle k ↔ k < 0 := by
  have hk : k.toInt = k.toBitVec.toInt := rfl
  have hh : (Key.handle k).toNat = k.toBitVec.toNat := rfl
  have hb := k.toBitVec.isLt
  rw [Int64.lt_iff_toInt_lt, UInt64.le_iff_toNat_le, hk, hh, BitVec.toInt_eq_toNat_cond]
  simp only [UInt64.reduceToNat, Int64.reduceToInt]
  split <;> omega

namespace Selector

variable {s : Selector} {c : Content} {k : Key} {v : Value}

-- What the plain query for a selector says of a node. Columns are compared as the store compares
-- them, and share states are given by their codes.
def Picks : Selector → NodeRow → Prop
  | users, _ | pendingContacts, _ => False
  | children p, r => r.parent.isInteger p.key
  | encryptedNodes, r => r.attr ≠ .null
  | outShares none _, r => r.share.isInteger 1 ∨ r.share.isInteger 4
  | outShares (some p) .parent, r =>
    r.parent.isInteger p.key ∧ (r.share.isInteger 1 ∨ r.share.isInteger 4)
  | outShares (some p) .unscopedCombined, r =>
    (r.parent.isInteger p.key ∧ r.share.isInteger 1) ∨ r.share.isInteger 4
  | pendingShares none _, r => r.share.isInteger 3 ∨ r.share.isInteger 4
  | pendingShares (some p) .parent, r =>
    r.parent.isInteger p.key ∧ (r.share.isInteger 3 ∨ r.share.isInteger 4)
  | pendingShares (some p) .unscopedCombined, r =>
    (r.parent.isInteger p.key ∧ r.share.isInteger 3) ∨ r.share.isInteger 4

-- The plain query: which keys and payloads of the content a selector is about.
def Selects (s : Selector) (c : Content) (k : Key) (v : Value) : Prop :=
  match s with
  | users           => c.users.rows.get? k = some v
  | pendingContacts => c.pcrs.rows.get? k = some v
  | s               => ∃ r, c.nodes.rows.get? k = some r ∧ s.Picks r ∧ r.payload = v

theorem picks_iff (hs : s.table = .nodes) (r : NodeRow) : s.Picks r ↔ s.matchesNode r = true := by
  match s with
  | children _ => rfl
  | encryptedNodes => cases h : r.attr <;> simp [Picks, matchesNode, h, Value.isNull, Value.kind]
  | outShares none _ | outShares (some _) .parent | outShares (some _) .unscopedCombined =>
    simp [Picks, matchesNode, sharesMatch, Share.code]
  | pendingShares none _ | pendingShares (some _) .parent |
    pendingShares (some _) .unscopedCombined =>
    simp [Picks, matchesNode, sharesMatch, Share.code]

theorem selects_iff : s.Selects c k v ↔ s.row? c k = some v := by
  have node (hs : s.table = .nodes) : (∃ r, c.nodes.rows.get? k = some r ∧ s.Picks r ∧
      r.payload = v) ↔
      ((c.nodes.rows.get? k).filter s.matchesNode).map (·.payload) = some v := by
    simp only [picks_iff hs, Option.map_eq_some_iff, Option.filter_eq_some_iff, and_assoc]
  cases s
  case users | pendingContacts => rfl
  all_goals exact node rfl

theorem exists_candidates (s : Selector) (h : c.IsStandard) :
    ∃ rows, s.candidates c = .ok rows := by
  have table {α : Type} {r : Relation α} (h : r.isTable = true) : ∃ rows, r = .table rows := by
    cases r <;> first | contradiction | exact ⟨_, rfl⟩
  obtain ⟨users, hu⟩ := table h.users
  obtain ⟨pcrs, hp⟩ := table h.pcrs
  obtain ⟨nodes, hn⟩ := table h.nodes
  cases s
  case users           => exact ⟨users.toList, by simp only [candidates, hu]; rfl⟩
  case pendingContacts => exact ⟨pcrs.toList, by simp only [candidates, hp]; rfl⟩
  all_goals exact ⟨_, by simp only [candidates, hn]; rfl⟩

end Selector

namespace Op

def isLook : Op → Bool
  | scalar _ | readHandleKeys | nodePayload _ | fingerprintPayload _ | nodeRecord _ |
    countChildren ..
  | checkIntegrity => true
  | _ => false

def shows (op : Op) (outcome : Except Failure (Option (Key × Bytes))) : Except Failure Reply :=
  match op with
  | advance       => outcome.map fun r => .bytes (r.map (·.2))
  | advanceHandle => outcome.map fun r => .handle (r.map fun row => Key.handle row.1)
  | _             => .ok .done

theorem run_step {op : Op} (h : op.isStep = true) (t : Table) :
    (op.run t).1 = op.shows (Table.step t).1 ∧ (op.run t).2 = (Table.step t).2 := by
  cases op <;> try contradiction
  all_goals
    refine ⟨?_, rfl⟩
    simp only [run, answer, Table.advance, Table.advanceHandle, shows]
    cases (Table.step t).1 <;> rfl

end Op

theorem Op.run_look {op : Op} {t : Table} {c : Content} (h : op.isLook = true)
    (hs : t.conn.Sees c) :
    (op.run t).2.conn.Sees c ∧ (op.run t).2.cursor = t.cursor ∧
    stepReplies op (op.run t).1 = [] := by
  refine ⟨?_, run_cursor ?_ ?_ ?_, ?_⟩
  case refine_1 =>
    cases op <;> try contradiction
    case readHandleKeys => exact Table.readHandleKeys_sees hs
    case nodeRecord     => exact Table.nodeRecord_conn _ ▸ (hs.read _).right
    all_goals exact (hs.read _).right
  all_goals cases op <;> first | contradiction | rfl

-- What the steps of an enumeration over the rows come to, up to the one that ends it.
def outcomes (column : String) : List (Key × Value) → List (Except Failure (Option (Key × Bytes)))
  | [] => [.ok none]
  | (k, .blob payload) :: rows => .ok (some (k, payload)) :: outcomes column rows
  | (_, v) :: _ => [.error (.query (.wrongKind v.kind 1 column))]

namespace Table

open Selector (deliver step_eq)

variable {t : Table} {c : Content} {s : Selector} {last : Option Key} {rest : List (Key × Value)}

theorem step_of_active (hs : t.conn.Sees c) (ha : t.cursor = .active s last) :
    (step t).1 = (s.step last c).mapError .query ∧ (step t).2.conn.Sees c ∧
      (step t).2.cursor =
        match s.step last c with
        | .ok (some r) => .active s (some r.1)
        | _            => .idle := by
  obtain ⟨hr, hc⟩ := hs.read (s.step last)
  have h : read (s.step last) t =
      ((s.step last c).mapError .query, { t with conn := (t.conn.read (s.step last)).2 }) :=
    Prod.ext (congrArg (·.mapError Failure.query) hr) rfl
  unfold step
  rw [ha]
  simp only [h]
  match s.step last c with
  | .ok (some r) => exact ⟨rfl, hc, rfl⟩
  | .ok none     => exact ⟨rfl, hc, rfl⟩
  | .error f     => exact ⟨rfl, hc, rfl⟩

-- An enumeration under way, with the rows that it has still to visit.
structure Faces (t : Table) (s : Selector) (rest : List (Key × Value)) (c : Content) : Prop where
  place     : ∃ last before, t.cursor = .active s last ∧ s.candidates c = .ok (before ++ rest) ∧
    (∀ r ∈ before, Rows.isPast last r.1 = false) ∧ ∀ r ∈ rest, Rows.isPast last r.1 = true
  ascending : rest.Pairwise (·.1 < ·.1)

theorem Faces.search (f : t.Faces s rest c) :
    ∃ last, t.cursor = .active s last ∧
    s.step last c = deliver s.table.payloadColumn rest.head? := by
  obtain ⟨last, before, ha, hc, hb, hr⟩ := f.place
  have hfind : (before ++ rest).find? (Rows.isPast last ·.1) = rest.head? := by
    rw [List.find?_append, List.find?_eq_none.mpr (by simpa using hb), Option.none_or]
    cases rest
    case nil       => rfl
    case cons r rs => exact List.find?_cons_of_pos (hr r List.mem_cons_self)
  exact ⟨last, ha, by rw [step_eq, hc, ← hfind]; rfl⟩

theorem Faces.tail {t' : Table} {r : Key × Value} (f : t.Faces s (r :: rest) c)
    (ha : t'.cursor = .active s (some r.1)) : t'.Faces s rest c where
  place := by
    obtain ⟨last, before, _, hc, hb, hr⟩ := f.place
    have ascending := List.pairwise_cons.mp f.ascending |>.left
    refine ⟨some r.1, before ++ [r], ha, by simpa using hc, fun q hq => ?_, fun q hq => ?_⟩
    case refine_1 =>
      cases List.mem_append.mp hq
      case inr hq => simp [List.mem_singleton.mp hq, Rows.isPast, Int64.lt_irrefl]
      case inl hq =>
        -- What lies past the first row would lie past the last key before it.
        have hn := hb q hq
        cases hp : Rows.isPast (some r.1) q.1
        case false => rfl
        case true  => simp [Leads.isPast_trans (hr r List.mem_cons_self) hp] at hn
    case refine_2 => simpa [Rows.isPast] using ascending q hq
  ascending := List.pairwise_cons.mp f.ascending |>.right

-- What the steps on the table come to from now on, as long as they come to anything.
inductive Gives (t : Table) (c : Content) : List (Except Failure (Option (Key × Bytes))) → Prop
  | idle  : t.cursor = .idle → Gives t c []
  | faces {s : Selector} {rest : List (Key × Value)} :
    t.Faces s rest c → Gives t c (outcomes s.table.payloadColumn rest)

variable {outs : List (Except Failure (Option (Key × Bytes)))}

theorem Gives.idle_iff (g : t.Gives c outs) : t.cursor = .idle ↔ outs = [] := by
  cases g
  case idle h => exact iff_of_true h rfl
  case faces s rest f =>
    obtain ⟨last, _, ha, _⟩ := f.place
    refine iff_of_false (by simp [ha]) ?_
    unfold outcomes
    split <;> simp

theorem Gives.congr {t' : Table} (g : t.Gives c outs) (h : t'.cursor = t.cursor) :
    t'.Gives c outs := by
  cases g
  case idle hi => exact .idle (h.trans hi)
  case faces f => exact .faces { f with place := h ▸ f.place }

theorem Gives.step (g : t.Gives c outs) (hs : t.conn.Sees c) :
    (step t).1 = outs.headD (.ok none) ∧ (step t).2.conn.Sees c ∧ (step t).2.Gives c outs.tail := by
  cases g
  case idle hi =>
    have h : Table.step t = (.ok none, t) := by simp [Table.step, hi]
    rw [h]
    exact ⟨rfl, hs, .idle hi⟩
  case faces s rest f =>
    obtain ⟨last, ha, hq⟩ := f.search
    obtain ⟨hr, hc, hn⟩ := step_of_active hs ha
    rw [hq] at hr hn
    cases rest
    case nil => exact ⟨hr, hc, .idle hn⟩
    case cons r rs =>
      obtain ⟨k, v⟩ := r
      cases v
      case blob payload => exact ⟨hr, hc, .faces (f.tail hn)⟩
      all_goals exact ⟨hr, hc, .idle hn⟩

end Table

namespace Op

def replies (ops : List Op) (outs : List (Except Failure (Option (Key × Bytes)))) :
    List (Except Failure Reply) :=
  (ops.filter (·.isStep)).mapIdx fun i op => op.shows (outs.getD i (.ok none))

theorem replies_cons_step {op : Op} (h : op.isStep = true) (ops : List Op)
    (outs : List (Except Failure (Option (Key × Bytes)))) :
    replies (op :: ops) outs = op.shows (outs.headD (.ok none)) :: replies ops outs.tail := by
  simp only [replies, List.filter_cons_of_pos h, List.mapIdx_cons]
  cases outs <;> rfl

theorem runAll_gives {ops : List Op} {t : Table} {c : Content}
    {outs : List (Except Failure (Option (Key × Bytes)))} (hs : t.conn.Sees c) (g : t.Gives c outs)
    (h : ∀ op ∈ ops, op.isStep = true ∨ op.isLook = true) :
    stepRepliesAll ops (runAll ops t).1 = replies ops outs ∧
      (runAll ops t).2.Gives c (outs.drop (ops.filter (·.isStep)).length) := by
  induction ops generalizing t outs
  case nil => exact ⟨rfl, g⟩
  case cons op ops ih =>
    have later := fun op' hop => h op' (List.mem_cons_of_mem op hop)
    simp only [runAll, stepRepliesAll]
    cases hstep : op.isStep
    case true =>
      obtain ⟨hr, ht⟩ := run_step hstep t
      obtain ⟨hf, hs', g'⟩ := g.step hs
      have hone : stepReplies op (op.run t).1 = [op.shows (outs.headD (.ok none))] := by
        rw [← hf, ← hr]
        cases op <;> first | contradiction | rfl
      obtain ⟨hreplies, hlast⟩ := ih hs' g' later
      rw [ht, hone, hreplies, replies_cons_step hstep, List.filter_cons_of_pos hstep]
      exact ⟨rfl, List.drop_tail ▸ hlast⟩
    case false =>
      have hl : op.isLook = true := by simpa [hstep] using h op List.mem_cons_self
      obtain ⟨hs', hc, hnone⟩ := run_look hl hs
      have hf : (op :: ops).filter (·.isStep) = ops.filter (·.isStep) :=
        List.filter_cons_of_neg (by simp [hstep])
      obtain ⟨hreplies, hlast⟩ := ih hs' (g.congr hc) later
      rw [hnone, hreplies, replies, replies, hf]
      exact ⟨rfl, hlast⟩

theorem startCursor_gives {t : Table} {c : Content} {s : Selector} {rows : List (Key × Value)}
    (hs : t.conn.Sees c) (hrows : s.candidates c = .ok rows) :
    ((startCursor s).run t).2.conn.Sees c ∧
      ((startCursor s).run t).2.Gives c (outcomes s.table.payloadColumn rows) := by
  have hconn : ((startCursor s).run t).2.conn = t.conn := by
    simp only [run, done, answer, Table.startCursor]
    split <;> rfl
  have ascending := Selector.candidates_spec hrows |>.left
  exact ⟨hconn.symm ▸ hs, .faces ⟨⟨none, [], rfl, hrows, by simp, fun _ _ => rfl⟩, ascending⟩⟩

end Op

structure Drains (t : Table) (s : Selector) (c : Content) (rows : List (Key × Value)) : Prop where
  selected : ∀ k v, (k, v) ∈ rows ↔ s.Selects c k v
  -- They come in the order of keys, hence with the upper half of the handles first.
  ascending : rows.Pairwise (·.1 < ·.1)
  upperFirst : rows.Pairwise fun r r' =>
    0x8000000000000000 ≤ Key.handle r'.1 → 0x8000000000000000 ≤ Key.handle r.1
  -- Whichever steps are mixed, and whatever is read between them, they reply row by row.
  replies : ∀ ops, (∀ op ∈ ops, op.isStep = true ∨ op.isLook = true) →
    Op.stepRepliesAll ops (Op.runAll ops ((Op.startCursor s).run t).2).1 =
      Op.replies ops (outcomes s.table.payloadColumn rows)
  -- The cursor is idle from the step on that finds no row or fails.
  released : ∀ ops, (∀ op ∈ ops, op.isStep = true ∨ op.isLook = true) →
    ((Op.runAll ops ((Op.startCursor s).run t).2).2.cursor = .idle ↔
      (outcomes s.table.payloadColumn rows).length ≤ (ops.filter (·.isStep)).length)
  statement : ∀ last, s.query.run last c = some (s.step last c)

theorem startCursor_drains {t : Table} {c : Content} (s : Selector) (h : t.conn.Sees c)
    (hs : c.IsStandard) : ∃ rows, Drains t s c rows := by
  obtain ⟨rows, hrows⟩ := s.exists_candidates hs
  obtain ⟨ascending, mem⟩ := Selector.candidates_spec hrows
  obtain ⟨hsees, g⟩ := Op.startCursor_gives h hrows
  refine ⟨rows, ?_, ascending, ?_, ?_, ?_, fun last => s.query_run last c⟩
  case refine_1 => exact fun k v => (mem k v).trans Selector.selects_iff.symm
  case refine_2 =>
    refine ascending.imp fun hlt => ?_
    rw [Key.upper_half, Key.upper_half]
    exact Int64.lt_trans hlt
  case refine_3 => exact fun ops hops => (Op.runAll_gives hsees g hops).left
  case refine_4 =>
    intro ops hops
    exact (Op.runAll_gives hsees g hops).right.idle_iff.trans List.drop_eq_nil_iff

-- Nodes under two parents, one of them with a handle in the upper half, and one whose payload is a
-- text.
def sharedNodes : Content where
  init  := .table .empty
  nodes := .table <| .put (.put (.put (.put .empty
    (-3) ⟨.integer 7, .null, .null, .integer 1, .blob [1]⟩)
    5    ⟨.integer 9, .null, .null, .integer 4, .blob [2]⟩)
    6    ⟨.integer 9, .null, .null, .integer 1, .blob [3]⟩)
    8    ⟨.integer 7, .null, .null, .integer 1, .text [4]⟩
  users := .table .empty
  pcrs  := .table .empty

def sharedTable : Table where
  path   := "root/alice.db"
  conn   := { body := .store ⟨sharedNodes, 0, true⟩, phase := .begun, peers := .ofPhases [],
              obstacle := none }
  cursor := .idle
  key    := ⟨.transparent, []⟩
  log    := []

theorem sharedTable_drains :
    sharedTable.conn.Sees sharedNodes ∧ sharedNodes.IsStandard ∧
    (∃ rows, Drains sharedTable (.outShares (some 7) .unscopedCombined) sharedNodes rows) ∧
    ((Selector.outShares (some 7) .unscopedCombined).candidates sharedNodes).toOption =
      some [(-3, .blob [1]), (5, .blob [2]), (8, .text [4])] :=
  have hs : sharedTable.conn.Sees sharedNodes := ⟨rfl, .inr rfl⟩
  have hn : sharedNodes.IsStandard := ⟨rfl, rfl, rfl, rfl⟩
  ⟨hs, hn, startCursor_drains _ hs hn, by decide⟩

end AccountCache
