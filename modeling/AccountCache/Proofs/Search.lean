import AccountCache.Selector.Search

namespace AccountCache

namespace Search

variable {l : Line} {bounds : List Int64}

theorem equal_eq_yes {column : Column} {o : Operand} {n : Int64} (h : o.value? bounds = some n) :
    (Test.equal column o).truth bounds l = .yes ↔ (l.column column).isInteger n = true := by
  simp only [Test.truth, h]
  split
  case isTrue hn =>
    cases hv : l.column column <;> simp_all [Value.isNull, Value.kind, Value.isInteger]
  case isFalse   => exact Truth.ofBool_eq_yes

end Search

namespace Query

open Search

variable {last : Option Key} {l : Line}

theorem boundTest_eq_yes {parent : List Int64} :
    (boundTest last).truth (last.getD Int64.minValue :: parent) l = .yes ↔
      Rows.isPast last l.key = true := by
  cases last
  case none   => simp [boundTest, Test.truth, Operand.value?, Rows.isPast, Int64.minValue_le]
  case some k => simp [boundTest, Test.truth, Operand.value?, Rows.isPast]

end Query

namespace Selector

open Search

variable {s : Selector} {last : Option Key} {c : Content}

def shareFormula (state : Share) (parent : Option Handle) (scope : Scope) : Formula :=
  let single := .test (.equal .share (.literal state.code))
  let combined := .test (.equal .share (.literal Share.outgoingAndPending.code))
  let under := .test (.equal .parent (.bound 2))
  match parent, scope with
  | none, _ => .or single combined
  | some _, .parent => .and under (.or single combined)
  | some _, .unscopedCombined => .or (.and under single) combined

def formula : Selector → Formula
  | users | pendingContacts => .test .always
  | children _ => .test (.equal .parent (.bound 2))
  | encryptedNodes => .test (.notNull .attr)
  | outShares p scope => shareFormula .outgoing p scope
  | pendingShares p scope => shareFormula .pending p scope

theorem read_condition (s : Selector) (bound : Test) :
    Formula.read (s.query.search bound).condition = some (.and s.formula (.test bound)) := by
  match s with
  | users | pendingContacts | children _ | encryptedNodes => rfl
  | outShares none _ | outShares (some _) .parent | outShares (some _) .unscopedCombined => rfl
  | pendingShares none _ | pendingShares (some _) .parent |
    pendingShares (some _) .unscopedCombined =>
    rfl

theorem arity_search (s : Selector) (last : Option Key) :
    (s.query.search (Query.boundTest last)).arity = (s.query.bounds last).length := by
  cases last <;> match s with
  | users | pendingContacts | children _ | encryptedNodes => rfl
  | outShares none _ | outShares (some _) .parent | outShares (some _) .unscopedCombined => rfl
  | pendingShares none _ | pendingShares (some _) .parent |
    pendingShares (some _) .unscopedCombined =>
    rfl

theorem shareFormula_eq_yes {state : Share} {parent : Option Handle} {scope : Scope} {bound : Int64}
    {r : NodeRow} {k : Key} :
    (shareFormula state parent scope).truth (bound :: parent.toList.map Handle.key)
        ⟨k, r.payload, some r⟩ = .yes ↔
      sharesMatch state parent scope r = true := by
  cases parent <;> cases scope <;>
    simp [shareFormula, sharesMatch, Formula.truth, Truth.and_eq_yes, Truth.or_eq_yes, equal_eq_yes,
      Operand.value?, Line.column]

theorem formula_eq_yes (hs : s.table = .nodes) (r : NodeRow) (k : Key) :
    s.formula.truth (s.query.bounds last) ⟨k, r.payload, some r⟩ = .yes ↔
    s.matchesNode r = true := by
  cases s <;> try contradiction
  case children p     => exact equal_eq_yes rfl
  case encryptedNodes => simp [formula, matchesNode, Formula.truth, Test.truth, Line.column]
  case outShares      => exact shareFormula_eq_yes
  case pendingShares  => exact shareFormula_eq_yes

-- A condition finds what the step finds among rows that were picked beforehand.
theorem find?_eq_yes {α : Type} {rows : List (Key × α)} {p : α → Value} {n : α → Option NodeRow}
    {f : Formula} {bounds : List Int64} {keep : Key × α → Bool}
    (h : ∀ r, f.truth bounds ⟨r.1, p r.2, n r.2⟩ = .yes ↔
      keep r = true ∧ Rows.isPast last r.1 = true) :
    ((rows.map fun r => ⟨r.1, p r.2, n r.2⟩).find? fun l => f.truth bounds l = .yes).map
        (fun l => (l.key, l.payload)) =
      ((rows.filter keep).map fun r => (r.1, p r.2)).find? (Rows.isPast last ·.1) := by
  simp only [List.find?_map, List.find?_filter, Option.map_map]
  congr 2
  funext r
  simp [h]

-- How a step goes on from the row that it finds.
def deliver (column : String) : Option (Key × Value) → Except QueryFault (Option (Key × Bytes))
  | some (k, v) => (v.readBlob 1 column).map fun payload => some (k, payload)
  | none => .ok none

theorem step_eq (s : Selector) (last : Option Key) (c : Content) :
    s.step last c =
      (s.candidates c).bind fun rows => deliver s.table.payloadColumn
        (rows.find? (Rows.isPast last ·.1)) := by
  unfold step
  cases s.candidates c
  case error => rfl
  case ok rows =>
    simp only [bind, Except.bind]
    cases rows.find? (Rows.isPast last ·.1)
    case none => rfl
    case some r => simp only [deliver]; cases r.2.readBlob 1 s.table.payloadColumn <;> rfl

theorem run_eq (q : Search) {f : Formula} {bounds : List Int64}
    (hf : Formula.read q.condition = some f) (hb : q.arity = bounds.length) (c : Content) :
    q.run bounds c = some ((q.lines c).bind fun lines => deliver q.payload <|
      (lines.find? fun l => f.truth bounds l = .yes).map fun l => (l.key, l.payload)) := by
  simp only [Search.run, hb, ne_eq, not_true, if_false, hf, Option.map_some, Option.some.injEq]
  cases q.lines c
  case error => rfl
  case ok lines =>
    simp only [bind, Except.bind]
    cases lines.find? fun l => f.truth bounds l = .yes
    case none => rfl
    case some l =>
      simp only [deliver, Option.map_some]; cases l.payload.readBlob 1 q.payload <;> rfl

theorem all_candidates (rows : Except QueryFault (Rows Value)) :
    (do let rows ← rows; return rows.toList) =
      rows.map fun rows => (rows.toList.filter fun _ => true).map fun r => (r.1, r.2) := by
  cases rows
  case error   => rfl
  case ok rows =>
    have hk : rows.toList.filter (fun _ => true) = rows.toList :=
      List.filter_eq_self.mpr fun _ _ => rfl
    exact congrArg Except.ok <| .symm <| (List.map_id' _).trans hk

theorem candidates_of_nodes (hs : s.table = .nodes) (c : Content) :
    s.candidates c = (c.nodes.select .nodes ["nodehandle", "node"]).map fun rows =>
      (rows.toList.filter fun r => s.matchesNode r.2).map fun r => (r.1, r.2.payload) := by
  cases s <;> first | contradiction |
    (unfold candidates; cases c.nodes.select .nodes ["nodehandle", "node"] <;> rfl)

-- What a search finds among its lines and a step among its rows.
theorem found_eq {rows : Except QueryFault (Rows α)} {p : α → Value} {n : α → Option NodeRow}
    {f : Formula} {bounds : List Int64} {keep : Key × α → Bool}
    (h : ∀ r, f.truth bounds ⟨r.1, p r.2, n r.2⟩ = .yes ↔
      keep r = true ∧ Rows.isPast last r.1 = true) :
    ((rows.map (·.toList.map fun r => Line.mk r.1 (p r.2) (n r.2))).bind fun lines =>
      deliver column <|
        (lines.find? fun l => f.truth bounds l = .yes).map fun l => (l.key, l.payload)) =
    ((rows.map fun rows => (rows.toList.filter keep).map fun r => (r.1, p r.2)).bind fun rows =>
      deliver column <| rows.find? (Rows.isPast last ·.1)) := by
  cases rows
  case error => rfl
  case ok rows => exact congrArg (deliver column) (find?_eq_yes h)

theorem query_run (s : Selector) (last : Option Key) (c : Content) :
    s.query.run last c = some (s.step last c) := by
  rw [Query.run, run_eq _ (s.read_condition _) (s.arity_search last), step_eq, Option.some.injEq]
  have h {l : Line} {p : Prop} (hp : s.formula.truth (s.query.bounds last) l = .yes ↔ p) :
      (Formula.and s.formula (.test (Query.boundTest last))).truth (s.query.bounds last) l = .yes ↔
        p ∧ Rows.isPast last l.key = true := by
    rw [Formula.truth, Truth.and_eq_yes, hp]
    exact and_congr_right fun _ => Query.boundTest_eq_yes
  match s with
  | users | pendingContacts =>
    rw [candidates, all_candidates]
    exact found_eq (p := id) (n := fun _ => none) fun r => h (iff_of_true rfl rfl)
  | children _ | encryptedNodes | outShares _ _ | pendingShares _ _ =>
    rw [candidates_of_nodes rfl]
    exact found_eq (p := NodeRow.payload) (n := some) fun r => h (formula_eq_yes rfl r.2 r.1)

end Selector
end AccountCache
