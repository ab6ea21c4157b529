import AccountCache.Proofs.History
import AccountCache.Rows.Lemmas
import Mathlib.Data.List.Nodup

namespace AccountCache

-- Whatever has the name of a table but is none has no rows.
def Relation.rows : Relation α → Rows α
  | table rows => rows
  | _          => .empty

theorem Relation.rows_of_select {r : Relation α} {seen : Rows α}
    (h : r.select t columns = .ok seen) :
    seen = r.rows := by
  cases r <;> simp [select] at h
  case view  => split at h <;> simp_all [Relation.rows]
  case table => exact h.symm

namespace Selector

-- The payload column of the row at a key, if there is a row that the selector visits.
def row? (s : Selector) (c : Content) (k : Key) : Option Value :=
  match s with
  | users           => c.users.rows.get? k
  | pendingContacts => c.pcrs.rows.get? k
  | s               => ((c.nodes.rows.get? k).filter s.matchesNode).map (·.payload)

variable {s : Selector} {c : Content} {k : Key} {last : Option Key}

theorem nodes_candidates (s : Selector) (rows : Rows NodeRow) :
    let found := (rows.filter fun _ r => s.matchesNode r).map fun r => (r.1, r.2.payload)
    found.Pairwise (·.1 < ·.1) ∧
      ∀ k v, (k, v) ∈ found ↔ ((rows.get? k).filter s.matchesNode).map (·.payload) = some v := by
  refine ⟨?_, fun k v => ?_⟩
  · exact List.pairwise_map.mpr (rows.ordered.filter _)
  · simp only [Rows.filter, List.mem_map, List.mem_filter, Prod.mk.injEq, Option.map_eq_some_iff,
      Option.filter_eq_some_iff, Rows.get?_eq_some_iff]
    constructor
    · rintro ⟨⟨k', r⟩, ⟨hm, hs⟩, rfl, rfl⟩
      exact ⟨r, ⟨hm, hs⟩, rfl⟩
    · rintro ⟨r, ⟨hm, hs⟩, rfl⟩
      exact ⟨(k, r), ⟨hm, hs⟩, rfl, rfl⟩

theorem candidates_spec {rows : List (Key × Value)} (h : s.candidates c = .ok rows) :
    rows.Pairwise (·.1 < ·.1) ∧ ∀ k v, (k, v) ∈ rows ↔ s.row? c k = some v := by
  cases s <;> simp only [candidates, bind, Except.bind] at h
  case users =>
    cases hr : c.users.select .users ["userhandle", "user"] <;> rw [hr] at h <;> cases h
    cases Relation.rows_of_select hr
    exact ⟨c.users.rows.ordered, fun k v => Rows.get?_eq_some_iff.symm⟩
  case pendingContacts =>
    cases hr : c.pcrs.select .pcrs ["id", "pcr"] <;> rw [hr] at h <;> cases h
    cases Relation.rows_of_select hr
    exact ⟨c.pcrs.rows.ordered, fun k v => Rows.get?_eq_some_iff.symm⟩
  all_goals
    cases hr : c.nodes.select .nodes ["nodehandle", "node"] <;> rw [hr] at h <;> cases h
    cases Relation.rows_of_select hr
    exact nodes_candidates _ _

theorem step_eq_some {b : Bytes} (h : s.step last c = .ok (some (k, b))) :
    s.row? c k = some (.blob b) ∧ Rows.isPast last k = true ∧
      ∀ j, (s.row? c j).isSome → Rows.isPast last j = true → k ≤ j := by
  unfold step at h
  cases hc : s.candidates c <;> rw [hc] at h
  case error => cases h
  case ok rows =>
    obtain ⟨ordered, mem⟩ := candidates_spec hc
    -- The candidates as rows of a table of their own.
    let found : Rows Value := ⟨rows, ordered⟩
    have hget (j : Key) : found.get? j = s.row? c j :=
      Option.ext fun v => Rows.get?_eq_some_iff.trans (mem j v)
    have hnext : found.next? (fun _ _ => true) last = rows.find? (Rows.isPast last ·.1) := by
      simp [Rows.next?, found]
    cases hf : rows.find? (Rows.isPast last ·.1)
      <;> simp [hf, bind, Except.bind, pure, Except.pure] at h
    case some r =>
      cases hb : r.2.readBlob 1 s.table.payloadColumn <;> simp [hb] at h
      case ok payload =>
        obtain ⟨hk, _, hp, hl⟩ := Rows.next?_eq_some (hnext.trans hf)
        obtain ⟨rfl, rfl⟩ := h
        refine ⟨?_, hp, fun j hj hpj => ?_⟩
        · rw [← hget, hk]
          unfold Value.readBlob at hb
          split at hb <;> simp_all
        · obtain ⟨v, hv⟩ := Option.isSome_iff_exists.mp hj
          exact hl j v (hget j ▸ hv) rfl hpj

theorem step_eq_none (h : s.step last c = .ok none) (hk : (s.row? c k).isSome) :
    Rows.isPast last k = false := by
  unfold step at h
  cases hc : s.candidates c <;> rw [hc] at h
  case error => cases h
  case ok rows =>
    have ⟨_, mem⟩ := candidates_spec hc
    obtain ⟨v, hv⟩ := Option.isSome_iff_exists.mp hk
    cases hf : rows.find? (Rows.isPast last ·.1)
      <;> simp [hf, bind, Except.bind, pure, Except.pure] at h
    case none =>
      simpa using List.find?_eq_none.mp hf _ ((mem k v).mpr hv)
    case some r => cases hb : r.2.readBlob 1 s.table.payloadColumn <;> simp [hb] at h

end Selector

namespace Table

theorem eq_ok_of_read {q : Content → Except QueryFault α} {t t' : Table} {a : α}
    (h : read q t = (.ok a, t')) : ∃ c, t.conn.content? = some c ∧ q c = .ok a := by
  have hr : (t.conn.read q).1.mapError Failure.query = .ok a := congrArg Prod.fst h
  cases hq : (t.conn.read q).1 <;> rw [hq] at hr <;> cases hr
  exact Connection.eq_ok_of_read hq

-- A step finds the cursor idle, or it looks for the next row of the content that is seen.
theorem step_cases (t : Table) :
    (t.cursor = .idle ∧ step t = (.ok none, t)) ∨
    ∃ s last, t.cursor = .active s last ∧
      ((∃ c k b, t.conn.content? = some c ∧ s.step last c = .ok (some (k, b)) ∧
          (step t).1 = .ok (some (k, b)) ∧ (step t).2.cursor = .active s (some k)) ∨
        (∃ c, t.conn.content? = some c ∧ s.step last c = .ok none ∧
          (step t).1 = .ok none ∧ (step t).2.cursor = .idle) ∨
        ∃ f, (step t).1 = .error f ∧ (step t).2.cursor = .idle) := by
  cases hc : t.cursor
  case idle => exact .inl ⟨rfl, by simp [step, hc]⟩
  case active s last =>
    refine .inr ⟨s, last, rfl, ?_⟩
    simp only [step, hc]
    cases h : read (s.step last) t
    case mk r t' =>
      cases r
      case error f => exact .inr (.inr ⟨f, rfl, rfl⟩)
      case ok found =>
        have ⟨c, hs, hq⟩ := eq_ok_of_read h
        cases found
        case none   => exact .inr (.inl ⟨c, hs, hq, rfl, rfl⟩)
        case some r => exact .inl ⟨c, r.1, r.2, hs, hq, rfl, rfl⟩

variable {t : Table}

theorem nodeRecord_cursor (h : Handle) : (nodeRecord h t).2.cursor = t.cursor := by
  have hr : (read (Content.node h) t).2.cursor = t.cursor := rfl
  unfold nodeRecord
  split <;> simp_all

theorem clear_cursor (names : List TableName) : (clear names t).2.cursor = t.cursor := by
  induction names generalizing t
  case nil => rfl
  case cons name names ih =>
    have hw : (write (Content.clear name) t).2.cursor = t.cursor := rfl
    unfold clear
    split <;> simp_all

theorem truncate_cursor : (truncate t).2.cursor = t.cursor := by
  have hc (t : Table) : (commit t).2.cursor = t.cursor := rfl
  have ha (t : Table) : (abort t).2.cursor = t.cursor := rfl
  have hl := clear_cursor (t := { t with conn := { t.conn with phase := .begun } }) TableName.all
  unfold truncate
  split
  case isTrue => exact clear_cursor _
  case isFalse =>
    split
    case h_1 t' h => rw [h] at hl; exact (ha t').trans hl
    case h_2 t' h =>
      rw [h] at hl
      have hm := hc t'
      split
      case h_1 => simp_all
      case h_2 => simp_all [note]

theorem readHandleKey_cursor (kind : HandleKeyKind) :
    (readHandleKey kind t).2.cursor = t.cursor := by
  have hr : (scalar (.handleKey kind) t).2.cursor = t.cursor := rfl
  unfold readHandleKey
  split
  case h_3 => dsimp only; split <;> simp_all
  all_goals simp_all

theorem readHandleKeys_cursor : (readHandleKeys t).2.cursor = t.cursor := by
  have hn := readHandleKey_cursor (t := t) .node
  unfold readHandleKeys
  split
  case h_1 => simp_all
  case h_2 node t' h =>
    have hp := readHandleKey_cursor (t := t') .parent
    split <;> simp_all

end Table

-- Only the steps of an enumeration and its start touch the cursor.
theorem Op.run_cursor {op : Op} {t : Table} (hp : op.isGuarded = false) (hs : op.isStep = false)
    (hc : op.startsCursor = false) : (op.run t).2.cursor = t.cursor := by
  cases op <;> try contradiction
  case nodeRecord     => exact Table.nodeRecord_cursor _
  case readHandleKeys => exact Table.readHandleKeys_cursor
  case truncate       => exact Table.truncate_cursor
  case putScalar      => simp only [run, done, answer, Table.putScalar]; split <;> rfl
  all_goals rfl

namespace Moment

def found (m : Moment) : Except Failure (Option (Key × Bytes)) := (Table.step m.table).1

def key? (m : Moment) : Option Key :=
  match m.found with
  | .ok (some r) => some r.1
  | _            => none

def Shows (m : Moment) (s : Selector) (k : Key) : Prop :=
  ∃ c, m.table.conn.content? = some c ∧ (s.row? c k).isSome

theorem next_of_isStep {m : Moment} (h : m.op.isStep = true) : m.next = (Table.step m.table).2 := by
  obtain ⟨op, t⟩ := m
  cases op <;> first | contradiction | rfl

theorem reply_of_isStep {m : Moment} (h : m.op.isStep = true) :
    m.reply = m.found.map (fun r => .bytes (r.map (·.2))) ∨
      m.reply = m.found.map (fun r => .handle (r.map fun row => Key.handle row.1)) := by
  obtain ⟨op, t⟩ := m
  cases op <;> try contradiction
  case advance =>
    left
    simp only [reply, found, Op.run, Op.answer, Table.advance]
    cases (Table.step t).1 <;> rfl
  case advanceHandle =>
    right
    simp only [reply, found, Op.run, Op.answer, Table.advanceHandle]
    cases (Table.step t).1 <;> rfl

end Moment

def stepsOf (ms : List Moment) : List Moment := ms.filter (·.op.isStep)

def visited (ms : List Moment) : List Key := (stepsOf ms).filterMap (·.key?)

theorem stepsOf_cons_step {m : Moment} (h : m.op.isStep = true) (ms : List Moment) :
    stepsOf (m :: ms) = m :: stepsOf ms :=
  List.filter_cons_of_pos h

theorem stepsOf_cons_other {m : Moment} (h : m.op.isStep = false) (ms : List Moment) :
    stepsOf (m :: ms) = stepsOf ms :=
  List.filter_cons_of_neg (by simp [h])

theorem visited_cons_other {m : Moment} (h : m.op.isStep = false) (ms : List Moment) :
    visited (m :: ms) = visited ms := by
  rw [visited, stepsOf_cons_other h, visited]

theorem visited_cons_step {m : Moment} (h : m.op.isStep = true) (ms : List Moment) :
    visited (m :: ms) = m.key?.toList ++ visited ms := by
  rw [visited, stepsOf_cons_step h, visited, List.filterMap_cons]
  cases m.key? <;> rfl

def Unrestarted (ms : List Moment) : Prop := ∀ m ∈ ms, m.op.startsCursor = false

instance : Decidable (Unrestarted ms) :=
  inferInstanceAs <| Decidable (∀ m ∈ ms, m.op.startsCursor = false)

theorem Unrestarted.tail {m : Moment} {ms : List Moment} (u : Unrestarted (m :: ms)) :
    m.op.startsCursor = false ∧ Unrestarted ms :=
  ⟨u m List.mem_cons_self, fun m' h => u m' (List.mem_cons_of_mem _ h)⟩

namespace Leads

variable {t t' : Table} {ms : List Moment} {s : Selector} {last : Option Key}

theorem idle (l : Leads t ms t') (u : Unrestarted ms) (hi : t.cursor = .idle) :
    t'.cursor = .idle ∧
      ∀ m ∈ ms, m.table.cursor = .idle ∧ (m.op.isStep = true → m.found = .ok none) := by
  induction l
  case nil => exact ⟨hi, by simp⟩
  case cons op t t' ms hp l ih =>
    have ⟨hu, u⟩ := u.tail
    have hstep : Table.step t = (.ok none, t) := by simp [Table.step, hi]
    have hn : (op.run t).2.cursor = .idle := by
      cases hs : op.isStep
      case false => rw [Op.run_cursor hp hs hu, hi]
      case true =>
        have hm : (op.run t).2 = (Table.step t).2 := Moment.next_of_isStep (m := ⟨op, t⟩) hs
        rw [hm, hstep, hi]
    have ⟨hend, hms⟩ := ih u hn
    refine ⟨hend, fun m hm => ?_⟩
    cases hm
    case head      => exact ⟨hi, fun _ => by simp [Moment.found, hstep]⟩
    case tail _ hm => exact hms m hm

theorem visited_of_idle (l : Leads t ms t') (u : Unrestarted ms) (hi : t.cursor = .idle) :
    visited ms = [] := by
  apply List.filterMap_eq_nil_iff.mpr
  intro m hm
  have ⟨hm, hs⟩ := List.mem_filter.mp hm
  simp [Moment.key?, (l.idle u hi).right m hm |>.right hs]

theorem step_inv {m : Moment} (hm : m.op.isStep = true) (hc : m.table.cursor = .active s last) :
    (∃ c k b, m.table.conn.content? = some c ∧ s.step last c = .ok (some (k, b)) ∧
      m.found = .ok (some (k, b)) ∧ m.next.cursor = .active s (some k)) ∨
    (∃ c, m.table.conn.content? = some c ∧ s.step last c = .ok none ∧
      m.found = .ok none ∧ m.next.cursor = .idle) ∨
    (∃ f, m.found = .error f ∧ m.next.cursor = .idle) := by
  rw [Moment.next_of_isStep hm, Moment.found]
  obtain ⟨hi, _⟩ | ⟨s', last', hc', h⟩ := Table.step_cases m.table
  · simp [hi] at hc
  · cases hc.symm.trans hc'; exact h

theorem isPast_trans {k j : Key} (hk : Rows.isPast last k = true)
    (hj : Rows.isPast (some k) j = true) :
    Rows.isPast last j = true := by
  cases last
  case none => rfl
  case some b =>
    simp only [Rows.isPast, decide_eq_true_eq] at *
    exact Int64.lt_trans hk hj

theorem visited_ascending (l : Leads t ms t') (u : Unrestarted ms)
    (hc : t.cursor = .active s last) :
    (∀ k ∈ visited ms, Rows.isPast last k = true) ∧ (visited ms).Pairwise (· < ·) := by
  -- For any last key: what is visited from here on lies past it.
  induction l generalizing last
  case nil => simp [visited, stepsOf]
  case cons op t t' ms hp l ih =>
    have ⟨hu, u⟩ := u.tail
    cases hs : op.isStep
    case false =>
      rw [visited_cons_other hs]
      exact ih u ((Op.run_cursor hp hs hu).trans hc)
    case true =>
      rw [visited_cons_step hs]
      obtain ⟨c, k, b, _, hq, hf, hn⟩ | ⟨c, _, _, hf, hn⟩ | ⟨f, hf, hn⟩ :=
        step_inv (m := ⟨op, t⟩) hs hc
      case inl =>
        have ⟨past, ordered⟩ := ih u hn
        have hk := (Selector.step_eq_some hq).right.left
        simp only [Moment.key?, hf, Option.toList_some, List.singleton_append, List.mem_cons,
          List.pairwise_cons, forall_eq_or_imp]
        refine ⟨⟨hk, fun j hj => isPast_trans hk (past j hj)⟩, fun j hj => ?_, ordered⟩
        simpa [Rows.isPast] using past j hj
      all_goals simp [Moment.key?, hf, l.visited_of_idle u hn]

-- Whatever is done to the table, its cursor is that of the enumeration until it is released.
theorem cursor_of_mem (l : Leads t ms t') (u : Unrestarted ms)
    (hc : t.cursor = .idle ∨ ∃ last, t.cursor = .active s last) :
    ∀ m ∈ ms, m.table.cursor = .idle ∨ ∃ last, m.table.cursor = .active s last := by
  induction l
  case nil => simp
  case cons op t t' ms hp l ih =>
    have ⟨hu, u⟩ := u.tail
    have hn : (op.run t).2.cursor = .idle ∨ ∃ last, (op.run t).2.cursor = .active s last := by
      cases hs : op.isStep
      case false => rw [Op.run_cursor hp hs hu]; exact hc
      case true =>
        have hm : (op.run t).2 = (Table.step t).2 := Moment.next_of_isStep (m := ⟨op, t⟩) hs
        obtain hi | ⟨last, ha⟩ := hc
        case inl => left; rw [hm]; simp [Table.step, hi]
        case inr =>
          obtain ⟨_, k, _, _, _, _, hn⟩ | ⟨_, _, _, _, hn⟩ | ⟨_, _, hn⟩ :=
            step_inv (m := ⟨op, t⟩) hs ha
          case inl => exact .inr ⟨some k, hn⟩
          all_goals exact .inl hn
    intro m hm
    cases hm
    case head      => exact hc
    case tail _ hm => exact ih u hn m hm

-- Until a step finds nothing, every row that all steps see is visited.
theorem mem_visited {m : Moment} {after : List Moment} {k : Key}
    (l : Leads t (ms ++ m :: after) t') (u : Unrestarted (ms ++ m :: after))
    (hc : t.cursor = .active s last) (hm : m.op.isStep = true) (hn : m.found = .ok none)
    (hf : ∀ w ∈ stepsOf ms, ∀ f, w.found ≠ .error f)
    (hk : ∀ w ∈ stepsOf (ms ++ [m]), w.Shows s k) (hp : Rows.isPast last k = true) :
    k ∈ visited ms := by
  induction ms generalizing t last
  case nil =>
    have ⟨_, ht, _⟩ := l.cons_inv
    have ⟨c, hs, hr⟩ := hk m (by simp [stepsOf_cons_step hm])
    obtain ⟨_, _, _, _, _, h, _⟩ | ⟨c', hs', hq, _, _⟩ | ⟨_, h, _⟩ := step_inv hm (ht ▸ hc)
    case inl     => simp [hn] at h
    case inr.inl => cases hs.symm.trans hs'; simp [Selector.step_eq_none hq hr] at hp
    case inr.inr => simp [hn] at h
  case cons w ms ih =>
    have ⟨hg, ht, l⟩ := l.cons_inv
    have ⟨hu, u⟩ := u.tail
    cases hs : w.op.isStep
    case false =>
      rw [visited_cons_other hs]
      rw [List.cons_append, stepsOf_cons_other hs] at hk
      rw [stepsOf_cons_other hs] at hf
      exact ih l u ((Op.run_cursor hg hs hu).trans (ht ▸ hc)) hf hk hp
    case true =>
      rw [visited_cons_step hs]
      rw [List.cons_append, stepsOf_cons_step hs] at hk
      rw [stepsOf_cons_step hs] at hf
      have ⟨c, hw, hr⟩ := hk w List.mem_cons_self
      obtain ⟨c', j, b, hw', hq, hj, hn'⟩ | ⟨c', hw', hq, _, _⟩ | ⟨f, h, _⟩ :=
        step_inv hs (ht ▸ hc)
      case inl =>
        cases hw.symm.trans hw'
        simp only [Moment.key?, hj, Option.toList_some, List.singleton_append, List.mem_cons]
        -- The step finds the least row past the last key, hence this one or one before it.
        by_cases hne : k = j
        case pos => exact .inl hne
        have hle := (Selector.step_eq_some hq).right.right k hr hp
        have hlt : Rows.isPast (some j) k = true := by
          simpa [Rows.isPast] using Int64.lt_of_le_of_ne hle (Ne.symm hne)
        exact .inr <| ih l u hn' (fun w hw => hf w (List.mem_cons_of_mem _ hw))
          (fun w hw => hk w (List.mem_cons_of_mem _ hw)) hlt
      case inr.inl => cases hw.symm.trans hw'; simp [Selector.step_eq_none hq hr] at hp
      case inr.inr => exact absurd h (hf w List.mem_cons_self f)

end Leads

structure Enumerates (s : Selector) (ms : List Moment) (last : Table) : Prop where
  -- Keys ascend, so no row is visited twice.
  ascending : (visited ms).Pairwise (· < ·)
  -- What a step finds is there at that moment.
  present : ∀ m ∈ stepsOf ms, ∀ k b, m.found = .ok (some (k, b)) →
    ∃ c, m.table.conn.content? = some c ∧ s.row? c k = some (.blob b)
  -- When a step finds nothing and none has failed, each row that all steps saw was visited once.
  complete : ∀ before m after, ms = before ++ m :: after → m.op.isStep = true →
    m.found = .ok none → (∀ w ∈ stepsOf before, ∀ f, w.found ≠ .error f) →
    ∀ k, (∀ w ∈ stepsOf (before ++ [m]), w.Shows s k) → (visited before).count k = 1
  -- Once a step has found nothing or failed, the cursor is idle and all later steps find nothing.
  released : ∀ before m after, ms = before ++ m :: after → m.op.isStep = true →
    (m.found = .ok none ∨ ∃ f, m.found = .error f) →
    m.next.cursor = .idle ∧ last.cursor = .idle ∧
      ∀ w ∈ after, w.table.cursor = .idle ∧ (w.op.isStep = true → w.found = .ok none)

theorem Leads.enumerates {s : Selector} {ms : List Moment} (l : Leads t ms t')
    (u : Unrestarted ms) (hc : t.cursor = .active s none) : Enumerates s ms t' where
  ascending := l.visited_ascending u hc |>.right
  present m hm k b hf := by
    have ⟨hm, hs⟩ := List.mem_filter.mp hm
    have hs : m.op.isStep = true := by simpa using hs
    obtain hi | ⟨last, ha⟩ := l.cursor_of_mem u (.inr ⟨none, hc⟩) m hm
    case inl => simp [Moment.found, Table.step, hi] at hf
    case inr =>
      obtain ⟨c, _, _, hs, hq, h, _⟩ | ⟨_, _, _, h, _⟩ | ⟨_, h, _⟩ := step_inv hs ha
      case inl =>
        cases hf.symm.trans h
        exact ⟨c, hs, (Selector.step_eq_some hq).left⟩
      all_goals simp [hf] at h
  complete before m after h hm hn hf k hk := by
    subst h
    have hv : k ∈ visited before := l.mem_visited u hc hm hn hf hk rfl
    have ⟨_, l', _⟩ := l.append_inv
    have ordered := l'.visited_ascending (fun w hw => u w (List.mem_append_left _ hw)) hc |>.right
    exact List.count_eq_one_of_mem (ordered.imp Int64.ne_of_lt) hv
  released before m after h hm hf := by
    subst h
    have ⟨t₁, l₁, l₂⟩ := l.append_inv
    have ⟨_, ht, l₂⟩ := l₂.cons_inv
    have hn : m.next.cursor = .idle := by
      have hc' := l.cursor_of_mem u (.inr ⟨none, hc⟩) m (List.mem_append_right _ List.mem_cons_self)
      obtain hi | ⟨last, ha⟩ := hc'
      case inl => rw [Moment.next_of_isStep hm]; simp [Table.step, hi]
      case inr =>
        obtain ⟨_, _, _, _, _, h, _⟩ | ⟨_, _, _, _, hn⟩ | ⟨_, _, hn⟩ := step_inv hm ha
        case inl => rcases hf with hf | ⟨_, hf⟩ <;> simp [hf] at h
        all_goals exact hn
    have ⟨hend, hlater⟩ := l₂.idle
      (fun w hw => u w (List.mem_append_right _ (List.mem_cons_of_mem _ hw))) hn
    exact ⟨hn, hend, hlater⟩

-- Between the steps of an enumeration anything may be done to the table but to start another one.
theorem startCursor_enumerates (s : Selector) (ops : List Op) (t : Table)
    (u : Unrestarted (Op.historyAll ops ((Op.startCursor s).run t).2)) :
    let begun := ((Op.startCursor s).run t).2
    let ms := Op.historyAll ops begun
    Enumerates s ms (Op.runAll ops begun).2 ∧
    Op.stepRepliesAll ops (Op.runAll ops begun).1 = (stepsOf ms).map Moment.reply ∧
    ∀ m ∈ stepsOf ms,
      m.reply = m.found.map (fun r => .bytes (r.map (·.2))) ∨
      m.reply = m.found.map (fun r => .handle (r.map fun row => Key.handle row.1)) := by
  intro begun ms
  refine ⟨?_, Op.stepRepliesAll_runAll ops begun, fun m hm => ?_⟩
  · exact (Op.historyAll_leads ops begun).enumerates u rfl
  · exact Moment.reply_of_isStep (by simpa using (List.mem_filter.mp hm).right)

-- Three users, the first of them with a handle in the upper half.
def threeUsers : Table where
  path := "root/alice.db"
  conn := {
    body := .store {
      content := {
        Content.blank with
        users := .table <| .put (.put (.put .empty (-3) (.blob [1])) 5 (.blob [2])) 7 (.blob [3]) }
      version := 0
      wal := true }
    phase := .idle
    peers := .ofPhases []
    obstacle := none }
  cursor := .idle
  key := ⟨.transparent, []⟩
  log := []

-- A user that is deleted in a guard is passed over, and is not visited when the guard brings it
-- back.
def aroundGuard : List Op :=
  [.advanceHandle, .guarded [.deleteUser 5, .advance] .drop, .advanceHandle, .advance]

theorem threeUsers_enumerates :
    let begun := ((Op.startCursor .users).run threeUsers).2
    Unrestarted (Op.historyAll aroundGuard begun) ∧
    visited (Op.historyAll aroundGuard begun) = [-3, 7] ∧
    Enumerates .users (Op.historyAll aroundGuard begun) (Op.runAll aroundGuard begun).2 :=
  ⟨by decide, by decide, startCursor_enumerates .users aroundGuard threeUsers (by decide) |>.left⟩

end AccountCache
