import AccountCache.Proofs.Bracketing
import AccountCache.Proofs.HandleKeys.Keeping
import AccountCache.Proofs.LastWrites

namespace AccountCache

namespace Content

variable {c c' : Content}

theorem Opens.eq_of_isStandard (ho : c.Opens c') (hc : c.IsStandard) : c' = c := by
  have hi := ho.keeps.init hc.init
  have hn := ho.keeps.nodes hc.nodes
  have hu := ho.keeps.users hc.users
  have hp := ho.keeps.pcrs hc.pcrs
  cases c
  cases c'
  simp only [mk.injEq]
  exact ⟨hi, hn, hu, hp⟩

theorem Opens.reflects (ho : blank.Opens c) : c.Reflects [] := by
  cases ho
  case old h => exact absurd rfl h
  case new node parent _ =>
    refine ⟨⟨_, rfl, fun s => ?_⟩, ⟨_, rfl, fun _ => rfl⟩, ⟨_, rfl, fun _ => rfl⟩,
      ⟨_, rfl, fun _ => rfl⟩⟩
    have apart (kind : HandleKeyKind) : s.val.key ≠ (Slot.handleKey kind).key := by
      intro h
      have hs := s.property
      simp [Slot.key_injective h, Slot.isReserved] at hs
    rw [Rows.get?_put, if_neg (apart .parent), Rows.get?_put, if_neg (apart .node)]
    rfl

end Content

namespace Table

variable {t : Table} {c : Content} {ops : List Op} {op : Op}

theorem entry_reflects (hl : t.conn.Lone) (hi : t.inTransaction = false)
    (hc : t.conn.content? = some c) (r : c.Reflects ops) (he : op.isEntry = true) :
    (op.run t).1 = .ok .done ∧ (op.run t).2.inTransaction = false ∧
      ∃ c', (op.run t).2.conn.content? = some c' ∧ c'.Reflects (ops ++ [op]) := by
  by_cases hn : op = .truncate
  case pos =>
    subst hn
    obtain ⟨s, hq⟩ := hl.quiet hc
    obtain ⟨conn, log, s', ht, _, _, hin, ⟨f, hw, _⟩ | ⟨next, hw, hok, hq'⟩⟩ :=
      truncate_of_quiet hq r.isStandard
    all_goals rw [hl.obstacle, wipe_all s.wal r.isStandard] at hw
    case inl => contradiction
    case inr =>
      cases hw
      have hdone : (Op.truncate.run t).1 = .ok .done := congrArg (·.map fun _ => Reply.done) hok
      have hleft : (Op.truncate.run t).2 = { t with conn, log } := ht
      rw [hleft]
      exact ⟨hdone, hin.trans hi, .empty, hq'.sees, .truncated ops⟩
  case neg =>
    obtain ⟨u, c', _, hrun, hu, r'⟩ := r.update he hn
    obtain ⟨conn, hw, hc', _⟩ := Connection.write_lone hl hc hu
    have hin : conn.inTransaction = t.conn.inTransaction := by
      have f := (Connection.write_frame t.conn u).right.right
      rwa [hw] at f
    have h : op.run t = (.ok .done, { t with conn }) := by
      simp only [hrun, Op.done, Op.answer, write, onConnection_of_ok hw]
      rfl
    rw [h]
    exact ⟨rfl, hin.trans hi, c', hc', r'⟩

end Table

-- What is done with the store at a time: an operation, or the table is closed and opened again,
-- with any options and any master key.
inductive Turn
  | work (op : Op)
  | reopen (options : StoreOptions) (key : String)

namespace Turn

def requests (label name : String) : Turn → List Request
  | work op            => [.table label op]
  | reopen options key => [.close label, .open label options name key]

def op? : Turn → Option Op
  | work op    => some op
  | reopen _ _ => none

-- Entries are made, and the store may be closed and opened again at any point.
def isAllowed : Turn → Bool
  | work op     => op.isEntry
  | reopen _ _  => true

def ops (turns : List Turn) : List Op := turns.filterMap op?

end Turn

theorem Request.runAll_append (n : Naming) (rs rs' : List Request) (h : Host) :
    runAll n (rs ++ rs') h =
      ((runAll n rs h).1 ++ (runAll n rs' (runAll n rs h).2).1,
          (runAll n rs' (runAll n rs h).2).2) := by
  induction rs generalizing h
  case nil            => rfl
  case cons r rs ih   => simp only [List.cons_append, runAll, ih]

namespace Host

variable {h : Host} {n : Naming} {path name label : String} {ops : List Op} {op : Op}

-- The table has the store to itself, and no transaction is open; it holds what the operations have
-- left.
structure Recalls (n : Naming) (path label : String) (ops : List Op) (h : Host) : Prop where
  sole : ∃ b w s, h.Sole n path label b w s
  rest : ∃ c, h.AtRest label c ∧ c.Reflects ops

-- A store that a table has to itself holds what the table shows between transactions.
theorem Sole.finds {b : Birth} {w : Wipe} {s : Seat} {c : Content} (so : h.Sole n path label b w s)
    (hm : path ≠ memoryPath) (hi : (h.assemble label s).inTransaction = false)
    (hc : (h.assemble label s).conn.content? = some c) :
    ∃ store, Finds n path h.disk (.store store) ∧ store.content = c := by
  obtain ⟨_, hh⟩ := so.holds
  obtain ⟨store, hb, _⟩ := hh.body
  have hlt : s.body < h.disk.bodies.length := lt_of_not_isBlank (by rw [hb]; rfl)
  have hget : h.disk.bodies[s.body]? = some (.store store) := by
    rw [Host.body, List.getElem?_eq_getElem hlt, Option.getD_some] at hb
    rw [List.getElem?_eq_getElem hlt, hb]
  refine ⟨store, .file hm ?_, ?_⟩
  · rw [found?, Disk.makePath_of_reaches hh.reaches, hh.file]
    exact hget
  · rw [Connection.content?_of_not_inTransaction hi] at hc
    obtain ⟨store', hs', rfl⟩ := Connection.committed?_eq_some.mp hc
    cases (congrArg Body.store? hb).symm.trans hs'
    rfl

namespace Recalls

theorem shows (r : h.Recalls n path label ops) : ∃ t, h.table? label = some t ∧ Shows t ops := by
  obtain ⟨_, _, s, so⟩ := r.sole
  obtain ⟨c, ⟨t, ht, _, hc⟩, reflects⟩ := r.rest
  cases so.table?.symm.trans ht
  have hpend : (h.assemble label s).conn.peers.pending = false := by rw [so.lone.peers]; rfl
  exact ⟨_, so.table?, reflects.reads ⟨hc, .inr hpend⟩⟩

theorem entry (r : h.Recalls n path label ops) (he : op.isEntry = true) :
    ∃ h', (Request.table label op).run n h = (some (.ok .done), h') ∧
      h'.Recalls n path label (ops ++ [op]) := by
  obtain ⟨b, w, s, so⟩ := r.sole
  obtain ⟨c, ⟨t, ht, hi, hc⟩, reflects⟩ := r.rest
  cases so.table?.symm.trans ht
  obtain ⟨store, hb, _⟩ := so.standard.body
  obtain ⟨h', _, _, hrun, _, ht'⟩ := run_table op n so.seat (by rw [hb]; rfl)
  obtain ⟨s', so'⟩ := so.step op
  obtain ⟨hdone, hi', c', hc', reflects'⟩ := Table.entry_reflects so.lone hi hc reflects he
  rw [hrun] at so'
  rw [hdone] at hrun
  exact ⟨h', hrun, ⟨b, _, s', so'⟩, c', ⟨_, ht', hi', hc'⟩, reflects'⟩

theorem reopen (r : h.Recalls n path label ops) (o : StoreOptions) (key : String)
    (hp : n.path name = .ok path) (hm : path ≠ memoryPath) :
    ∃ h', Request.runAll n (Turn.requests label name (.reopen o key)) h =
        ([some (.ok .done), some (.ok .done)], h') ∧ h'.Recalls n path label ops := by
  obtain ⟨b, w, s, so⟩ := r.sole
  obtain ⟨c, ⟨t, ht, hi, hc⟩, reflects⟩ := r.rest
  cases so.table?.symm.trans ht
  obtain ⟨h', s', ho, so', _⟩ := so.close.openNamed label o key hp hm
  have hclosed : (h.close label).1 = some () := close_of_seat? so.seat
  have hopen : (h.close label).2.open label n o name key = (.ok (), h') := by
    rw [open_of_no_seats so.close.seats, ho]
  -- The opening comes back to the content, in which all tables are there.
  have rest : h'.AtRest label c := by
    obtain ⟨store, hf, hstore⟩ := so.finds hm hi hc
    have p := openNamed_preserves label n o name key (h.close label).2
    rw [ho, close_disk] at p
    obtain ⟨c', hrest, opens, _⟩ := p.opened path _ store hp hf rfl rfl
    have hc' : c' = store.content := opens.eq_of_isStandard (hstore ▸ reflects.isStandard)
    exact hstore ▸ hc' ▸ hrest
  refine ⟨h', ?_, ⟨b, _, s', so'⟩, c, rest, reflects⟩
  simp only [Turn.requests, Request.runAll, Request.run, hopen, hclosed]
  rfl

theorem of_open {o : StoreOptions} {key : String} (hp : n.path name = .ok path)
    (hm : path ≠ memoryPath)
    (hs : h.seats = []) (hl : h.disk.Lacks n.root path)
    (ho : (h.open label n o name key).1 = .ok ()) :
    (h.open label n o name key).2.Recalls n path label [] := by
  have p := open_preserves label n o name key h
  obtain ⟨s, so⟩ := open_sole hp hm (.absent hm hl) hs ho
  obtain ⟨c, hrest, opens, _⟩ := p.opened path (.foreign []) .blank hp (.absent hm hl) rfl ho
  exact ⟨⟨_, _, s, so⟩, c, hrest, opens.reflects⟩

theorem turn (r : h.Recalls n path label ops) (hp : n.path name = .ok path) (hm : path ≠ memoryPath)
    {turn : Turn} (ht : turn.isAllowed = true) :
    let out := Request.runAll n (turn.requests label name) h
    (∀ reply ∈ out.1, reply = some (.ok .done)) ∧
      out.2.Recalls n path label (ops ++ turn.op?.toList) := by
  cases turn
  case work op =>
    obtain ⟨h', hrun, r'⟩ := r.entry (show op.isEntry = true from ht)
    simp only [Turn.requests, Request.runAll, hrun]
    exact ⟨by simp, r'⟩
  case reopen o key =>
    obtain ⟨h', hrun, r'⟩ := r.reopen o key hp hm
    rw [hrun]
    exact ⟨by simp, by rwa [Turn.op?, Option.toList_none, List.append_nil]⟩

theorem turns (r : h.Recalls n path label ops) (hp : n.path name = .ok path)
    (hm : path ≠ memoryPath) (turns : List Turn) (ht : ∀ turn ∈ turns, turn.isAllowed = true) :
    let out := Request.runAll n (turns.flatMap (Turn.requests label name)) h
    (∀ reply ∈ out.1, reply = some (.ok .done)) ∧
      out.2.Recalls n path label (ops ++ Turn.ops turns) := by
  induction turns generalizing h ops
  case nil =>
    exact ⟨by simp [Request.runAll], by rwa [Turn.ops, List.filterMap_nil, List.append_nil]⟩
  case cons turn turns ih =>
    obtain ⟨hfirst, r'⟩ := r.turn hp hm (ht turn List.mem_cons_self)
    obtain ⟨hrest, r''⟩ := ih r' fun t hmem => ht t (List.mem_cons_of_mem _ hmem)
    simp only [List.flatMap_cons, Request.runAll_append]
    refine ⟨fun reply hreply => ?_, ?_⟩
    · exact (List.mem_append.mp hreply).elim (hfirst reply) (hrest reply)
    · have hops : Turn.ops (turn :: turns) = turn.op?.toList ++ Turn.ops turns := by
        simp only [Turn.ops, List.filterMap_cons]
        cases turn.op? <;> rfl
      rw [hops, ← List.append_assoc]
      exact r''

end Recalls

-- Whatever is put, deleted, emptied, closed and reopened, readers give the last writes.
theorem open_recalls (label : String) (o : StoreOptions) (key : String)
    (hp : n.path name = .ok path)
    (hm : path ≠ memoryPath) (hs : h.seats = []) (hl : h.disk.Lacks n.root path)
    (ho : (h.open label n o name key).1 = .ok ()) (turns : List Turn)
    (ht : ∀ turn ∈ turns, turn.isAllowed = true) :
    let out := Request.runAll n (turns.flatMap (Turn.requests label name))
      (h.open label n o name key).2
    (∀ reply ∈ out.1, reply = some (.ok .done)) ∧
      ∃ t, out.2.table? label = some t ∧ Shows t (Turn.ops turns) := by
  have r := Recalls.of_open hp hm hs hl ho |>.turns hp hm turns ht
  exact ⟨r.left, r.right.shows⟩

-- Two records under handles that differ in their top bit, and a user under one of them.
def twoHandles : List Turn := [
  .work (.putNode ⟨5, 1, some [], some "a", .outgoing, [1]⟩),
  .work (.putNode ⟨0x8000000000000005, 1, none, none, .none, [2]⟩),
  .work (.putUser 5 [3]),
  .reopen .default "k",
  .work (.deleteNode 0x8000000000000005),
  .work (.putNode ⟨5, 2, none, none, .none, [4]⟩)]

theorem bare_recalls :
    let out := Request.runAll plainNaming (twoHandles.flatMap (Turn.requests "t" "a"))
      (bare.open "t" plainNaming .default "a" "k").2
    (∀ reply ∈ out.1, reply = some (.ok .done)) ∧
    (∃ t, out.2.table? "t" = some t ∧ Shows t (Turn.ops twoHandles)) ∧
    Op.left (Op.onNode 5) (Turn.ops twoHandles) = some ⟨5, 2, none, none, .none, [4]⟩ ∧
    Op.left (Op.onNode 0x8000000000000005) (Turn.ops twoHandles) = none ∧
    Op.left (Op.onUser 5) (Turn.ops twoHandles) = some [3] := by
  have r := open_recalls (h := bare) "t" .default "k" plainNaming_path (by decide) rfl
    (by rfl) bare_open
    twoHandles (by decide)
  exact ⟨r.left, r.right, by decide, by decide, by decide⟩

end Host
end AccountCache
