import AccountCache.Proofs.Quiet

namespace AccountCache

namespace Table

open Connection (attempt)

-- The tables work on the same content, the one in a transaction and the other outside any.
structure Alike (t t' : Table) : Prop where
  conn     : ∃ s s' content, s.wal = s'.wal ∧ content.IsStandard ∧
    t.conn.Quiet s content ∧ t'.conn.Quiet s' content
  obstacle : t.conn.obstacle = t'.conn.obstacle
  inside   : t.inTransaction = true
  outside  : t'.inTransaction = false
  cursor   : t.cursor = t'.cursor
  key      : t.key = t'.key

structure Agree {α : Type} (x x' : Except Failure α × Table) : Prop where
  result : x.1 = x'.1
  alike  : Alike x.2 x'.2

variable {t t' : Table} {α β : Type}

theorem Agree.eq {x x' : Except Failure α × Table} (a : Agree x x') :
    ∃ r t t', x = (r, t) ∧ x' = (r, t') ∧ Alike t t' :=
  ⟨x.1, x.2, x'.2, rfl, Prod.ext a.result.symm rfl, a.alike⟩

theorem Agree.map {x x' : Except Failure α × Table} (a : Agree x x') (f : α → β) :
    Agree (x.1.map f, x.2) (x'.1.map f, x'.2) where
  result := congrArg (·.map f) a.result
  alike  := a.alike

theorem Agree.answer {f : α → Reply} {act : Action α} (a : Agree (act t) (act t')) :
    Agree (Op.answer f act t) (Op.answer f act t') :=
  a.map f

namespace Alike

theorem read (a : Alike t t') (q : Content → Except QueryFault α) :
    Agree (Table.read q t) (Table.read q t') := by
  obtain ⟨s, s', content, hwal, hs, h, h'⟩ := a.conn
  obtain ⟨hr, hq⟩ := h.read q
  obtain ⟨hr', hq'⟩ := h'.read q
  exact {
    result := congrArg (·.mapError Failure.query) (hr.trans hr'.symm)
    alike  := { a with
      conn     := ⟨s, s', content, hwal, hs, hq, hq'⟩
      obstacle := Connection.read_obstacle.trans <| a.obstacle.trans Connection.read_obstacle.symm
      inside   := Connection.read_inTransaction.trans a.inside
      outside  := Connection.read_inTransaction.trans a.outside } }

theorem write {u : Content → Except QueryFault Content} (hu : Content.Update u) (a : Alike t t') :
    Agree (Table.write u t) (Table.write u t') := by
  obtain ⟨s, s', content, hwal, hs, h, h'⟩ := a.conn
  have hattempt : attempt s'.wal t'.conn.obstacle u content =
      attempt s.wal t.conn.obstacle u content := by
    rw [hwal, a.obstacle]
  unfold Table.write
  obtain ⟨f, ha, hw⟩ | ⟨next, c, s₁, ha, hw, hwal₁, _, hq⟩ := h.write u <;>
  obtain ⟨f', ha', hw'⟩ | ⟨next', c', s₁', ha', hw', hwal₁', _, hq'⟩ := h'.write u <;>
  cases ha'.symm.trans (hattempt.trans ha)
  case inl.inl =>
    rw [onConnection_of_error hw, onConnection_of_error hw']
    exact ⟨rfl, a⟩
  case inr.inr =>
    have f := Connection.write_frame t.conn u
    have f' := Connection.write_frame t'.conn u
    rw [hw] at f
    rw [hw'] at f'
    rw [onConnection_of_ok hw, onConnection_of_ok hw']
    have hstandard := hu.isStandard (Connection.attempt_eq_ok ha |>.left) hs
    exact ⟨rfl, { a with
      conn     := ⟨s₁, s₁', next, hwal₁.trans (hwal.trans hwal₁'.symm), hstandard, hq, hq'⟩
      obstacle := f.right.left.trans (a.obstacle.trans f'.right.left.symm)
      inside   := f.right.right.trans a.inside
      outside  := f'.right.right.trans a.outside }⟩

theorem truncate (a : Alike t t') : Agree (Table.truncate t) (Table.truncate t') := by
  obtain ⟨s, s', content, hwal, hs, h, h'⟩ := a.conn
  have hwipe : wipe s'.wal t'.conn.obstacle TableName.all content =
      wipe s.wal t.conn.obstacle TableName.all content := by rw [hwal, a.obstacle]
  obtain ⟨c, log, s₁, he, hwal₁, ho, hi, hr⟩ := truncate_of_quiet h hs
  obtain ⟨c', log', s₁', he', hwal₁', ho', hi', hr'⟩ := truncate_of_quiet h' hs
  have alike {left : Content} (hs : left.IsStandard) (hq : c.Quiet s₁ left)
      (hq' : c'.Quiet s₁' left) :
      Alike (Table.truncate t).2 (Table.truncate t').2 := by
    rw [he, he']
    exact { a with
      conn     := ⟨s₁, s₁', left, hwal₁.trans (hwal.trans hwal₁'.symm), hs, hq, hq'⟩
      obstacle := ho.trans (a.obstacle.trans ho'.symm)
      inside   := hi.trans a.inside
      outside  := hi'.trans a.outside }
  obtain ⟨f, hw, hf, hq⟩ | ⟨next, hw, hf, hq⟩ := hr <;>
  obtain ⟨f', hw', hf', hq'⟩ | ⟨next', hw', hf', hq'⟩ := hr' <;>
  cases hw'.symm.trans (hwipe.trans hw)
  case inl.inl => exact ⟨hf.trans hf'.symm, alike hs hq hq'⟩
  case inr.inr => exact ⟨hf.trans hf'.symm, alike (wipe_isStandard hs hw) hq hq'⟩

theorem putScalar (slot : Slot) (bytes : Bytes) (a : Alike t t') :
    Agree (Table.putScalar slot bytes t) (Table.putScalar slot bytes t') := by
  unfold Table.putScalar
  split
  case isTrue    => exact ⟨rfl, a⟩
  case isFalse h => exact a.write (.putScalar (by simpa using h))

theorem nodeRecord (h : Handle) (a : Alike t t') :
    Agree (Table.nodeRecord h t) (Table.nodeRecord h t') := by
  obtain ⟨r, t₁, t₁', hr, hr', a'⟩ := (a.read (Content.node h)).eq
  unfold Table.nodeRecord
  rw [hr, hr']
  match r with
  | .error _ | .ok none | .ok (some _) => exact ⟨rfl, a'⟩

theorem readHandleKey (kind : HandleKeyKind) (a : Alike t t') :
    Agree (Table.readHandleKey kind t) (Table.readHandleKey kind t') := by
  obtain ⟨r, t₁, t₁', hr, hr', a'⟩ := (a.read (Content.scalar (.handleKey kind))).eq
  unfold Table.readHandleKey scalar
  rw [hr, hr']
  match r with
  | .error _ | .ok none => exact ⟨rfl, a'⟩
  | .ok (some sealed) =>
    simp only [a'.key]
    split <;> exact ⟨rfl, { a' with key := rfl }⟩

theorem readHandleKeys (a : Alike t t') :
    Agree (Table.readHandleKeys t) (Table.readHandleKeys t') := by
  obtain ⟨r, t₁, t₁', hr, hr', a₁⟩ := (a.readHandleKey .node).eq
  unfold Table.readHandleKeys
  rw [hr, hr']
  match r with
  | .error _ => exact ⟨rfl, a₁⟩
  | .ok node =>
    obtain ⟨r, t₂, t₂', hr, hr', a₂⟩ := (a₁.readHandleKey .parent).eq
    simp only [hr, hr']
    match r with
    | .error _ | .ok _ => exact ⟨rfl, a₂⟩

theorem startCursor (s : Selector) (a : Alike t t') :
    Agree (Table.startCursor s t) (Table.startCursor s t') where
  result := rfl
  alike  := by
    unfold Table.startCursor
    rw [a.cursor]
    split <;> exact { a with cursor := rfl }

theorem step (a : Alike t t') : Agree (Table.step t) (Table.step t') := by
  unfold Table.step
  rw [a.cursor]
  split
  case h_1 => exact ⟨rfl, a⟩
  case h_2 s last _ =>
    obtain ⟨r, t₁, t₁', hr, hr', a'⟩ := (a.read (s.step last)).eq
    rw [hr, hr']
    match r with
    | .error _ | .ok none | .ok (some _) => exact ⟨rfl, { a' with cursor := rfl }⟩

theorem advance (a : Alike t t') : Agree (Table.advance t) (Table.advance t') :=
  a.step.map _

theorem advanceHandle (a : Alike t t') : Agree (Table.advanceHandle t) (Table.advanceHandle t') :=
  a.step.map _

end Alike

end Table

open Table (Alike Agree)

namespace Op

def isDelimiter : Op → Bool
  | begin | commit | abort | guarded .. => true
  | _ => false

theorem run_alike {op : Op} {t t' : Table} (h : op.isDelimiter = false) (a : Alike t t') :
    Agree (op.run t) (op.run t') := by
  cases op <;> try contradiction
  case readHandleKeys => exact a.readHandleKeys.answer
  case nodeRecord     => exact (a.nodeRecord _).answer
  case startCursor    => exact (a.startCursor _).answer
  case truncate       => exact a.truncate.answer
  case putScalar      => exact (a.putScalar _ _).answer
  case advance        => exact a.advance.answer
  case advanceHandle  => exact a.advanceHandle.answer
  case putNode        => exact (a.write .putNode).answer
  case deleteNode     => exact (a.write .deleteNode).answer
  case putUser        => exact (a.write .putUser).answer
  case deleteUser     => exact (a.write .deleteUser).answer
  case putContact     => exact (a.write .putContact).answer
  case deleteContact  => exact (a.write .deleteContact).answer
  all_goals exact (a.read _).answer

theorem runAll_alike {ops : List Op} {t t' : Table} (h : ∀ op ∈ ops, op.isDelimiter = false)
    (a : Alike t t') :
    (runAll ops t).1 = (runAll ops t').1 ∧ Alike (runAll ops t).2 (runAll ops t').2 := by
  induction ops generalizing t t'
  case nil => exact ⟨rfl, a⟩
  case cons op ops ih =>
    have one := run_alike (h op List.mem_cons_self) a
    obtain ⟨hrest, alike⟩ := ih (fun op' hop => h op' (List.mem_cons_of_mem _ hop)) one.alike
    exact ⟨congrArg₂ List.cons one.result hrest, alike⟩

theorem runAll_append (ops ops' : List Op) (t : Table) :
    runAll (ops ++ ops') t =
      ((runAll ops t).1 ++ (runAll ops' (runAll ops t).2).1, (runAll ops' (runAll ops t).2).2) := by
  induction ops generalizing t
  case nil => rfl
  case cons op ops ih => simp only [List.cons_append, runAll, ih]

-- A transaction around operations changes none of their results and nothing of what they leave.
-- Other tables may be on the store as long as they are not in the way. One that is in the way
-- refuses the changes one by one outside a transaction, and all of them at the end of one, so that
-- the two runs have nothing in common. What it does to a guard or a truncation is said of these.
theorem runAll_bracketed {t : Table} {s : Store} (hb : t.conn.body = .store s)
    (hs : s.content.IsStandard) (hi : t.inTransaction = false)
    (hr : s.wal = true ∨ t.conn.peers.reading = false) (hw : t.conn.peers.writing = false)
    (hp : t.conn.peers.pending = false) (ops : List Op)
    (hops : ∀ op ∈ ops, op.isDelimiter = false) :
    let inside := runAll (.begin :: ops ++ [.commit]) t
    let outside := runAll ops t
    inside.1 = .ok .done :: outside.1 ++ [.ok .done] ∧
    (∃ left, inside.2.conn.committed? = some left ∧ outside.2.conn.committed? = some left) ∧
    inside.2.cursor = outside.2.cursor ∧
    inside.2.inTransaction = false ∧ outside.2.inTransaction = false := by
  have hidle : t.conn.phase = .idle := by
    simpa [Table.inTransaction, Connection.inTransaction] using hi
  have hq : t.conn.Quiet s s.content := {
    body     := hb
    sees     := by simp [Connection.content?, hidle, hb, Body.store?, Except.toOption]
    current  := by simp [hidle]
    drafting := .inr (.inr rfl)
    reading  := hr
    writing  := hw
    pending  := hp }
  -- The transaction begins.
  let begun : Table := { t with conn := { t.conn with phase := .begun } }
  have hbegin : Op.begin.run t = (.ok .done, begun) := by
    obtain ⟨hn, _⟩ | ⟨_, hc⟩ := Connection.begin_cases t.conn
    · cases hi.symm.trans hn
    · simp only [run, done, answer, Table.begin, Table.onConnection_of_ok hc]; rfl
  have alike : Alike begun t := {
    conn     := ⟨s, s, s.content, rfl, hs, hq.begin hi, hq⟩
    obstacle := rfl
    inside   := rfl
    outside  := hi
    cursor   := rfl
    key      := rfl }
  obtain ⟨hreplies, last⟩ := runAll_alike hops alike
  obtain ⟨s₁, s₁', left, _, _, h, h'⟩ := last.conn
  -- It ends on the content that the other table has arrived at.
  obtain ⟨conn, s₂, hc, _, hq₂, hout, _⟩ := h.commit last.inside
  have hcommit : Op.commit.run (runAll ops begun).2 =
      (.ok .done, { (runAll ops begun).2 with conn }) := by
    simp only [run, done, answer, Table.commit, Table.onConnection_of_ok hc]
    rfl
  have hinside : runAll (.begin :: ops ++ [.commit]) t =
      (.ok .done :: (runAll ops t).1 ++ [.ok .done], { (runAll ops begun).2 with conn }) := by
    rw [List.cons_append, runAll, hbegin]
    simp only [runAll_append, runAll, hcommit, hreplies, List.cons_append]
  intro inside outside
  simp only [inside, outside, hinside]
  refine ⟨trivial, ⟨left, ?_, ?_⟩, last.cursor, hout, last.outside⟩
  · exact (Connection.content?_of_not_inTransaction hout).symm.trans hq₂.sees
  · exact (Connection.content?_of_not_inTransaction last.outside).symm.trans h'.sees

-- A store without a log, with a user whose payload is a text.
def plainTable : Table where
  path   := "root/alice.db"
  conn   := {
    body := .store {
      content := ⟨.table .empty, .table .empty, .table <| .put (.put .empty 5 (.text [2])) 9
        (.blob [3]), .table .empty⟩
      version := 3
      wal     := false }
    phase    := .idle
    peers    := .ofPhases [.idle]
    obstacle := none }
  cursor := .active .users none
  key    := ⟨.transparent, []⟩
  log    := []

-- The enumeration visits a user that was put in, fails at the text, and the table is emptied.
def mixedOps : List Op :=
  [.putUser 1 [7], .advance, .advanceHandle, .putScalar (.handleKey .node) [],
    .readHandleKeys, .truncate, .putContact 2 [8]]

def plainLeft : Content :=
  ⟨.table .empty, .table .empty, .table .empty, .table <| .put .empty 2 (.blob [8])⟩

theorem plainTable_bracketed :
    (∀ op ∈ mixedOps, op.isDelimiter = false) ∧
    (Op.runAll mixedOps plainTable).2.conn.committed? = some plainLeft ∧
    (Op.runAll (.begin :: mixedOps ++ [.commit]) plainTable).2.conn.committed? =
    some plainLeft := by
  have hops : ∀ op ∈ mixedOps, op.isDelimiter = false := by decide
  have hout : (Op.runAll mixedOps plainTable).2.conn.committed? = some plainLeft := by
    decide +kernel
  obtain ⟨_, ⟨left, hin, hleft⟩, _⟩ :=
    runAll_bracketed (t := plainTable) rfl ⟨rfl, rfl, rfl, rfl⟩ rfl (.inr rfl) rfl rfl mixedOps hops
  exact ⟨hops, hout, hin.trans (hleft.symm.trans hout)⟩

end Op
end AccountCache
