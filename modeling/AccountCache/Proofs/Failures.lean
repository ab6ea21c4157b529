import AccountCache.Proofs.Enumeration
import AccountCache.Proofs.Lockstep

open Relation (ReflTransGen)

namespace AccountCache

namespace Connection

-- What becomes of a connection by an operation that fails.
inductive Stumble (c : Connection) : Connection → Prop
  | look : Look c c' → Stumble c c'
  -- A commit was refused for readers.
  | wait : c.phase = .writing draft pending → Stumble c { c with phase := .writing draft true }

structure SameContent (c c' : Connection) : Prop where
  body          : c'.body = c.body
  content       : c'.content? = c.content?
  inTransaction : c'.inTransaction = c.inTransaction

-- The first connection differs from the second only in what it may have stumbled through.
inductive Shadows : Connection → Connection → Prop
  | same (c : Connection) : Shadows c c
  | looked (c : Connection) (s : Store) (hs : c.body.store? = .ok s)
      (hp : c.peers.pending = false) :
    Shadows { c with phase := .reading s.content s.version } { c with phase := .begun }
  | waited (c : Connection) (draft : Content) (pending pending' : Bool) :
    Shadows { c with phase := .writing draft pending } { c with phase := .writing draft pending' }

variable {c c' d : Connection}

theorem Stumble.same (s : Stumble c c') : SameContent c c' := by
  cases s
  case look l => cases l; exact ⟨read_body, read_content?, read_inTransaction⟩
  case wait h => exact ⟨rfl, by simp [content?, h], by simp [inTransaction, h]⟩

theorem stumbles_same (s : ReflTransGen Stumble c c') : SameContent c c' := by
  induction s
  case refl => exact ⟨rfl, rfl, rfl⟩
  case tail s ih =>
    have h := s.same
    exact ⟨h.body.trans ih.body, h.content.trans ih.content, h.inTransaction.trans ih.inTransaction⟩

theorem read_looks (c : Connection) {α : Type} (q : Content → Except QueryFault α) :
    (c.read q).2 = c ∨ ∃ s, c.phase = .begun ∧ c.body.store? = .ok s ∧ c.peers.pending = false ∧
      (c.read q).2 = { c with phase := .reading s.content s.version } := by
  cases hp : c.peers.pending
  case false =>
    obtain h | ⟨s, hb, hs, h⟩ := read_eq_or_look c q
    case inl => exact .inl h
    case inr => exact .inr ⟨s, hb, hs, rfl, h⟩
  case true =>
    unfold read
    split
    case h_3 => split <;> simp [hp]
    all_goals exact .inl rfl

namespace Shadows

theorem inTransaction (h : Shadows c c') : c.inTransaction = c'.inTransaction := by
  cases h <;> rfl

theorem read {α : Type} (q : Content → Except QueryFault α) (h : Shadows c c') :
    Concur Shadows (c.read q) (c'.read q) := by
  cases h
  case same   => exact ⟨rfl, .same _⟩
  case waited => exact ⟨rfl, .waited ..⟩
  case looked c s hs hp =>
    simp only [Connection.read, hs, hp, Bool.false_eq_true, if_false, true_and]
    split
    · exact ⟨rfl, .same _⟩
    · exact ⟨rfl, .looked c s hs hp⟩

theorem write (u : Content → Except QueryFault Content) (h : Shadows c c') :
    Concur Shadows (c.write u) (c'.write u) := by
  cases h
  case same => exact ⟨rfl, .same _⟩
  case waited c draft pending pending' =>
    simp only [Connection.write, draftFault?, journalFault?]
    cases u draft
    case error => exact ⟨rfl, .waited ..⟩
    case ok next => simp only; split <;> exact ⟨rfl, .waited ..⟩
  case looked c s hs hp =>
    simp only [Connection.write, hs]
    cases u s.content
    case error => exact ⟨rfl, .looked c s hs hp⟩
    case ok draft =>
      simp only [journalFault?, hp, ne_eq, not_true_eq_false, or_false, Bool.false_eq_true]
      split
      · exact ⟨rfl, .looked c s hs hp⟩
      · split
        · exact ⟨rfl, .looked c s hs hp⟩
        · exact ⟨rfl, .same _⟩

theorem begin (h : Shadows c c') : Concur Shadows c.begin c'.begin := by
  have hi := h.inTransaction
  obtain ⟨hn, hb⟩ | ⟨hn, hb⟩ := begin_cases c <;> obtain ⟨hn', hb'⟩ | ⟨hn', hb'⟩ :=
    begin_cases c' <;>
  rw [hb, hb']
  case inl.inl => exact ⟨rfl, h⟩
  case inl.inr => simp [hi, hn'] at hn
  case inr.inl => simp [hi, hn'] at hn
  case inr.inr => cases h <;> exact ⟨rfl, .same _⟩

theorem commit (h : Shadows c c') : Concur Shadows c.commit c'.commit := by
  cases h
  case same   => exact ⟨rfl, .same _⟩
  case looked => exact ⟨rfl, .same _⟩
  case waited => exact ⟨rfl, .same _⟩

theorem abort (h : Shadows c c') : Shadows c.abort c'.abort := by
  cases h <;> exact .same _

theorem stumble (s : Stumble c d) (h : Shadows c c') : Shadows d c' := by
  cases s
  case look l =>
    cases l
    case read q =>
      obtain he | ⟨s, hb, hs, hp, he⟩ := read_looks c q <;> rw [he]
      case inl => exact h
      case inr =>
        cases h
        case same   => cases c; cases hb; exact .looked _ s hs hp
        case looked => cases hb
        case waited => cases hb
  case wait hw =>
    cases h
    case same   => cases c; cases hw; exact .waited _ _ _ _
    case looked => cases hw
    case waited => cases hw; exact .waited _ _ _ _

theorem stumbles (s : ReflTransGen Stumble c d) (h : Shadows c c') : Shadows d c' := by
  induction s
  case refl => exact h
  case tail s ih => exact ih.stumble s

theorem lockstep : Lockstep Shadows where
  inTransaction := inTransaction
  read _        := read _
  write _       := write _
  clear _       := write _
  begin         := begin
  commit        := commit
  abort         := abort

end Shadows

theorem abort_congr (hb : c'.body = c.body) (hp : c'.peers = c.peers)
    (ho : c'.obstacle = c.obstacle) :
    c'.abort = c.abort := by
  rw [abort, hb, hp, ho, abort]

theorem abort_of_not_inTransaction (hi : c.inTransaction = false) : c.abort = c := by
  have hidle : c.phase = .idle := by simpa [inTransaction] using hi
  rw [abort, ← hidle]

theorem commit_stumbles {f : QueryFault} (h : c.commit.1 = .error f) :
    ReflTransGen Stumble c c.commit.2 := by
  obtain ⟨_, he⟩ | ⟨_, _, hp, _, he⟩ | ⟨_, _, _, _, he⟩ | ⟨_, _, he⟩ := commit_cases c
  case inl         => exact he ▸ .refl
  case inr.inl     => exact he ▸ .single (.wait hp)
  case inr.inr.inl => rw [he] at h; cases h
  case inr.inr.inr => rw [he] at h; cases h

end Connection

namespace Table

open Connection (Look Stumble)

variable {t : Table} {f : Failure}

theorem error_of_onConnection {g : Connection → Except QueryFault α × Connection}
    (h : (onConnection g t).1 = .error f) : ∃ fault, (g t.conn).1 = .error fault := by
  have hr : (onConnection g t).1 = (g t.conn).1.mapError Failure.query := rfl
  cases he : (g t.conn).1
  case error fault => exact ⟨fault, rfl⟩
  case ok          => rw [hr, he] at h; cases h

theorem eq_of_write_error {u : Content → Except QueryFault Content} (h : (write u t).1 = .error f) :
    (write u t).2 = t := by
  obtain ⟨_, he⟩ := error_of_onConnection h
  obtain ⟨_, hw⟩ | ⟨_, _, _, _, _, _, hw⟩ | ⟨_, _, _, _, _, hw⟩ := Connection.write_cases t.conn u
  case inl => rw [write, onConnection_of_error hw]
  all_goals rw [hw] at he; cases he

theorem eq_of_begin_error (h : (begin t).1 = .error f) : (begin t).2 = t := by
  cases hi : t.inTransaction
  case true  => rw [begin_of_inTransaction hi]
  case false => rw [begin_of_not_inTransaction hi] at h; cases h

theorem abort_conn_of_follows {t' : Table} (hi : t.inTransaction = false)
    (w : Follows Connection.Work { t with conn := { t.conn with phase := .begun } } t') :
    (abort t').2.conn = t.conn := by
  obtain ⟨_, hbody⟩ := Connection.works_in_transaction w.conn rfl
  obtain ⟨hpeers, hobstacle⟩ := Connection.moves_frame w.moves.conn
  exact (Connection.abort_congr hbody hpeers hobstacle).trans
    (Connection.abort_of_not_inTransaction hi)

theorem abort_conn_of_commit_error (h : (commit t).1 = .error f) :
    (abort (commit t).2).2.conn = (abort t).2.conn := by
  obtain ⟨_, he⟩ := error_of_onConnection h
  have hbody := (Connection.stumbles_same (Connection.commit_stumbles he)).body
  obtain ⟨hpeers, hobstacle⟩ := Connection.Move.frame (c := t.conn) .commit
  exact Connection.abort_congr hbody hpeers hobstacle

theorem truncate_conn_of_error (hi : t.inTransaction = false) (h : (truncate t).1 = .error f) :
    (truncate t).2.conn = t.conn := by
  have w := clear_follows (t := { t with conn := { t.conn with phase := .begun } }) TableName.all
  simp only [truncate, hi, Bool.false_eq_true, if_false] at h ⊢
  cases hc : clear TableName.all { t with conn := { t.conn with phase := .begun } }
  case mk r t' =>
    rw [hc] at w
    have hw := abort_conn_of_follows hi w
    cases r <;> simp only [hc] at h ⊢
    case error => exact hw
    case ok =>
      cases he : commit t'
      case mk r t'' =>
        cases r <;> simp only [he] at h ⊢
        case ok => cases h
        case error =>
          have hcommit := abort_conn_of_commit_error (congrArg Prod.fst he)
          rw [he] at hcommit
          exact hcommit.trans hw

end Table

namespace Op

open Connection (Look Stumble)

variable {op : Op} {t : Table} {f : Failure}

theorem error_of_map {α β : Type} {r : Except Failure α} {g : α → β} (h : r.map g = .error f) :
    r = .error f := by
  cases r <;> cases h
  rfl

theorem error_of_answer {g : α → Reply} {act : Action α} (h : (answer g act t).1 = .error f) :
    (act t).1 = .error f :=
  error_of_map h

theorem run_stumbles (h : (op.run t).1 = .error f) (ht : op = truncate → t.inTransaction = false) :
    Table.Follows Stumble t (op.run t).2 := by
  have still {t' : Table} (he : t' = t) : Table.Follows Stumble t t' := he ▸ .refl
  have looks {t' : Table} (l : Table.Follows Look t t') : Table.Follows Stumble t t' := l.mono .look
  have write {u : Content → Except QueryFault Content} (h : (done (Table.write u) t).1 = .error f) :
      Table.Follows Stumble t (done (Table.write u) t).2 :=
    still (Table.eq_of_write_error (error_of_answer h))
  cases op
  case scalar             => exact looks Table.read_follows
  case nodePayload        => exact looks Table.read_follows
  case fingerprintPayload => exact looks Table.read_follows
  case countChildren      => exact looks Table.read_follows
  case checkIntegrity     => exact looks Table.read_follows
  case nodeRecord         => exact looks Table.nodeRecord_follows
  case readHandleKeys     => exact looks Table.readHandleKeys_follows
  case advance            => exact looks Table.step_follows
  case advanceHandle      => exact looks Table.step_follows
  case putNode            => exact write h
  case deleteNode         => exact write h
  case putUser            => exact write h
  case deleteUser         => exact write h
  case putContact         => exact write h
  case deleteContact      => exact write h
  case putScalar s bytes  =>
    apply still
    cases hs : s.isReserved
    case true  => simp only [run, done, answer, Table.putScalar, hs, if_true]
    case false =>
      have hput := error_of_answer h
      simp only [run, done, answer, Table.putScalar, hs, Bool.false_eq_true, if_false] at hput ⊢
      exact Table.eq_of_write_error hput
  case startCursor        => cases h
  case abort              => cases h
  case begin              => exact still (Table.eq_of_begin_error (error_of_answer h))
  case commit             =>
    obtain ⟨_, hc⟩ := Table.error_of_onConnection (error_of_answer h)
    exact .conn_steps (Connection.commit_stumbles hc)
  case truncate           =>
    have hconn := Table.truncate_conn_of_error (ht rfl) (error_of_answer h)
    exact { Table.truncate_follows with conn := hconn ▸ .refl }
  case guarded steps ending =>
    cases hi : t.inTransaction
    case true  => exact still (congrArg Prod.snd (run_guarded_of_inTransaction steps ending hi))
    case false => rw [run_guarded_of_not_inTransaction steps ending hi] at h; cases h

theorem step_cursor_of_error (h : (Table.step t).1 = .error f) :
    (Table.step t).2.cursor = .idle := by
  obtain ⟨_, he⟩ | ⟨_, _, _, ⟨_, _, _, _, _, hr, _⟩ | ⟨_, _, _, hr, _⟩ | ⟨_, _, hc⟩⟩ :=
    Table.step_cases t
  case inl         => rw [he] at h; cases h
  case inr.inl     => cases hr.symm.trans h
  case inr.inr.inl => cases hr.symm.trans h
  case inr.inr.inr => exact hc

theorem run_cursor_of_error (h : (op.run t).1 = .error f) :
    (op.run t).2.cursor = if op.isStep then .idle else t.cursor := by
  cases hp : op.isGuarded
  case true =>
    cases op <;> try contradiction
    case guarded steps ending =>
      cases hi : t.inTransaction
      case true  => rw [run_guarded_of_inTransaction steps ending hi]; rfl
      case false => rw [run_guarded_of_not_inTransaction steps ending hi] at h; cases h
  case false =>
    cases hs : op.isStep
    case false =>
      apply run_cursor hp hs
      cases op <;> first | rfl | cases h
    case true =>
      cases op <;> try contradiction
      case advance       => exact step_cursor_of_error (error_of_map (error_of_answer h))
      case advanceHandle => exact step_cursor_of_error (error_of_map (error_of_answer h))

end Op

-- What the master key answers to an opening depends on what it is given only.
def MasterKey.Steady (k : MasterKey) : Prop :=
  ∀ call call' associated sealed, k.unwrap call associated sealed = k.unwrap call' associated sealed

namespace Table

open Connection (Shadows Stumble)

-- The first table differs from the second only in failures that it has been through.
structure Echoes (t t' : Table) : Prop where
  beside : Beside Shadows t t'
  key    : t.key.key = t'.key.key
  steady : t.key.key.Steady

variable {t t' : Table} {α : Type}

namespace Echoes

theorem of_beside {R R' : Connection → Connection → Prop} {x y : Except Failure α × Table}
    (e : Echoes t t') (h : Concur (Beside Shadows) x y) (f : Follows R t x.2)
    (f' : Follows R' t' y.2) :
    Concur Echoes x y where
  result := h.result
  states := ⟨h.states, f.key.trans (e.key.trans f'.key.symm), f.key.symm ▸ e.steady⟩

theorem scalar (s : Slot) (e : Echoes t t') :
    Concur Echoes (Table.scalar s t) (Table.scalar s t') :=
  e.of_beside (e.beside.onConnection (e.beside.conn.read _)) read_follows read_follows

theorem readHandleKey (kind : HandleKeyKind) (e : Echoes t t') :
    Concur Echoes (Table.readHandleKey kind t) (Table.readHandleKey kind t') := by
  obtain ⟨r, t₁, t₁', hr, hr', e₁⟩ := (e.scalar (.handleKey kind)).eq
  unfold Table.readHandleKey
  rw [hr, hr']
  rcases r with _ | _ | sealed
  case error   => exact ⟨rfl, e₁⟩
  case ok.none => exact ⟨rfl, e₁⟩
  case ok.some =>
    have hu : (t₁.key.unwrap kind.associated sealed).1 =
        (t₁'.key.unwrap kind.associated sealed).1 := by
      simp only [Keyholder.unwrap, ← e₁.key]
      exact e₁.steady ..
    simp only [hu]
    split <;> exact ⟨rfl, { e₁ with beside := { e₁.beside with } }⟩

theorem readHandleKeys (e : Echoes t t') :
    Concur Echoes (Table.readHandleKeys t) (Table.readHandleKeys t') := by
  obtain ⟨r, t₁, t₁', hr, hr', e₁⟩ := (e.readHandleKey .node).eq
  unfold Table.readHandleKeys
  rw [hr, hr']
  cases r
  case error => exact ⟨rfl, e₁⟩
  case ok =>
    obtain ⟨r, t₂, t₂', hr, hr', e₂⟩ := (e₁.readHandleKey .parent).eq
    simp only [hr, hr']
    cases r <;> exact ⟨rfl, e₂⟩

theorem stumbles {d : Table} (e : Echoes t t') (f : Follows Stumble t d)
    (hc : d.cursor = t.cursor) :
    Echoes d t' where
  beside := ⟨e.beside.conn.stumbles f.conn, f.path.trans e.beside.path, hc.trans e.beside.cursor⟩
  key    := f.key.trans e.key
  steady := f.key.symm ▸ e.steady

end Echoes

end Table

namespace Op

open Connection (Shadows Stumble)
open Table (Echoes)

theorem run_echoes_of_plain {op : Op} {t t' : Table} (hp : op.isGuarded = false) (e : Echoes t t') :
    Concur Echoes (op.run t) (op.run t') := by
  cases hk : op.asksHandleKeys
  case false =>
    exact e.of_beside (run_beside Shadows.lockstep hp hk e.beside) (run_follows hp) (run_follows hp)
  case true =>
    cases op <;> try contradiction
    case scalar         => exact (e.scalar _).map _
    case readHandleKeys => exact e.readHandleKeys.map _

mutual

theorem run_echoes : (op : Op) → {t t' : Table} → Echoes t t' → Concur Echoes (op.run t) (op.run t')
  | guarded steps ending, t, t', e => by
    have hi := e.beside.inTransaction Shadows.lockstep
    cases h : t.inTransaction
    case true =>
      rw [run_guarded_of_inTransaction steps ending h,
        run_guarded_of_inTransaction steps ending (hi ▸ h)]
      exact ⟨rfl, e⟩
    case false =>
      rw [run_guarded_of_not_inTransaction steps ending h,
        run_guarded_of_not_inTransaction steps ending (hi ▸ h)]
      have begun := e.of_beside (e.beside.begin Shadows.lockstep) Table.begin_follows
        Table.begin_follows
      obtain ⟨hsteps, left⟩ := runAll_echoes steps begun.states
      have ended := left.of_beside (left.beside.finish Shadows.lockstep ending)
        (closing_leads ending _).follows (closing_leads ending _).follows
      exact ⟨by rw [hsteps, ended.result], ended.states⟩
  | scalar .., _, _, e | putScalar .., _, _, e | readHandleKeys, _, _, e | nodePayload .., _, _, e
  | fingerprintPayload .., _, _, e | nodeRecord .., _, _, e | countChildren .., _, _, e
  | putNode .., _, _, e | deleteNode .., _, _, e | putUser .., _, _, e | deleteUser .., _, _, e
  | putContact .., _, _, e | deleteContact .., _, _, e | startCursor .., _, _, e | advance, _, _, e
  | advanceHandle, _, _, e | begin, _, _, e | commit, _, _, e | abort, _, _, e | truncate, _, _, e
  | checkIntegrity, _, _, e => run_echoes_of_plain rfl e

theorem runAll_echoes : (ops : List Op) → {t t' : Table} → Echoes t t' →
    (runAll ops t).1 = (runAll ops t').1 ∧ Echoes (runAll ops t).2 (runAll ops t').2
  | [], _, _, e => ⟨rfl, e⟩
  | op :: ops, _, _, e => by
    have one := run_echoes op e
    obtain ⟨rest, left⟩ := runAll_echoes ops one.states
    exact ⟨congrArg₂ List.cons one.result rest, left⟩

end

def moments : List Op → Table → List Moment
  | [], _ => []
  | op :: ops, t => ⟨op, t⟩ :: moments ops (op.run t).2

end Op

inductive Row : Table → List Moment → Prop
  | nil (t : Table) : Row t []
  | cons (op : Op) (t : Table) {ms : List Moment} : Row (op.run t).2 ms → Row t (⟨op, t⟩ :: ms)

theorem Op.moments_row (ops : List Op) (t : Table) : Row t (moments ops t) := by
  induction ops generalizing t
  case nil            => exact .nil t
  case cons op ops ih => exact .cons op t (ih _)

theorem Leads.row (l : Leads t ms t') : Row t ms := by
  induction l
  case nil            => exact .nil _
  case cons op t _ ms _ _ ih => exact .cons op t ih

def Op.isTruncate : Op → Bool
  | truncate => true
  | _ => false

namespace Moment

-- Steps of an enumeration release the cursor when they fail, and a transaction keeps what was
-- emptied before the first table that could not be.
def leavesTrace (m : Moment) : Bool := m.op.isStep || (m.op.isTruncate && m.table.inTransaction)

def isVain (m : Moment) : Bool := !m.reply.isOk && !m.leavesTrace

variable {m : Moment} {t' : Table}

open Table (Echoes)

theorem echoes_of_isVain (h : m.isVain = true) (e : Echoes m.table t') : Echoes m.next t' := by
  simp only [isVain, leavesTrace, Bool.and_eq_true, Bool.not_eq_true', Bool.or_eq_false_iff,
    Bool.and_eq_false_iff] at h
  obtain ⟨hfails, hstep, htrace⟩ := h
  obtain ⟨f, hf⟩ : ∃ f, (m.op.run m.table).1 = .error f := by
    cases hr : (m.op.run m.table).1
    case error f => exact ⟨f, rfl⟩
    case ok => rw [reply, hr] at hfails; cases hfails
  have hcursor := Op.run_cursor_of_error hf
  rw [hstep] at hcursor
  apply e.stumbles _ hcursor
  apply Op.run_stumbles hf
  intro ht
  cases htrace
  case inl hn => rw [ht] at hn; cases hn
  case inr hi => exact hi

end Moment

-- Where the vain moments of a row are left out, the others reply as before.
theorem Row.pruned {ms : List Moment} {t t' : Table} (r : Row t ms) (e : Table.Echoes t t') :
    (Op.runAll ((ms.filter (!·.isVain)).map (·.op)) t').1 =
    (ms.filter (!·.isVain)).map (·.reply) := by
  induction r generalizing t'
  case nil => rfl
  case cons op t ms _ ih =>
    cases hv : Moment.isVain ⟨op, t⟩
    case true =>
      -- The second table is not moved, and still echoes the first one.
      simp only [List.filter_cons, hv, Bool.not_true, Bool.false_eq_true, if_false]
      exact ih (Moment.echoes_of_isVain hv e)
    case false =>
      have one := Op.run_echoes op e
      simp only [List.filter_cons, hv, Bool.not_false, if_true, List.map_cons, Op.runAll]
      exact congrArg₂ List.cons one.result.symm (ih one.states)

namespace Op

-- An operation that fails changes neither what the table holds nor whether a transaction is open;
-- but for truncations inside a transaction, and for the cursor, which a failing step releases. So
-- every run gives the same without its vain operations, whether its guards are opened up or not.
theorem failures_leave_no_trace (t : Table) :
    (∀ op f, (run op t).1 = .error f → (op = truncate → t.inTransaction = false) →
      t.conn.SameContent (run op t).2.conn ∧
      (run op t).2.cursor = if op.isStep then .idle else t.cursor) ∧
    (t.inTransaction = true →
      run begin t = (.error (.query .nestedBegin), t) ∧
      ∀ steps ending, run (guarded steps ending) t = (.error (.query .nestedBegin), t)) ∧
    (t.inTransaction = false → run commit t = (.error (.query .noTransaction), t)) ∧
    (∀ kind bytes, run (putScalar (.handleKey kind) bytes) t =
      (.error (.reservedSlot (.handleKey kind)), t)) ∧
    (t.key.key.Steady → ∀ ops, ∀ ms ∈ [moments ops t, historyAll ops t],
      (runAll ((ms.filter (!·.isVain)).map (·.op)) t).1 =
        (ms.filter (!·.isVain)).map (·.reply)) := by
  refine ⟨fun op f h ht => ?_, fun hi => ?_, fun hi => ?_, fun _ _ => rfl, fun hk ops ms hms => ?_⟩
  case refine_1 => exact ⟨Connection.stumbles_same (run_stumbles h ht).conn, run_cursor_of_error h⟩
  case refine_2 =>
    refine ⟨?_, fun steps ending => run_guarded_of_inTransaction steps ending hi⟩
    simp only [run, done, answer, Table.begin_of_inTransaction hi]
    rfl
  case refine_3 =>
    obtain ⟨_, h⟩ | ⟨_, _, hp, _⟩ | ⟨_, _, hp, _⟩ | ⟨hn, _⟩ := Connection.commit_cases t.conn
    case inl => simp only [run, done, answer, Table.commit, Table.onConnection_of_error h]; rfl
    case inr.inl => simp [Table.inTransaction, Connection.inTransaction, hp] at hi
    case inr.inr.inl => simp [Table.inTransaction, Connection.inTransaction, hp] at hi
    case inr.inr.inr => cases hi.symm.trans hn
  case refine_4 =>
    have e : Table.Echoes t t := ⟨⟨.same _, rfl, rfl⟩, rfl, hk⟩
    have r : Row t ms := by
      rcases List.mem_pair.mp hms with rfl | rfl
      · exact moments_row ops t
      · exact (historyAll_leads ops t).row
    exact r.pruned e

-- A transaction is open on a store with a view in the place of its nodes, and with texts for
-- payloads.
def scarred : Table where
  path   := "root/alice.db"
  conn   := {
    body := .store {
      content := {
        init  := .table <| .put .empty 0 (.text [1])
        nodes := .view
        users := .table <| .put (.put .empty 5 (.blob [2])) 9 (.text [3])
        pcrs  := .table .empty }
      version := 3
      wal     := false }
    phase    := .begun
    peers    := .ofPhases [.idle]
    obstacle := none }
  cursor := .active .users none
  key    := ⟨.transparent, []⟩
  log    := []

-- Seven of ten fail. The second step does, and the truncation empties one table before it does.
def stumbling : List Op :=
  [.scalar .syncToken, .begin, .putContact 1 [7], .advance, .advance, .deleteNode 3,
    .truncate, .commit, .readHandleKeys, .commit]

theorem scarred_leaves_no_trace :
    let ms := moments stumbling scarred
    scarred.key.key.Steady ∧
    ms.map (·.reply.isOk) = [false, false, true, true, false, false, false, true, false, false] ∧
    ms.map (·.isVain) = [true, true, false, false, false, true, false, false, true, true] ∧
    (runAll [.putContact 1 [7], .advance, .advance, .truncate, .commit] scarred).1 =
      (ms.filter (!·.isVain)).map (·.reply) := by
  intro ms
  have hk : scarred.key.key.Steady := fun _ _ _ _ => rfl
  obtain ⟨_, _, _, _, pruned⟩ := failures_leave_no_trace scarred
  refine ⟨hk, by decide +kernel, by decide +kernel, ?_⟩
  rw [← pruned hk stumbling ms List.mem_cons_self]
  rfl

end Op
end AccountCache
