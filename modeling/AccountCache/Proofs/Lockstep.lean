import AccountCache.Proofs.History

namespace AccountCache

-- What the operations on a table ask of its content, but for the handle keys.
inductive Content.Query : {α : Type} → (Content → Except QueryFault α) → Prop
  | scalar (h : s.isReserved = false) : Query (Content.scalar s)
  | nodePayload        : Query (Content.nodePayload h)
  | fingerprintPayload : Query (Content.fingerprintPayload fingerprint)
  | node               : Query (Content.node h)
  | countChildren      : Query (Content.countChildren kind parent)
  | step {s : Selector} : Query (s.step last)
  | isIntact           : Query fun c => .ok c.isIntact

structure Concur {ε α σ : Type} (R : σ → σ → Prop) (x y : Except ε α × σ) : Prop where
  result : x.1 = y.1
  states : R x.2 y.2

namespace Concur

variable {ε α β σ : Type} {R : σ → σ → Prop} {x y : Except ε α × σ}

theorem eq (h : Concur R x y) : ∃ r s s', x = (r, s) ∧ y = (r, s') ∧ R s s' :=
  ⟨x.1, x.2, y.2, rfl, Prod.ext h.result.symm rfl, h.states⟩

theorem map (h : Concur R x y) (f : α → β) : Concur R (x.1.map f, x.2) (y.1.map f, y.2) where
  result := congrArg (·.map f) h.result
  states := h.states

end Concur

-- Related connections answer every statement alike and stay related.
structure Connection.Lockstep (R : Connection → Connection → Prop) : Prop where
  inTransaction : R c c' → c.inTransaction = c'.inTransaction
  read {α : Type} {q : Content → Except QueryFault α} :
    Content.Query q → R c c' → Concur R (c.read q) (c'.read q)
  write  : Content.Update u → R c c' → Concur R (c.write u) (c'.write u)
  clear (name : TableName) :
    R c c' → Concur R (c.write (Content.clear name)) (c'.write (Content.clear name))
  begin  : R c c' → Concur R c.begin c'.begin
  commit : R c c' → Concur R c.commit c'.commit
  abort  : R c c' → R c.abort c'.abort

namespace Table

open Connection (Lockstep)

-- What two tables have in common whose connections are related. Their master keys may differ.
structure Beside (R : Connection → Connection → Prop) (t t' : Table) : Prop where
  conn   : R t.conn t'.conn
  path   : t.path = t'.path
  cursor : t.cursor = t'.cursor

namespace Beside

variable {R : Connection → Connection → Prop} {t t' : Table} {α : Type}

theorem onConnection {f : Connection → Except QueryFault α × Connection} (b : Beside R t t')
    (h : Concur R (f t.conn) (f t'.conn)) :
    Concur (Beside R) (Table.onConnection f t) (Table.onConnection f t') where
  result := congrArg (·.mapError Failure.query) h.result
  states := { b with conn := h.states }

theorem inTransaction (sim : Lockstep R) (b : Beside R t t') : t.inTransaction = t'.inTransaction :=
  sim.inTransaction b.conn

theorem read (sim : Lockstep R) {q : Content → Except QueryFault α} (hq : Content.Query q)
    (b : Beside R t t') : Concur (Beside R) (Table.read q t) (Table.read q t') :=
  b.onConnection (sim.read hq b.conn)

theorem write (sim : Lockstep R) {u : Content → Except QueryFault Content} (hu : Content.Update u)
    (b : Beside R t t') : Concur (Beside R) (Table.write u t) (Table.write u t') :=
  b.onConnection (sim.write hu b.conn)

theorem begin (sim : Lockstep R) (b : Beside R t t') :
    Concur (Beside R) (Table.begin t) (Table.begin t') :=
  b.onConnection (sim.begin b.conn)

theorem commit (sim : Lockstep R) (b : Beside R t t') :
    Concur (Beside R) (Table.commit t) (Table.commit t') :=
  b.onConnection (sim.commit b.conn)

theorem abort (sim : Lockstep R) (b : Beside R t t') :
    Concur (Beside R) (Table.abort t) (Table.abort t') where
  result := rfl
  states := { b with conn := sim.abort b.conn }

theorem putScalar (sim : Lockstep R) (s : Slot) (bytes : Bytes) (b : Beside R t t') :
    Concur (Beside R) (Table.putScalar s bytes t) (Table.putScalar s bytes t') := by
  unfold Table.putScalar
  split
  case isTrue    => exact ⟨rfl, b⟩
  case isFalse h => exact b.write sim (.putScalar (by simpa using h))

theorem nodeRecord (sim : Lockstep R) (h : Handle) (b : Beside R t t') :
    Concur (Beside R) (Table.nodeRecord h t) (Table.nodeRecord h t') := by
  obtain ⟨r, t₁, t₁', hr, hr', b₁⟩ := (b.read sim (.node (h := h))).eq
  unfold Table.nodeRecord
  rw [hr, hr']
  rcases r with _ | _ | _ <;> exact ⟨rfl, b₁⟩

theorem startCursor (s : Selector) (b : Beside R t t') :
    Concur (Beside R) (Table.startCursor s t) (Table.startCursor s t') where
  result := rfl
  states := by
    unfold Table.startCursor
    rw [b.cursor]
    split <;> exact { b with cursor := rfl }

theorem step (sim : Lockstep R) (b : Beside R t t') :
    Concur (Beside R) (Table.step t) (Table.step t') := by
  unfold Table.step
  rw [b.cursor]
  split
  case h_1 => exact ⟨rfl, b⟩
  case h_2 s last _ =>
    have hq : Content.Query (s.step last) := .step
    obtain ⟨r, t₁, t₁', hr, hr', b₁⟩ := (b.read sim hq).eq
    rw [hr, hr']
    rcases r with _ | _ | _ <;> exact ⟨rfl, { b₁ with cursor := rfl }⟩

theorem clear (sim : Lockstep R) (names : List TableName) (b : Beside R t t') :
    Concur (Beside R) (Table.clear names t) (Table.clear names t') := by
  induction names generalizing t t'
  case nil => exact ⟨rfl, b⟩
  case cons name names ih =>
    obtain ⟨r, t₁, t₁', hr, hr', b₁⟩ := (b.onConnection (sim.clear name b.conn)).eq
    unfold Table.clear Table.write
    rw [hr, hr']
    cases r
    case error => exact ⟨rfl, b₁⟩
    case ok    => exact ih b₁

theorem begun (sim : Lockstep R) (b : Beside R t t') (hi : t.inTransaction = false) :
    Beside R { t with conn := { t.conn with phase := .begun } }
      { t' with conn := { t'.conn with phase := .begun } } := by
  have h := (b.begin sim).states
  rwa [begin_of_not_inTransaction hi,
    begin_of_not_inTransaction ((b.inTransaction sim).symm.trans hi)] at h

theorem truncate (sim : Lockstep R) (b : Beside R t t') :
    Concur (Beside R) (Table.truncate t) (Table.truncate t') := by
  unfold Table.truncate
  rw [← b.inTransaction sim]
  split
  case isTrue => exact b.clear sim _
  case isFalse hi =>
    obtain ⟨r, t₁, t₁', hr, hr', b₁⟩ :=
      ((b.begun sim (by simpa using hi)).clear sim TableName.all).eq
    rw [hr, hr']
    cases r
    case error => exact ⟨rfl, (b₁.abort sim).states⟩
    case ok =>
      obtain ⟨r, t₂, t₂', hr, hr', b₂⟩ := (b₁.commit sim).eq
      simp only [hr, hr']
      cases r
      case error => exact ⟨rfl, (b₂.abort sim).states⟩
      case ok    => exact ⟨rfl, { b₂ with }⟩

theorem finish (sim : Lockstep R) (ending : Ending) (b : Beside R t t') :
    Concur (Beside R) (Table.finish ending t) (Table.finish ending t') := by
  cases ending
  case drop => exact b.abort sim
  case commit =>
    obtain ⟨r, t₁, t₁', hr, hr', b₁⟩ := (b.commit sim).eq
    unfold Table.finish
    simp only [hr, hr']
    cases r
    case error => exact ⟨rfl, (b₁.abort sim).states⟩
    case ok    => exact ⟨rfl, b₁⟩

end Beside

end Table

namespace Op

open Connection (Lockstep)
open Table (Beside)

variable {R : Connection → Connection → Prop} {t t' : Table}

-- Whether what the operation gives is, or comes from, a handle key.
def asksHandleKeys : Op → Bool
  | scalar s => s.isReserved
  | readHandleKeys => true
  | _ => false

theorem run_beside (sim : Lockstep R) {op : Op} (hp : op.isGuarded = false)
    (hk : op.asksHandleKeys = false) (b : Beside R t t') :
    Concur (Beside R) (op.run t) (op.run t') := by
  cases op <;> try contradiction
  case scalar             => exact (b.read sim (.scalar hk)).map _
  case putScalar          => exact (b.putScalar sim _ _).map _
  case nodePayload        => exact (b.read sim .nodePayload).map _
  case fingerprintPayload => exact (b.read sim .fingerprintPayload).map _
  case nodeRecord         => exact (b.nodeRecord sim _).map _
  case countChildren      => exact (b.read sim .countChildren).map _
  case putNode            => exact (b.write sim .putNode).map _
  case deleteNode         => exact (b.write sim .deleteNode).map _
  case putUser            => exact (b.write sim .putUser).map _
  case deleteUser         => exact (b.write sim .deleteUser).map _
  case putContact         => exact (b.write sim .putContact).map _
  case deleteContact      => exact (b.write sim .deleteContact).map _
  case startCursor        => exact (b.startCursor _).map _
  case advance            => exact ((b.step sim).map _).map _
  case advanceHandle      => exact ((b.step sim).map _).map _
  case begin              => exact (b.begin sim).map _
  case commit             => exact (b.commit sim).map _
  case abort              => exact (b.abort sim).map _
  case truncate           => exact (b.truncate sim).map _
  case checkIntegrity     => exact (b.read sim .isIntact).map _

end Op
end AccountCache
