import AccountCache.Proofs.Connection
import AccountCache.Table.Op

open Relation (ReflTransGen)

namespace AccountCache

-- The changes that the operations on a table make, short of emptying it.
inductive Content.Update : (Content → Except QueryFault Content) → Prop
  | putScalar (h : s.isReserved = false) : Update (Content.putScalar s bytes)
  | putNode       : Update (Content.putNode r)
  | deleteNode    : Update (Content.deleteNode h)
  | putUser       : Update (Content.putUser h bytes)
  | deleteUser    : Update (Content.deleteUser h)
  | putContact    : Update (Content.putContact h bytes)
  | deleteContact : Update (Content.deleteContact h)

namespace Connection

inductive Look (c : Connection) : Connection → Prop
  | read {α : Type} {q : Content → Except QueryFault α} : Look c (c.read q).2

inductive Statement (c : Connection) : Connection → Prop
  | read {α : Type} {q : Content → Except QueryFault α} : Statement c (c.read q).2
  | write (h : Content.Update u) : Statement c (c.write u).2

-- What can be done in a transaction without an end to it.
inductive Work (c : Connection) : Connection → Prop
  | statement : Statement c c' → Work c c'
  | clear (name : TableName) : Work c (c.write (Content.clear name)).2

inductive Move (c : Connection) : Connection → Prop
  | work   : Work c c' → Move c c'
  | begin  : Move c c.begin.2
  | commit : Move c c.commit.2
  | abort  : Move c c.abort

variable {c c' : Connection} {u : Content → Except QueryFault Content}

theorem Look.statement (l : Look c c') : Statement c c' := by
  cases l
  exact .read

theorem write_frame (c : Connection) (u : Content → Except QueryFault Content) :
    (c.write u).2.peers = c.peers ∧ (c.write u).2.obstacle = c.obstacle ∧
      (c.write u).2.inTransaction = c.inTransaction := by
  obtain ⟨_, h⟩ | ⟨_, _, _, _, _, hi, h⟩ | ⟨_, _, _, _, _, h⟩ := write_cases c u
  case inl     => rw [h]; exact ⟨rfl, rfl, rfl⟩
  case inr.inl => rw [h, hi]; exact ⟨rfl, rfl, by simp [inTransaction]⟩
  case inr.inr => rw [h]; exact ⟨rfl, rfl, rfl⟩

-- In a transaction nothing reaches the body before the commit.
theorem write_body (hi : c.inTransaction = true) : (c.write u).2.body = c.body := by
  obtain ⟨_, h⟩ | ⟨_, _, _, _, _, _, h⟩ | ⟨_, _, _, _, ho, _⟩ := write_cases c u
  case inl     => rw [h]
  case inr.inl => rw [h]
  case inr.inr => simp [hi] at ho

theorem Work.frame (w : Work c c') :
    c'.peers = c.peers ∧ c'.obstacle = c.obstacle ∧ c'.inTransaction = c.inTransaction := by
  cases w
  case clear name => exact write_frame c _
  case statement s =>
    cases s
    case read  => exact ⟨read_peers, read_obstacle, read_inTransaction⟩
    case write => exact write_frame c _

theorem Work.body (w : Work c c') (hi : c.inTransaction = true) : c'.body = c.body := by
  cases w
  case clear name => exact write_body hi
  case statement s =>
    cases s
    case read  => exact read_body
    case write => exact write_body hi

theorem begin_cases (c : Connection) :
    (c.inTransaction = true ∧ c.begin = (.error .nestedBegin, c)) ∨
    (c.inTransaction = false ∧ c.begin = (.ok (), { c with phase := .begun })) := by
  cases h : c.inTransaction <;> simp [begin, h]

theorem commit_cases (c : Connection) :
    (c.inTransaction = false ∧ c.commit = (.error .noTransaction, c)) ∨
    (∃ draft pending, c.phase = .writing draft pending ∧ c.mustWait = true ∧
      c.commit = (.error .locked, { c with phase := .writing draft true })) ∨
    (∃ draft pending, c.phase = .writing draft pending ∧ c.mustWait = false ∧
      c.commit = (.ok (), { c with body := c.body.update (·.commit draft), phase := .idle })) ∨
    (c.inTransaction = true ∧ c.phase.isWriting = false ∧
      c.commit = (.ok (), { c with phase := .idle })) := by
  cases h : c.phase
  case idle => simp [commit, inTransaction, h]
  case writing draft pending => cases hw : c.mustWait <;> simp [commit, inTransaction, h, hw]
  all_goals simp [commit, inTransaction, h, Phase.isWriting]

theorem Move.frame (m : Move c c') : c'.peers = c.peers ∧ c'.obstacle = c.obstacle := by
  cases m
  case work w => exact ⟨w.frame.left, w.frame.right.left⟩
  case begin  => obtain ⟨_, h⟩ | ⟨_, h⟩ := begin_cases c <;> rw [h] <;> exact ⟨rfl, rfl⟩
  case commit =>
    obtain ⟨_, h⟩ | ⟨_, _, _, _, h⟩ | ⟨_, _, _, _, h⟩ | ⟨_, _, h⟩ := commit_cases c <;> rw [h] <;>
      exact ⟨rfl, rfl⟩
  case abort => exact ⟨rfl, rfl⟩

theorem works_in_transaction (w : ReflTransGen Work c c') (hi : c.inTransaction = true) :
    c'.inTransaction = true ∧ c'.body = c.body := by
  induction w
  case refl => exact ⟨hi, rfl⟩
  case tail w ih => exact ⟨w.frame.right.right.trans ih.left, (w.body ih.left).trans ih.right⟩

theorem moves_frame (m : ReflTransGen Move c c') :
    c'.peers = c.peers ∧ c'.obstacle = c.obstacle := by
  induction m
  case refl => exact ⟨rfl, rfl⟩
  case tail m ih => exact ⟨m.frame.left.trans ih.left, m.frame.right.trans ih.right⟩

end Connection

namespace Table

theorem onConnection_of_ok {f : Connection → Except QueryFault α × Connection} {t : Table} {a : α}
    {conn : Connection} (h : f t.conn = (.ok a, conn)) :
    onConnection f t = (.ok a, { t with conn }) := by
  unfold onConnection
  rw [h]
  rfl

theorem onConnection_of_error {f : Connection → Except QueryFault α × Connection} {t : Table}
    {fault : QueryFault} {conn : Connection} (h : f t.conn = (.error fault, conn)) :
    onConnection f t = (.error (.query fault), { t with conn }) := by
  unfold onConnection
  rw [h]
  rfl

theorem begin_of_inTransaction {t : Table} (h : t.inTransaction = true) :
    begin t = (.error (.query .nestedBegin), t) := by
  obtain ⟨_, hb⟩ | ⟨hn, _⟩ := Connection.begin_cases t.conn
  case inl => exact onConnection_of_error hb
  case inr => cases h.symm.trans hn

theorem begin_of_not_inTransaction {t : Table} (h : t.inTransaction = false) :
    begin t = (.ok (), { t with conn := { t.conn with phase := .begun } }) := by
  obtain ⟨hi, _⟩ | ⟨_, hb⟩ := Connection.begin_cases t.conn
  case inl => cases h.symm.trans hi
  case inr => exact onConnection_of_ok hb

theorem read_of_sees {c : Content} {q : Content → Except QueryFault α} {t : Table} {a : α}
    (hs : t.conn.Sees c) (hq : q c = .ok a) :
    read q t = (.ok a, { t with conn := (t.conn.read q).2 }) :=
  onConnection_of_ok (Prod.ext ((hs.read q).left.trans hq) rfl)

-- The later table comes from the earlier one by steps of its connection.
structure Follows (R : Connection → Connection → Prop) (t t' : Table) : Prop where
  conn  : ReflTransGen R t.conn t'.conn
  path  : t'.path = t.path
  key   : t'.key.key = t.key.key
  calls : ∃ calls, t'.key.calls = t.key.calls ++ calls ∧ ∀ call ∈ calls, call.isWrap = false

namespace Follows

variable {R S : Connection → Connection → Prop} {t t₁ t₂ t₃ : Table}

protected theorem refl : Follows R t t where
  conn  := .refl
  path  := rfl
  key   := rfl
  calls := ⟨[], by simp, by simp⟩

protected theorem trans (f₁ : Follows R t₁ t₂) (f₂ : Follows R t₂ t₃) : Follows R t₁ t₃ where
  conn  := f₁.conn.trans f₂.conn
  path  := f₂.path.trans f₁.path
  key   := f₂.key.trans f₁.key
  calls := by
    have ⟨calls₁, h₁, hn₁⟩ := f₁.calls
    have ⟨calls₂, h₂, hn₂⟩ := f₂.calls
    refine ⟨calls₁ ++ calls₂, by rw [h₂, h₁, List.append_assoc], fun call hc => ?_⟩
    cases List.mem_append.mp hc
    case inl hc => exact hn₁ call hc
    case inr hc => exact hn₂ call hc

theorem mono (h : ∀ {c c'}, R c c' → S c c') (f : Follows R t t') : Follows S t t' :=
  { f with conn := ReflTransGen.mono (fun _ _ => h) _ _ f.conn }

theorem statements (f : Follows Connection.Look t t') : Follows Connection.Statement t t' :=
  f.mono Connection.Look.statement

theorem works (f : Follows Connection.Statement t t') : Follows Connection.Work t t' :=
  f.mono .statement

theorem moves (f : Follows Connection.Work t t') : Follows Connection.Move t t' :=
  f.mono .work

theorem conn_steps {c : Connection} (h : ReflTransGen R t.conn c) :
    Follows R t { t with conn := c } where
  conn  := h
  path  := rfl
  key   := rfl
  calls := ⟨[], by simp, by simp⟩

theorem conn_step {c : Connection} (h : R t.conn c) : Follows R t { t with conn := c } :=
  .conn_steps (.single h)

theorem with_cursor (f : Follows R t t') (cursor : Cursor) : Follows R t { t' with cursor } :=
  { f with }

theorem with_note (f : Follows R t t') : Follows R t (t'.note level text) :=
  { f with }

end Follows

open Connection (Look Statement Work Move)

variable {t : Table}

theorem read_follows {α : Type} {q : Content → Except QueryFault α} :
    Follows Look t (read q t).2 :=
  .conn_step .read

theorem write_follows (h : Content.Update u) : Follows Statement t (write u t).2 :=
  .conn_step (.write h)

theorem begin_follows : Follows Move t (begin t).2 :=
  .conn_step .begin

theorem commit_follows : Follows Move t (commit t).2 :=
  .conn_step .commit

theorem abort_follows : Follows Move t (abort t).2 :=
  .conn_step .abort

theorem nodeRecord_follows {h : Handle} : Follows Look t (nodeRecord h t).2 := by
  have f := read_follows (t := t) (q := Content.node h)
  unfold nodeRecord
  split <;> simp_all

theorem step_follows : Follows Look t (step t).2 := by
  unfold step
  split
  case h_1 => exact .refl
  case h_2 s last _ =>
    have f := read_follows (t := t) (q := s.step last)
    split <;> simp_all [Follows.with_cursor]

theorem startCursor_follows {s : Selector} : Follows Look t (startCursor s t).2 := by
  unfold startCursor
  split
  · exact Follows.refl.with_note.with_cursor _
  · exact Follows.refl.with_cursor _

theorem clear_follows (names : List TableName) : Follows Work t (clear names t).2 := by
  induction names generalizing t
  case nil => exact .refl
  case cons name names ih =>
    have f : Follows Work t (write (Content.clear name) t).2 := .conn_step (.clear name)
    unfold clear
    split
    case h_1 => exact .trans (by simp_all) ih
    case h_2 => simp_all

theorem readHandleKey_follows (kind : HandleKeyKind) :
    Follows Look t (readHandleKey kind t).2 := by
  have f : Follows Look t (scalar (.handleKey kind) t).2 := read_follows
  unfold readHandleKey
  split
  case h_1 => simp_all
  case h_2 => simp_all
  case h_3 sealed t' h =>
    rw [h] at f
    have f' : Follows Look t { t' with key := (t'.key.unwrap kind.associated sealed).2 } :=
      f.trans
        { Follows.refl with
          calls := ⟨[.unwrap kind.associated sealed.length], rfl, by simp [KeyCall.isWrap]⟩ }
    dsimp only
    split <;> exact f'

theorem readHandleKeys_follows : Follows Look t (readHandleKeys t).2 := by
  have f := readHandleKey_follows (t := t) .node
  unfold readHandleKeys
  split
  case h_1 => simp_all
  case h_2 node t' h =>
    have f' : Follows Look t (readHandleKey .parent t').2 :=
      .trans (by simp_all) (readHandleKey_follows .parent)
    split <;> simp_all

theorem truncate_follows_of_inTransaction (h : t.inTransaction = true) :
    Follows Work t (truncate t).2 := by
  simp only [truncate, h, if_true]
  exact clear_follows _

theorem truncate_follows : Follows Move t (truncate t).2 := by
  cases h : t.inTransaction
  case true => exact (truncate_follows_of_inTransaction h).moves
  case false =>
    have hb : Follows Move t { t with conn := { t.conn with phase := .begun } } := by
      have hi : t.conn.inTransaction = false := h
      have hm := begin_follows (t := t)
      simpa [begin, onConnection, Connection.begin, hi] using hm
    have hc := hb.trans (clear_follows TableName.all).moves
    simp only [truncate, h, Bool.false_eq_true, if_false]
    split
    case h_1 t' hf => rw [hf] at hc; exact hc.trans abort_follows
    case h_2 t' hf =>
      rw [hf] at hc
      have hm := hc.trans commit_follows
      split
      case h_1 => exact .trans (by simp_all) abort_follows
      case h_2 => exact .with_note (by simp_all)

theorem nodeRecord_conn (h : Handle) :
    (nodeRecord h t).2.conn = (t.conn.read (Content.node h)).2 := by
  have hr : (read (Content.node h) t).2.conn = (t.conn.read (Content.node h)).2 := rfl
  unfold nodeRecord
  split <;> simp_all

theorem readHandleKey_conn (kind : HandleKeyKind) :
    (readHandleKey kind t).2.conn = (t.conn.read (Content.scalar (.handleKey kind))).2 := by
  have hr : (scalar (.handleKey kind) t).2.conn =
      (t.conn.read (Content.scalar (.handleKey kind))).2 := rfl
  unfold readHandleKey
  split
  case h_3 => dsimp only; split <;> simp_all
  all_goals simp_all

theorem readHandleKeys_sees {c : Content} (h : t.conn.Sees c) :
    (readHandleKeys t).2.conn.Sees c := by
  have hn : (readHandleKey .node t).2.conn.Sees c := readHandleKey_conn .node ▸ (h.read _).right
  unfold readHandleKeys
  split
  case h_1 => simp_all
  case h_2 node t' ht =>
    rw [ht] at hn
    have hp : (readHandleKey .parent t').2.conn.Sees c :=
      readHandleKey_conn .parent ▸ (hn.read _).right
    split <;> simp_all

end Table
end AccountCache
