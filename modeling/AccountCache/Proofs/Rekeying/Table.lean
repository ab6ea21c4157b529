import AccountCache.Proofs.Enumeration
import AccountCache.Proofs.HandleKeys.Reading
import AccountCache.Proofs.Rekeying.Connection
import AccountCache.Proofs.Throughout

open Relation (ReflTransGen)

namespace AccountCache

variable {π : Rekeying}

namespace Content

variable {c c' : Content} {u : Content → Except QueryFault Content}

-- There is no node key without a parent key.
def Paired (c : Content) : Prop := c.keySlots .parent = none → c.keySlots .node = none

theorem paired_of_no_keys (h : ∀ kind, c.keySlots kind = none) : c.Paired := fun _ => h .node

theorem Paired.congr (hk : c'.keySlots = c.keySlots) (h : c.Paired) : c'.Paired := by
  rwa [Paired, hk]

theorem Paired.rekey (h : c.Paired) : (c.rekey π).Paired := by
  intro hp
  rw [keySlots_rekey, Option.map_eq_none_iff] at hp ⊢
  exact h hp

theorem clear_keySlots {name : TableName} (h : clear name c = .ok c') :
    c'.keySlots = c.keySlots ∨ ∀ kind, c'.keySlots kind = none := by
  cases name <;> obtain ⟨r, hr, rfl⟩ := map_eq_ok h
  case init =>
    cases hi : c.init <;> rw [hi] at hr <;> cases hr
    exact .inr fun kind => by rw [keySlots_of_empty rfl]
  all_goals exact .inl rfl

-- What a table is open on: it has its `init` table, and no node key stands alone.
structure Founded (c : Content) : Prop where
  init   : c.init.isTable = true
  paired : c.Paired

theorem founded_lasts : Lasts Founded where
  update hu h f := by
    refine ⟨?_, f.paired.congr (hu.keySlots h)⟩
    cases hu <;> obtain ⟨r, hr, rfl⟩ := map_eq_ok h
    case putScalar => exact Relation.change_isTable hr
    all_goals exact f.init
  clear {name} _ _ h f := by
    refine ⟨?_, ?_⟩
    · cases name <;> obtain ⟨r, hr, rfl⟩ := map_eq_ok h
      case init => exact Relation.change_isTable hr
      all_goals exact f.init
    · obtain hk | hk := clear_keySlots h
      · exact f.paired.congr hk
      · exact paired_of_no_keys hk

-- Of the bytes in the slot of a handle key only their presence stays.
theorem scalar_handleKey_rekey (kind : HandleKeyKind) (c : Content) :
    scalar (.handleKey kind) (c.rekey π) = (scalar (.handleKey kind) c).map (·.map (π kind)) := by
  cases hi : c.init
  case table rows =>
    simp only [scalar, Content.rekey, hi, Relation.rekey, Relation.select, bind, Except.bind,
      Rows.get?_map]
    cases rows.get? (Slot.handleKey kind).key
    case none => rfl
    case some v =>
      simp only [Option.map_some, payload?, Rekeying.value_handleKey]
      cases v <;> rfl
  all_goals simp only [scalar, Content.rekey, hi, Relation.rekey]; rfl

theorem keySlots_of_scalar_none {kind : HandleKeyKind} (h : scalar (.handleKey kind) c = .ok none) :
    c.keySlots kind = none := by
  unfold scalar at h
  cases hi : c.init
  case table rows =>
    simp only [keySlots, hi]
    rw [hi] at h
    cases hv : rows.get? (Slot.handleKey kind).key
    case none   => rfl
    case some v =>
      simp only [Relation.select, bind, Except.bind, hv, payload?] at h
      cases v <;> cases h
  all_goals simp only [keySlots, hi]

end Content

namespace Connection

variable {c c' : Connection} {α β : Type}

-- A transaction in which a statement has been answered has looked at the store.
theorem phase_ne_begun_of_read {q : Content → Except QueryFault α} {a : α}
    (h : (c.read q).1 = .ok a) :
    (c.read q).2.phase ≠ .begun := by
  cases hp : c.phase
  case begun =>
    simp only [read, hp] at h ⊢
    cases hs : c.body.store? <;> simp only [hs] at h ⊢
    case error => cases h
    case ok s =>
      cases hn : c.peers.pending <;> simp only [hn, if_true, Bool.false_eq_true, if_false] at h ⊢
      case true => cases h
      case false =>
        have hq : q s.content = .ok a := by split at h <;> exact h
        simp [hq, reachedRows]
  all_goals
    obtain he | ⟨_, hb, _⟩ := read_eq_or_look c q
    case inl => rw [he, hp]; rintro ⟨⟩
    case inr => rw [hp] at hb; cases hb

theorem rekey_content? : (c.rekey π).content? = c.content?.map (·.rekey π) := by
  cases hp : c.phase <;> simp only [content?, rekey, Phase.rekey, hp, Option.map_some]
  all_goals
    rw [Body.rekey_store?]
    cases c.body.store? <;> rfl

-- So the next statement looks at nothing new.
theorem read_again {q : Content → Except QueryFault α} {a : α} (h : (c.read q).1 = .ok a)
    (q' : Content → Except QueryFault β) : ((c.read q).2.read q').2 = (c.read q).2 := by
  obtain he | ⟨_, hb, _⟩ := read_eq_or_look (c.read q).2 q'
  case inl => exact he
  case inr => exact absurd hb (phase_ne_begun_of_read h)

end Connection

namespace Table

open Connection (Rekeyed rekeyed_lockstep)

variable {t t' : Table} {kind : HandleKeyKind} {slot : Slot}

theorem readHandleKey_cases (kind : HandleKeyKind) (t : Table) :
    (∃ f, (t.conn.read (Content.scalar (.handleKey kind))).1 = .error f ∧
      (readHandleKey kind t).1 = .error (.query f)) ∨
    ((t.conn.read (Content.scalar (.handleKey kind))).1 = .ok none ∧
      (readHandleKey kind t).1 = .error (.missingHandleKey (.handleKey kind))) ∨
    ∃ sealed, (t.conn.read (Content.scalar (.handleKey kind))).1 = .ok (some sealed) ∧
      ∀ slot, (readHandleKey kind t).1 ≠ .error (.missingHandleKey slot) := by
  unfold readHandleKey scalar read
  cases hr : t.conn.read (Content.scalar (.handleKey kind))
  case mk r conn =>
    rcases r with f | _ | sealed
    case error => exact .inl ⟨f, rfl, by rw [onConnection_of_error hr]⟩
    case ok.none => exact .inr (.inl ⟨rfl, by rw [onConnection_of_ok hr]⟩)
    case ok.some =>
      refine .inr (.inr ⟨sealed, rfl, fun slot => ?_⟩)
      simp only [onConnection_of_ok hr]
      cases (t.key.unwrap kind.associated sealed).1
      case error   => rintro ⟨⟩
      case ok text => dsimp only; cases decodeHandleKey text <;> rintro ⟨⟩

theorem read_of_readHandleKey {key : Bytes} (h : (readHandleKey kind t).1 = .ok key) :
    ∃ sealed, (t.conn.read (Content.scalar (.handleKey kind))).1 = .ok (some sealed) := by
  obtain ⟨_, _, he⟩ | ⟨_, he⟩ | ⟨sealed, hr, _⟩ := readHandleKey_cases kind t
  case inl     => cases h.symm.trans he
  case inr.inl => cases h.symm.trans he
  case inr.inr => exact ⟨sealed, hr⟩

-- Of the two keys, the first one decides what the connection looks at.
theorem readHandleKeys_conn :
    (readHandleKeys t).2.conn = (t.conn.read (Content.scalar (.handleKey .node))).2 := by
  have hn := readHandleKey_conn (t := t) .node
  unfold readHandleKeys
  split
  case h_1 h => rw [h] at hn; exact hn
  case h_2 node t₁ h =>
    obtain ⟨_, hr⟩ := read_of_readHandleKey (congrArg Prod.fst h)
    have hp := readHandleKey_conn (t := t₁) .parent
    rw [h] at hn
    rw [hn, Connection.read_again hr] at hp
    split <;> simp_all

-- Where no node key stands alone, a parent key is not missing once there is a node key.
theorem readHandleKey_parent_ne_missing {key : Bytes} {t₁ : Table} (slot : Slot)
    (hp : ∀ content, t.conn.content? = some content → content.Paired)
    (h : readHandleKey .node t = (.ok key, t₁)) :
    (readHandleKey .parent t₁).1 ≠ .error (.missingHandleKey slot) := by
  obtain ⟨_, hr⟩ := read_of_readHandleKey (congrArg Prod.fst h)
  obtain ⟨content, hc, hq⟩ := Connection.eq_ok_of_read hr
  obtain ⟨v, hv, _⟩ := Content.scalar_handleKey hq
  have hconn := readHandleKey_conn (t := t) .node
  rw [h] at hconn
  obtain ⟨_, _, he⟩ | ⟨hr₁, _⟩ | ⟨_, _, hne⟩ := readHandleKey_cases .parent t₁
  case inl => rw [he]; rintro ⟨⟩
  case inr.inl =>
    obtain ⟨content₁, hc₁, hq₁⟩ := Connection.eq_ok_of_read hr₁
    rw [hconn, Connection.read_content?] at hc₁
    cases hc.symm.trans hc₁
    have hnone := hp content hc (Content.keySlots_of_scalar_none hq₁)
    cases hv.symm.trans hnone
  case inr.inr => exact hne slot

-- So a key is missing if and only if the node key is.
theorem readHandleKeys_missing_iff (hp : ∀ content, t.conn.content? = some content →
      content.Paired) :
    (readHandleKeys t).1 = .error (.missingHandleKey slot) ↔
      slot = .handleKey .node ∧ (t.conn.read (Content.scalar (.handleKey .node))).1 = .ok none := by
  have hcases := readHandleKey_cases .node t
  unfold readHandleKeys
  cases hk : readHandleKey .node t
  case mk r t₁ =>
    rw [hk] at hcases
    cases r
    case error g =>
      obtain ⟨_, hr, he⟩ | ⟨hr, he⟩ | ⟨_, hr, hne⟩ := hcases
      case inl     => cases he; simp [hr]
      case inr.inl => cases he; simp [hr, eq_comm]
      case inr.inr =>
        have hg := hne slot
        simp_all
    case ok key =>
      obtain ⟨_, hr⟩ := read_of_readHandleKey (congrArg Prod.fst hk)
      have hparent := readHandleKey_parent_ne_missing slot hp hk
      cases hk₁ : readHandleKey .parent t₁
      case mk r t₂ =>
        rw [hk₁] at hparent
        cases r
        case error => simp_all
        case ok    => simp [hk₁, hr]

end Table

-- What must not depend on master keys and random bytes in a reply: of a slot that holds a handle
-- key, whether it holds one, and of the reading of the keys, whether one is missing.

def Reply.conceal : Reply → Reply
  | .bytes b => .bytes (b.map fun _ => [])
  | r => r

namespace Op

def missing? : Except Failure Reply → Except Failure Reply
  | .error (.missingHandleKey s) => .error (.missingHandleKey s)
  | _ => .ok .done

mutual

def view : Op → Except Failure Reply → Except Failure Reply
  | scalar s, r => if s.isReserved then r.map Reply.conceal else r
  | readHandleKeys, r => missing? r
  | guarded steps _, .ok (.guarded replies ending) => .ok (.guarded (viewAll steps replies) ending)
  | _, r => r

def viewAll : List Op → List (Except Failure Reply) → List (Except Failure Reply)
  | op :: ops, r :: rs => view op r :: viewAll ops rs
  | _, _ => []

end

theorem map_eq_error_iff {α β : Type} {r : Except Failure α} {g : α → β} {f : Failure} :
    r.map g = .error f ↔ r = .error f := by
  cases r <;> simp [Except.map]

theorem missing?_congr {r r' : Except Failure Reply}
    (h : ∀ slot, r = .error (.missingHandleKey slot) ↔ r' = .error (.missingHandleKey slot)) :
    missing? r = missing? r' := by
  unfold missing?
  split
  case h_1 slot => rw [(h slot).mp rfl]
  case h_2 hne =>
    split
    case h_1 slot => exact absurd ((h slot).mpr rfl) (hne slot)
    case h_2      => rfl

end Op

namespace Table

open Connection (rekeyed_lockstep)

-- The second table is the first one with other handle keys, and perhaps another master key.
structure Rekeyed (π : Rekeying) (t t' : Table) : Prop where
  beside  : Beside (Connection.Rekeyed π) t t'
  founded : t.conn.Throughout Content.Founded

variable {t t' : Table}

namespace Rekeyed

theorem of_moves {d d' : Table} (r : Rekeyed π t t') (f : Follows Connection.Move t d)
    (b : Beside (Connection.Rekeyed π) d d') : Rekeyed π d d' :=
  ⟨b, Connection.moves_throughout Content.founded_lasts f.conn r.founded⟩

theorem paired (r : Rekeyed π t t') (content : Content) (hc : t.conn.content? = some content) :
    content.Paired :=
  (r.founded.content? hc).paired

theorem paired' (r : Rekeyed π t t') (content : Content) (hc : t'.conn.content? = some content) :
    content.Paired := by
  have hb := r.beside.conn
  rw [hb, Connection.rekey_content?] at hc
  obtain ⟨_, hseen, rfl⟩ := Option.map_eq_some_iff.mp hc
  exact (r.paired _ hseen).rekey

theorem read_handleKey (kind : HandleKeyKind) (r : Rekeyed π t t') :
    t'.conn.read (Content.scalar (.handleKey kind)) =
      ((t.conn.read (Content.scalar (.handleKey kind))).1.map (·.map (π kind)),
        (t.conn.read (Content.scalar (.handleKey kind))).2.rekey π) :=
  r.beside.conn ▸ Connection.rekey_read (Content.scalar_handleKey_rekey kind) t.conn

theorem scalar_handleKey (kind : HandleKeyKind) (r : Rekeyed π t t') :
    (scalar (.handleKey kind) t').1 = (scalar (.handleKey kind) t).1.map (·.map (π kind)) ∧
      Beside (Connection.Rekeyed π) (scalar (.handleKey kind) t).2
        (scalar (.handleKey kind) t').2 := by
  have hr := r.read_handleKey kind
  refine ⟨?_, { r.beside with conn := congrArg Prod.snd hr }⟩
  have he : (scalar (.handleKey kind) t').1 = _ := congrArg (·.1.mapError Failure.query) hr
  rw [he]
  cases h : (t.conn.read (Content.scalar (.handleKey kind))).1 <;>
    simp only [scalar, read, onConnection, h] <;> rfl

theorem readHandleKeys (r : Rekeyed π t t') :
    Op.missing? ((Table.readHandleKeys t).1.map Reply.keys) =
      Op.missing? ((Table.readHandleKeys t').1.map Reply.keys) ∧
    Beside (Connection.Rekeyed π) (Table.readHandleKeys t).2 (Table.readHandleKeys t').2 := by
  have hread := r.read_handleKey .node
  refine ⟨Op.missing?_congr fun slot => ?_, ?_, ?_, ?_⟩
  case refine_1 =>
    rw [Op.map_eq_error_iff, Op.map_eq_error_iff, readHandleKeys_missing_iff r.paired,
      readHandleKeys_missing_iff r.paired', hread]
    cases (t.conn.read (Content.scalar (.handleKey .node))).1
    case error    => rfl
    case ok found => cases found <;> simp [Except.map]
  case refine_2 => rw [Connection.Rekeyed, readHandleKeys_conn, readHandleKeys_conn, hread]
  case refine_3 => rw [readHandleKeys_follows.path, readHandleKeys_follows.path, r.beside.path]
  case refine_4 => rw [readHandleKeys_cursor, readHandleKeys_cursor, r.beside.cursor]

end Rekeyed

end Table

namespace Op

open Connection (rekeyed_lockstep)
open Table (Rekeyed)

variable {op : Op} {t t' : Table}

theorem run_view_of_plain (hp : op.isGuarded = false) (r : Rekeyed π t t') :
    op.view (op.run t).1 = op.view (op.run t').1 ∧ Rekeyed π (op.run t).2 (op.run t').2 := by
  cases hk : op.asksHandleKeys
  case false =>
    have h := run_beside rekeyed_lockstep hp hk r.beside
    exact ⟨congrArg _ h.result, r.of_moves (run_follows hp) h.states⟩
  case true =>
    cases op <;> try contradiction
    case scalar s =>
      cases s <;> try contradiction
      case handleKey kind =>
        obtain ⟨hresult, b⟩ := r.scalar_handleKey kind
        refine ⟨?_, r.of_moves (run_follows hp) b⟩
        simp only [view, run, answer, hresult]
        cases (Table.scalar (.handleKey kind) t).1
        case error    => rfl
        case ok found => cases found <;> rfl
    case readHandleKeys =>
      obtain ⟨hresult, b⟩ := r.readHandleKeys
      exact ⟨hresult, r.of_moves (run_follows hp) b⟩

mutual

theorem run_view : (op : Op) → {t t' : Table} → Rekeyed π t t' →
    op.view (op.run t).1 = op.view (op.run t').1 ∧ Rekeyed π (op.run t).2 (op.run t').2
  | guarded steps ending, t, t', r => by
    have hi := r.beside.inTransaction rekeyed_lockstep
    cases h : t.inTransaction
    case true =>
      rw [run_guarded_of_inTransaction steps ending h,
        run_guarded_of_inTransaction steps ending (hi ▸ h)]
      exact ⟨rfl, r⟩
    case false =>
      rw [run_guarded_of_not_inTransaction steps ending h,
        run_guarded_of_not_inTransaction steps ending (hi ▸ h)]
      have begun := r.of_moves Table.begin_follows (r.beside.begin rekeyed_lockstep).states
      obtain ⟨hsteps, left⟩ := runAll_view steps begun
      have ended := left.beside.finish rekeyed_lockstep ending
      refine ⟨?_, left.of_moves (closing_leads ending _).follows ended.states⟩
      simp only [view, hsteps, ended.result]
  | scalar .., _, _, r | putScalar .., _, _, r | readHandleKeys, _, _, r | nodePayload .., _, _, r
  | fingerprintPayload .., _, _, r | nodeRecord .., _, _, r | countChildren .., _, _, r
  | putNode .., _, _, r | deleteNode .., _, _, r | putUser .., _, _, r | deleteUser .., _, _, r
  | putContact .., _, _, r | deleteContact .., _, _, r | startCursor .., _, _, r | advance, _, _, r
  | advanceHandle, _, _, r | begin, _, _, r | commit, _, _, r | abort, _, _, r | truncate, _, _, r
  | checkIntegrity, _, _, r => run_view_of_plain rfl r

theorem runAll_view : (ops : List Op) → {t t' : Table} → Rekeyed π t t' →
    viewAll ops (runAll ops t).1 = viewAll ops (runAll ops t').1 ∧
      Rekeyed π (runAll ops t).2 (runAll ops t').2
  | [], _, _, r => ⟨rfl, r⟩
  | op :: ops, _, _, r => by
    obtain ⟨one, next⟩ := run_view op r
    obtain ⟨rest, left⟩ := runAll_view ops next
    exact ⟨congrArg₂ List.cons one rest, left⟩

end

end Op

end AccountCache
