import AccountCache.Proofs.Failures
import AccountCache.Proofs.Guard

open Relation (ReflTransGen)

namespace AccountCache

namespace Content

variable {c c' : Content} {name : TableName}

def isTable (c : Content) : TableName → Bool
  | .init  => c.init.isTable
  | .nodes => c.nodes.isTable
  | .users => c.users.isTable
  | .pcrs  => c.pcrs.isTable

def without (c : Content) (names : List TableName) : Content where
  init  := if .init ∈ names then .table .empty else c.init
  nodes := if .nodes ∈ names then .table .empty else c.nodes
  users := if .users ∈ names then .table .empty else c.users
  pcrs  := if .pcrs ∈ names then .table .empty else c.pcrs

theorem isStandard_iff : c.IsStandard ↔ ∀ name ∈ TableName.all, c.isTable name = true := by
  constructor
  case mp =>
    rintro ⟨hi, hn, hu, hp⟩ name _
    cases name <;> assumption
  case mpr =>
    intro h
    exact ⟨h .init <| by decide, h .nodes <| by decide, h .users <| by decide, h .pcrs <| by decide⟩

theorem without_emptied (names : List TableName) :
    (c.emptied name).without names = c.without (name :: names) := by
  cases name <;> simp [without, emptied]

theorem isTable_emptied (h : c.isTable name = true) (other : TableName) :
    (c.emptied name).isTable other = c.isTable other := by
  cases name <;> cases other <;> first | rfl | exact h.symm

theorem clear_eq_ok_iff : clear name c = .ok c' ↔ c.isTable name = true ∧ c' = c.emptied name := by
  have change {α : Type} (r : Relation α) (rest : Relation α → Content) :
      (r.change name fun _ => .empty).map rest = .ok c' ↔
        r.isTable = true ∧ c' = rest (.table .empty) := by
    cases r
    case table rows =>
      constructor
      case mp  => rintro ⟨⟩; exact ⟨rfl, rfl⟩
      case mpr => rintro ⟨_, rfl⟩; rfl
    all_goals exact ⟨by rintro ⟨⟩, by rintro ⟨⟨⟩, _⟩⟩
  cases name <;> exact change ..

end Content

namespace Connection

variable {c c' : Connection} {content next : Content} {u : Content → Except QueryFault Content}
  {fault : QueryFault}

-- Nothing is in the way of changes: no other table on the store, and no journal that cannot be
-- made.
def Unhindered (c : Connection) (content : Content) : Prop :=
  ∃ s, c.Quiet s content ∧ (s.wal = true ∨ c.obstacle = none)

theorem attempt_unhindered {s : Store} (h : s.wal = true ∨ c.obstacle = none) :
    attempt s.wal c.obstacle u content = u content := by
  unfold attempt hindrance?
  obtain hw | ho := h
  case inl => rw [hw]; cases u content <;> simp
  case inr => rw [ho]; cases u content <;> simp

theorem Unhindered.of_write_error (h : c.Unhindered content) (hw : c.write u = (.error fault, c')) :
    u content = .error fault := by
  obtain ⟨s, hq, hfree⟩ := h
  obtain ⟨f, ha, he⟩ | ⟨_, _, _, _, he, _⟩ := hq.write u
  case inl =>
    cases hw.symm.trans he
    rwa [attempt_unhindered hfree] at ha
  case inr => cases hw.symm.trans he

theorem Unhindered.write (h : c.Unhindered content) (hi : c.inTransaction = true)
    (hw : c.write u = (.ok (), c')) (hu : u content = .ok next) : c'.Unhindered next := by
  obtain ⟨s, hq, hfree⟩ := h
  obtain ⟨_, _, he⟩ | ⟨next', c'', s', ha, he, _, hs, hq'⟩ := hq.write u
  case inl => cases hw.symm.trans he
  case inr =>
    obtain rfl := hs hi
    cases hw.symm.trans he
    rw [attempt_unhindered hfree, hu] at ha
    cases ha
    have hf := (write_frame c u).right.left
    rw [hw] at hf
    exact ⟨s', hq', hfree.imp_right hf.trans⟩

end Connection

namespace Table

variable {t : Table} {c : Content}

-- How far the emptying of tables gets in a transaction: up to a name that is no table's, unless
-- something is in the way of changes.
theorem clear_reaches (names : List TableName) (hi : t.inTransaction = true)
    (hc : t.conn.content? = some c) :
    ∃ done rest, names = done ++ rest ∧ (∀ name ∈ done, c.isTable name = true) ∧
      (clear names t).2.conn.content? = some (c.without done) ∧
      ((clear names t).1 = .ok () ↔ rest = []) ∧
      (t.conn.Unhindered c → ∀ name ∈ rest.head?, c.isTable name = false) := by
  induction names generalizing t c
  case nil => exact ⟨[], [], rfl, by simp, hc, ⟨fun _ => rfl, fun _ => rfl⟩, by simp⟩
  case cons name names ih =>
    unfold clear write
    obtain ⟨f, hw⟩ | ⟨before, after, pending, hb, hu, _, hw⟩ | ⟨_, _, _, _, hn, _⟩ :=
      t.conn.write_cases (Content.clear name)
    case inl =>
      rw [onConnection_of_error hw]
      refine ⟨[], name :: names, rfl, by simp, hc, by simp, fun h _ hname => ?_⟩
      cases hname
      -- With nothing in the way, the fault is that of the name.
      have he := h.of_write_error hw
      cases ht : c.isTable name
      case false => rfl
      case true  => cases he.symm.trans (Content.clear_eq_ok_iff.mpr ⟨ht, rfl⟩)
    case inr.inl =>
      cases hc.symm.trans hb
      obtain ⟨ht, rfl⟩ := Content.clear_eq_ok_iff.mp hu
      rw [onConnection_of_ok hw]
      -- The others are emptied in a content that has lost these rows already.
      obtain ⟨done, rest, hnames, hdone, hleft, hr, hstop⟩ := ih
        (t := { t with conn := { t.conn with phase := .writing (c.emptied name) pending } }) rfl rfl
      simp only [Content.isTable_emptied ht, Content.without_emptied] at hdone hleft hstop
      refine ⟨name :: done, rest, by rw [hnames]; rfl,
        List.forall_mem_cons.mpr ⟨ht, hdone⟩, hleft, hr, fun h => hstop <| h.write hi hw hu⟩
    case inr.inr => cases hi.symm.trans hn

theorem truncate_cases (hi : t.inTransaction = false) :
    let begun : Table := { t with conn := { t.conn with phase := .begun } }
    (∃ f, (truncate t).1 = .error f ∧ (truncate t).2.inTransaction = false) ∨
    ∃ conn log, (clear TableName.all begun).1 = .ok () ∧
      (clear TableName.all begun).2.conn.commit = (.ok (), conn) ∧
      truncate t = (.ok (), { (clear TableName.all begun).2 with conn, log }) := by
  intro begun
  simp only [truncate, hi, Bool.false_eq_true, if_false]
  cases hc : clear TableName.all begun
  case mk r t₁ =>
    cases r <;> dsimp only
    case error f => exact .inl ⟨f, rfl, rfl⟩
    case ok =>
      cases hconn : t₁.conn.commit
      case mk r conn =>
        cases r
        case error f => rw [commit, onConnection_of_error hconn]; exact .inl ⟨.query f, rfl, rfl⟩
        case ok      => rw [commit, onConnection_of_ok hconn]; exact .inr ⟨conn, _, rfl, rfl, rfl⟩

theorem truncate_outside (hi : t.inTransaction = false) (hc : t.conn.content? = some c) :
    (truncate t).2.inTransaction = false ∧ ((truncate t).1 = .ok () →
      c.IsStandard ∧ (truncate t).2.conn.content? = some .empty) := by
  obtain ⟨f, hf, hout⟩ | ⟨conn, log, hclear, hcommit, ht⟩ := truncate_cases hi
  case inl => exact ⟨hout, fun h => by cases hf.symm.trans h⟩
  case inr =>
    rw [ht]
    have hb : ({ t.conn with phase := .begun } : Connection).content? = some c :=
      (Connection.content?_of_not_inTransaction hi).symm.trans hc
    obtain ⟨done, rest, hnames, hdone, hleft, hr, _⟩ :=
      clear_reaches (t := { t with conn := { t.conn with phase := .begun } }) TableName.all rfl hb
    have w := clear_follows (t := { t with conn := { t.conn with phase := .begun } }) TableName.all
    have hin := (Connection.works_in_transaction w.conn rfl).left
    have g := (Connection.Grounded.begun t.conn).works w.conn rfl
    obtain rfl := hr.mp hclear
    rw [List.append_nil] at hnames
    subst hnames
    obtain ⟨_, _, _, he, _⟩ | ⟨_, conn', he, hidle, hsame⟩ := g.commit hin
    case inl => cases hcommit.symm.trans he
    case inr =>
      cases hcommit.symm.trans he
      exact ⟨hidle, fun _ => ⟨Content.isStandard_iff.mpr hdone, hsame.trans hleft⟩⟩

theorem truncate_of_unhindered (h : t.conn.Unhindered c) (hs : c.IsStandard) :
    (truncate t).1 = .ok () := by
  obtain ⟨s, hq, hfree⟩ := h
  obtain ⟨_, _, _, _, _, _, _, ⟨f, hw, _⟩ | ⟨_, _, hok, _⟩⟩ := truncate_of_quiet hq hs
  case inl =>
    obtain ⟨hwal, ho⟩ := wipe_of_error hs hw
    obtain hw | hn := hfree
    case inl => cases hwal.symm.trans hw
    case inr => contradiction
  case inr => exact hok

-- In a transaction, nothing but the draft is changed, and an abort leaves what was there at its
-- start.
theorem truncate_aborted (steps : List Op) (hi : t.inTransaction = false)
    (hsteps : ∀ op ∈ steps, op ≠ .commit ∧ op ≠ .abort) :
    (abort (truncate (Op.runAll steps (begin t).2).2).2).2.conn = t.conn := by
  rw [begin_of_not_inTransaction hi]
  have w := Op.runAll_in_transaction
    (t := { t with conn := { t.conn with phase := .begun } }) hsteps rfl
  have hin := (Connection.works_in_transaction w.conn rfl).left
  exact abort_conn_of_follows hi <| w.trans <| truncate_follows_of_inTransaction hin

-- What emptying a table comes to, for every content that it sees: outside a transaction, in one,
-- and in one that is aborted.
theorem truncate_exact (t : Table) (c : Content) (hc : t.conn.content? = some c) :
    (t.inTransaction = false →
      (truncate t).2.inTransaction = false ∧
      ((truncate t).1 = .ok () → c.IsStandard ∧ (truncate t).2.conn.content? = some .empty) ∧
      (∀ f, (truncate t).1 = .error f → (truncate t).2.conn = t.conn) ∧
      (t.conn.Unhindered c → c.IsStandard → (truncate t).1 = .ok ())) ∧
    (t.inTransaction = true →
      (truncate t).2.inTransaction = true ∧ (truncate t).2.conn.body = t.conn.body ∧
      ∃ done rest, TableName.all = done ++ rest ∧ (∀ name ∈ done, c.isTable name = true) ∧
        (truncate t).2.conn.content? = some (c.without done) ∧
        ((truncate t).1 = .ok () ↔ rest = []) ∧
        (t.conn.Unhindered c → ∀ name ∈ rest.head?, c.isTable name = false)) ∧
    (t.inTransaction = false → ∀ steps : List Op, (∀ op ∈ steps, op ≠ .commit ∧ op ≠ .abort) →
      (abort (truncate (Op.runAll steps (begin t).2).2).2).2.conn = t.conn) := by
  refine ⟨fun hi => ?outside, fun hi => ?inside, fun hi steps => truncate_aborted steps hi⟩
  case outside =>
    obtain ⟨hout, hok⟩ := truncate_outside hi hc
    exact ⟨hout, hok, fun f => truncate_conn_of_error hi, truncate_of_unhindered⟩
  case inside =>
    have ht : truncate t = clear TableName.all t := if_pos hi
    obtain ⟨hin, hbody⟩ :=
      Connection.works_in_transaction (truncate_follows_of_inTransaction hi).conn hi
    refine ⟨hin, hbody, ?_⟩
    rw [ht]
    exact clear_reaches TableName.all hi hc

def viewed : Table where
  path   := "a.db"
  conn   := {
    body     := .store {
      content := {
        init  := .table <| .put .empty 0 (.blob [1])
        nodes := .table .empty
        users := .view
        pcrs  := .table <| .put .empty 5 (.blob [2]) }
      version := 0
      wal     := true }
    phase    := .idle
    peers    := .ofPhases []
    obstacle := none }
  cursor := .idle
  key    := ⟨.transparent, []⟩
  log    := []

theorem viewed_truncate :
    viewed.inTransaction = false ∧ (truncate viewed).2.conn = viewed.conn ∧
    (abort (truncate (begin viewed).2).2).2.conn = viewed.conn ∧
    (truncate (begin viewed).2).2.conn.content? = some {
      init  := .table .empty
      nodes := .table .empty
      users := .view
      pcrs  := .table <| .put .empty 5 (.blob [2]) } := by
  have hfails : (truncate viewed).1 = .error (.query (.viewModified .users)) := rfl
  obtain ⟨outside, _, aborted⟩ := truncate_exact viewed _ rfl
  exact ⟨rfl, (outside rfl).2.2.1 _ hfails, aborted rfl [] nofun, rfl⟩

end Table

namespace Host

-- Two tables on one store, of which the second one has put a user in a transaction.
def contended : Host :=
  (Request.runAll plainNaming [
    .open "a" .default "s" "k", .open "b" .default "s" "k",
    .table "b" .begin, .table "b" (.putUser 7 [1])] bare).2

-- All four tables are there, and the first one cannot be emptied.
theorem contended_refuses_truncate :
    ∃ t c, contended.table? "a" = some t ∧ t.inTransaction = false ∧
    t.conn.content? = some c ∧ (∀ name ∈ TableName.all, c.isTable name = true) ∧
    (Table.truncate t).1 = .error (.query .locked) := by
  have run : (contended.table? "a").map (fun t => (t.inTransaction, (Table.truncate t).1,
      t.conn.content?.map fun c => TableName.all.map c.isTable)) =
      some (false, .error (.query .locked), some [true, true, true, true]) := by decide +kernel
  obtain ⟨t, ht, h⟩ := Option.map_eq_some_iff.mp run
  simp only [Prod.mk.injEq] at h
  obtain ⟨hi, htruncate, hc⟩ := h
  obtain ⟨c, hc, hall⟩ := Option.map_eq_some_iff.mp hc
  refine ⟨t, c, ht, hi, hc, ?_, htruncate⟩
  simpa [TableName.all] using hall

end Host
end AccountCache
