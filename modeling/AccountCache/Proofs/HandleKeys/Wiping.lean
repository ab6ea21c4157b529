import AccountCache.Proofs.History
import AccountCache.Proofs.Lone
import AccountCache.Rows.Lemmas

open Relation (ReflTransGen)

namespace AccountCache

def Content.keySlots (c : Content) (kind : HandleKeyKind) : Option Value :=
  match c.init with
  | .table rows => rows.get? (Slot.handleKey kind).key
  | _ => none

-- Whether a truncation is in effect for good, and whether one is in the open transaction.
structure Wipe where
  done  : Bool
  under : Bool
  deriving DecidableEq

namespace Wipe

def none : Wipe := ⟨false, false⟩

def after (w : Wipe) (m : Moment) : Wipe :=
  match m.op, m.reply with
  | .truncate, .ok _ =>
    if m.table.inTransaction then { w with under := true } else { w with done := true }
  | .commit, .ok _   => ⟨w.done || w.under, false⟩
  | .abort, _        => { w with under := false }
  | _, _             => w

-- What is in the slots where this much has been stored.
def leaves (gone : Bool) (stored : HandleKeyKind → Option Value) (kind : HandleKeyKind) :
    Option Value :=
  if gone then .none else stored kind

end Wipe

namespace Content

variable {c c' : Content} {u : Content → Except QueryFault Content}

theorem keySlots_of_empty (h : c.init = .table .empty) : c.keySlots = fun _ => none := by
  funext kind
  simp only [keySlots, h, Rows.get?_empty]

theorem Update.keySlots (hu : Update u) (h : u c = .ok c') : c'.keySlots = c.keySlots := by
  cases hu <;> obtain ⟨r, hr, rfl⟩ := map_eq_ok h
  case putScalar s bytes hs =>
    funext kind
    cases hi : c.init <;> rw [hi] at hr <;> cases hr
    case table rows =>
      have hne : (Slot.handleKey kind).key ≠ s.key := by
        intro hk
        simp [← Slot.key_injective hk, Slot.isReserved] at hs
      simp [Content.keySlots, hi, Rows.get?_put, hne]
  all_goals rfl

end Content

namespace Connection

variable {c c' : Connection} {u : Content → Except QueryFault Content} {before after : Content}
  {stored : HandleKeyKind → Option Value} {w : Wipe}

-- The slots hold what was stored, as far as it is not wiped: what is seen, and what would be left.
structure Tracks (stored : HandleKeyKind → Option Value) (w : Wipe) (c : Connection) : Prop where
  left : ∀ content, c.committed? = some content → content.keySlots = Wipe.leaves w.done stored
  seen : ∀ content, c.content? = some content →
    content.keySlots = Wipe.leaves (w.done || w.under) stored

theorem Tracks.congr (ht : c.Tracks stored w) (hl : c'.committed? = c.committed?)
    (hs : c'.content? = c.content?) : c'.Tracks stored w :=
  ⟨hl ▸ ht.left, hs ▸ ht.seen⟩

-- What is seen outside a transaction is what is left.
theorem Tracks.settled (hi : c.inTransaction = false)
    (hl : ∀ content, c.committed? = some content → content.keySlots = Wipe.leaves w.done stored)
    (hu : w.under = false) : c.Tracks stored w := by
  refine ⟨hl, fun content h => ?_⟩
  rw [content?_of_not_inTransaction hi] at h
  rw [hl content h, hu, Bool.or_false]

theorem Statement.tracks (s : Statement c c') (ht : c.Tracks stored w) : c'.Tracks stored w := by
  cases s
  case read => exact ht.congr (by rw [committed?, read_body]; rfl) read_content?
  case write u hu =>
    obtain ⟨_, h⟩ | ⟨before, after, _, hb, ha, _, h⟩ | ⟨s, after, hs, ha, hi, h⟩ :=
      write_cases c u <;>
      rw [h]
    case inl => exact ht
    case inr.inl =>
      refine ⟨ht.left, fun content hcontent => ?_⟩
      cases hcontent
      rw [hu.keySlots ha]
      exact ht.seen before hb
    case inr.inr =>
      have hleft : c.committed? = some s.content := committed?_eq_some.mpr ⟨s, hs, rfl⟩
      refine ⟨fun content hcontent => ?_, fun content hcontent => ?_⟩
      · cases hcontent
        exact (hu.keySlots ha).trans (ht.left _ hleft)
      · rw [content?_of_not_inTransaction (by exact hi)] at hcontent
        cases hcontent
        exact (hu.keySlots ha).trans (ht.seen _ (content?_of_not_inTransaction hi ▸ hleft))

theorem Tracks.begin (ht : c.Tracks stored w) : c.begin.2.Tracks stored w := by
  obtain ⟨_, h⟩ | ⟨hi, h⟩ := begin_cases c <;> rw [h]
  · exact ht
  · exact ht.congr rfl (content?_of_not_inTransaction hi).symm

theorem statements_tracks (s : ReflTransGen Statement c c') (ht : c.Tracks stored w) :
    c'.Tracks stored w := by
  induction s
  case refl => exact ht
  case tail s ih => exact s.tracks ih

end Connection

namespace Table

variable {t : Table} {names : List TableName}

theorem truncate_lone (hl : t.conn.Lone) :
    ∃ t', truncate t = (.ok (), t') ∧
      (∀ content, t'.conn.content? = some content → content.init = .table .empty) ∧
      if t.inTransaction then t'.conn.committed? = t.conn.committed?
      else t'.conn.committed? = t'.conn.content? := by
  obtain ⟨before, hb⟩ := hl.content?_eq_some
  obtain ⟨s, hq⟩ := hl.quiet hb
  have hs := hl.seen before hb
  obtain ⟨conn, log, s', ht, _, _, hin, ⟨f, hw, _⟩ | ⟨next, hw, hok, hq'⟩⟩ :=
    truncate_of_quiet hq hs
  all_goals rw [hl.obstacle, wipe_all s.wal hs] at hw
  case inl => contradiction
  case inr =>
    cases hw
    refine ⟨{ t with conn, log }, Prod.ext hok ht, fun content hc => ?_, ?_⟩
    · cases hq'.sees.symm.trans hc
      rfl
    · split
      case isTrue hi =>
        have f := (truncate_follows_of_inTransaction hi).conn
        rw [ht] at f
        rw [Connection.committed?, (Connection.works_in_transaction f hi).right]
        rfl
      case isFalse hi =>
        exact (Connection.content?_of_not_inTransaction <| hin.trans (by simpa using hi)).symm

end Table

namespace Moment

variable {m : Moment} {stored : HandleKeyKind → Option Value} {w : Wipe}

theorem after_of_not_isBracket (hb : m.op.isBracket = false) : w.after m = w := by
  unfold Wipe.after
  cases h : m.op <;> rw [h] at hb <;> first | rfl | contradiction

theorem tracks_commit {t : Table} (hl : t.conn.Lone) (ht : t.conn.Tracks stored w) :
    (next ⟨.commit, t⟩).conn.Tracks stored (w.after ⟨.commit, t⟩) := by
  cases hi : t.conn.inTransaction
  case true =>
    have ⟨c, hc, hleft, hn⟩ := Connection.commit_lone hl hi
    have hrun : Table.commit t = (.ok (), { t with conn := c }) := Table.onConnection_of_ok hc
    have hafter : w.after ⟨.commit, t⟩ = ⟨w.done || w.under, false⟩ := by
      simp [Wipe.after, reply, Op.run, Op.done, Op.answer, hrun, Except.map]
    have hconn : (next ⟨.commit, t⟩).conn = c := by
      simp [next, Op.run, Op.done, Op.answer, hrun]
    rw [hafter, hconn]
    exact .settled hn (hleft ▸ ht.seen) rfl
  case false =>
    have hc : t.conn.commit = (.error .noTransaction, t.conn) := by
      have hp : t.conn.phase = .idle := by simpa [Connection.inTransaction] using hi
      simp only [Connection.commit, hp]
    have hrun : Table.commit t = (.error (.query .noTransaction), t) :=
      Table.onConnection_of_error hc
    have hafter : w.after ⟨.commit, t⟩ = w := by
      simp [Wipe.after, reply, Op.run, Op.done, Op.answer, hrun, Except.map]
    have hconn : (next ⟨.commit, t⟩).conn = t.conn := by
      simp [next, Op.run, Op.done, Op.answer, hrun]
    rw [hafter, hconn]
    exact ht

theorem tracks_truncate {t : Table} (hl : t.conn.Lone) (ht : t.conn.Tracks stored w) :
    (next ⟨.truncate, t⟩).conn.Tracks stored (w.after ⟨.truncate, t⟩) := by
  have ⟨t', h, hgone, hleft⟩ := Table.truncate_lone hl
  have hnext : next ⟨.truncate, t⟩ = t' := by
    simp [next, Op.run, Op.done, Op.answer, h]
  have hslots content (hc : t'.conn.content? = some content) : content.keySlots = fun _ => none :=
    Content.keySlots_of_empty (hgone content hc)
  rw [hnext]
  cases hi : t.inTransaction <;> rw [hi] at hleft
  case true =>
    have hafter : w.after ⟨.truncate, t⟩ = { w with under := true } := by
      simp [Wipe.after, reply, Op.run, Op.done, Op.answer, h, hi, Except.map]
    rw [hafter]
    refine ⟨fun content hc => ht.left content (hleft ▸ hc), fun content hc => ?_⟩
    rw [hslots content hc, Bool.or_true]
    rfl
  case false =>
    have hafter : w.after ⟨.truncate, t⟩ = { w with done := true } := by
      simp [Wipe.after, reply, Op.run, Op.done, Op.answer, h, hi, Except.map]
    rw [hafter]
    refine ⟨fun content hc => hslots content (hleft ▸ hc), fun content hc => ?_⟩
    rw [hslots content hc, Bool.true_or]
    rfl

theorem tracks (hp : m.op.isGuarded = false) (hl : m.table.conn.Lone)
    (ht : m.table.conn.Tracks stored w) : m.next.conn.Tracks stored (w.after m) := by
  cases hb : m.op.isBracket
  case false =>
    rw [after_of_not_isBracket hb]
    exact Connection.statements_tracks (Op.run_follows_statement hp hb).conn ht
  case true =>
    obtain ⟨op, t⟩ := m
    cases op <;> try contradiction
    case begin    => exact ht.begin
    case commit   => exact tracks_commit hl ht
    case abort    => exact .settled rfl ht.left rfl
    case truncate => exact tracks_truncate hl ht

end Moment

theorem Leads.tracks {stored : HandleKeyKind → Option Value} {w : Wipe} {ms : List Moment}
    (l : Leads t ms t') (hl : t.conn.Lone) (ht : t.conn.Tracks stored w) :
    t'.conn.Lone ∧ t'.conn.Tracks stored (ms.foldl Wipe.after w) := by
  induction l generalizing w
  case nil => exact ⟨hl, ht⟩
  case cons op t _ _ hp _ ih =>
    have hl' := Connection.moves_lone (Op.run_follows (t := t) hp).conn hl
    exact ih hl' (Moment.tracks (m := ⟨op, t⟩) hp hl ht)
end AccountCache
