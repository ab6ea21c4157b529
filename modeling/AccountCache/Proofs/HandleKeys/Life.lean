import AccountCache.Proofs.HandleKeys.Creating
import AccountCache.Proofs.HandleKeys.Reading
import AccountCache.Proofs.Host.Deleting

namespace AccountCache

-- What is remembered of the requests so far: what the keys of the store were made from, which
-- truncations are in effect, and whether the last opening failed to make keys.
structure Ledger where
  birth  : Option Birth
  wipe   : Wipe
  spoilt : Bool

namespace Ledger

def blank : Ledger := ⟨none, .none, false⟩

-- With the table, its open transaction goes.
def dropped (g : Ledger) : Ledger := { g with wipe := { g.wipe with under := false } }

def isSpoilt : Except Failure Unit → Bool
  | .ok _    => false
  | .error f => f.isProvisioning

def birth? (b : Birth) : Except Failure Unit → Option Birth
  | .ok _    => some b
  | .error _ => none

-- A request is entered with the host that it found.
def after (n : Naming) (path : String) (h : Host) (g : Ledger) : Request → Ledger
  | .open label o name key =>
    let r := (h.open label n o name key).1
    match (h.rooted n).file? path with
    | some _ => { g.dropped with spoilt := isSpoilt r }
    | none   => ⟨birth? ⟨h.keyholder key, h.entropy⟩ r, .none, isSpoilt r⟩
  | .close label =>
    match h.table? label with
    | some _ => g.dropped
    | none   => g
  | .remove label =>
    match h.table? label with
    | some _ => blank
    | none   => g
  | .discard _ => blank
  | .table label op =>
    match h.table? label with
    | some t => { g with wipe := (op.history t).foldl Wipe.after g.wipe }
    | none   => g

end Ledger

-- An opening is of the one store, while no other table is open, and not right after one that failed
-- to make keys; to discard is to discard the one store.
def Allows (name : String) (h : Host) (g : Ledger) : Request → Prop
  | .open label _ name' _ => name' = name ∧ (∀ r ∈ h.seats, r.1 = label) ∧ g.spoilt = false
  | .discard name'        => name' = name
  | _                     => True

-- The requests to one store, which is not there at first.
inductive Life (n : Naming) (name path : String) : Host → Ledger → Prop
  | start {h : Host} : h.seats = [] → h.disk.Lacks n.root path → Life n name path h .blank
  | step {h : Host} {g : Ledger} {r : Request} : Life n name path h g → Allows name h g r →
    Life n name path (r.run n h).2 (g.after n path h r)

inductive Stage (n : Naming) (path : String) (h : Host) : Ledger → Prop
  | absent {w : Wipe} : h.disk.Lacks n.root path → (∀ r ∈ h.seats, r.2.path = path) →
    Stage n path h ⟨none, w, false⟩
  | stuck {w : Wipe} : h.seats = [] → h.Stuck n path → Stage n path h ⟨none, w, false⟩
  | spoilt {w : Wipe} : h.seats = [] → h.disk.Reaches (Place.steps n.root) →
    (∃ i, h.disk.file? path = some i) → Stage n path h ⟨none, w, true⟩
  | rests {b : Birth} {gone : Bool} : (∀ kind, ∃ sealed, b.sealed kind = .ok sealed) →
    h.Rests n path b gone → Stage n path h ⟨some b, ⟨gone, false⟩, false⟩
  | sole {label : String} {s : Seat} {b : Birth} {w : Wipe} :
    (∀ kind, ∃ sealed, b.sealed kind = .ok sealed) →
    h.Sole n path label b w s → Stage n path h ⟨some b, w, false⟩

namespace Host

variable {h h' : Host} {n : Naming} {path name label l key : String} {s : Seat}
    {b : Birth} {w : Wipe}

theorem table?_of_no_seats (hs : h.seats = []) (label : String) : h.table? label = none := by
  rw [table?, seat?, hs]
  rfl

namespace Sole

theorem table? (so : h.Sole n path label b w s) : h.table? label = some (h.assemble label s) :=
  table?_of_seat? so.seat

theorem table?_ne (so : h.Sole n path label b w s) (hl : l ≠ label) : h.table? l = none := by
  simp [Host.table?, seat?, so.only, List.lookup_cons, List.lookup_nil, beq_false_of_ne hl]

theorem step (so : h.Sole n path label b w s) (op : Op) :
    ∃ s', ((Request.table label op).run n h).2.Sole n path label b
      ((op.history (h.assemble label s)).foldl Wipe.after w) s' := by
  have ⟨h', phase, cursor, hrun, served, ready, hconn⟩ := so.toReady.step op
  have ⟨lone, tracks⟩ := (Op.history_leads op (h.assemble label s)).tracks so.lone so.tracks
  refine ⟨{ s with phase, cursor }, ?_⟩
  rw [hrun]
  refine
    { toReady := ready, only := ?_, short := so.short, path := so.path,
      lone := hconn ▸ lone, tracks := hconn ▸ tracks }
  rw [served.seats, so.only]
  simp [assign]

theorem close (so : h.Sole n path label b w s) : (h.close label).2.Rests n path b w.done := by
  have ⟨c, hh⟩ := so.holds
  have ⟨store, hb, hc⟩ := hh.body
  have hleft : (h.assemble label s).conn.committed? = some c := by
    refine Connection.committed?_eq_some.mpr ⟨store, ?_, hc⟩
    rw [show (h.assemble label s).conn.body = .store store from hb]
    rfl
  exact
    { seats := by rw [close_seats, so.only]; simp
      short := so.short
      store := ⟨_, c, hh.congr close_disk, so.lone.committed c hleft, so.tracks.left c hleft⟩ }

end Sole

theorem Creates.asks {r : Except Failure Unit} (c : Creates n path label key h r h') :
    Spares key h h' ∧
      (((∃ f, r = .error f ∧ ((∃ g, f = .opening g) ∨ ∃ g, f = .schema g)) ∧
        h'.keyholder key = h.keyholder key) ∨
      Birth.Asks ⟨h.keyholder key, h.entropy⟩ r (h'.keyholder key)) := by
  cases c
  case early f          => exact ⟨fun _ _ => rfl, .inl ⟨⟨_, rfl, .inl ⟨f, rfl⟩⟩, rfl⟩⟩
  case stuck hg _ hk _  => exact ⟨fun k _ => hk k, .inl ⟨⟨_, rfl, hg⟩, hk key⟩⟩
  case spoilt spares ha => exact ⟨spares, .inr ha⟩
  case made spares ha   => exact ⟨spares, .inr ha⟩

theorem Creates.stage {r : Except Failure Unit} (c : Creates n path label key h r h')
    (hl : h.disk.Lacks n.root path) (hs : h.seats = []) :
    Stage n path h' ⟨Ledger.birth? ⟨h.keyholder key, h.entropy⟩ r, .none, Ledger.isSpoilt r⟩ := by
  cases c
  case early f => exact .absent hl.makePath (by simp [hs])
  case stuck hg hs' _ st =>
    obtain ⟨g, rfl⟩ | ⟨g, rfl⟩ := hg
    · exact .stuck hs' st
    · exact .stuck hs' st
  case spoilt hs' hr hf _ ha =>
    simp only [Ledger.isSpoilt, ha.isProvisioning]
    exact .spoilt hs' hr hf
  case made so _ ha => exact .sole ha.exists_sealed so

theorem close_seats_eq_nil (ha : ∀ r ∈ h.seats, r.1 = label) : (h.close label).2.seats = [] := by
  rw [close_seats]
  exact List.filter_eq_nil_iff.mpr fun r hr => by simp [ha r hr]

end Host

namespace Stage

variable {h : Host} {n : Naming} {path name label key : String} {g : Ledger}
    {o : StoreOptions} {op : Op}

open Host (memoryPath)
open Ledger (after)

theorem not_lacks {i : Nat} (hf : h.disk.file? path = some i) : ¬h.disk.Lacks n.root path := by
  intro hl
  cases hl.file?.symm.trans hf

theorem after_open {i : Nat} (hf : h.disk.file? path = some i) (g : Ledger) :
    g.after n path h (.open label o name key) =
      { g.dropped with spoilt := Ledger.isSpoilt (h.open label n o name key).1 } := by
  simp only [Ledger.after, Host.rooted_file? hf]

theorem birth_close (h : Host) (label key : String) :
    (⟨(h.close label).2.keyholder key, (h.close label).2.entropy⟩ : Birth) =
    ⟨h.keyholder key, h.entropy⟩ := by
  rw [Host.close_keyholder, Host.close_entropy]

theorem after_open_of_lacks (hl : h.disk.Lacks n.root path) (g : Ledger) :
    g.after n path h (.open label o name key) =
      ⟨Ledger.birth? ⟨h.keyholder key, h.entropy⟩ (h.open label n o name key).1, .none,
        Ledger.isSpoilt (h.open label n o name key).1⟩ := by
  have hf : (h.rooted n).file? path = none := hl
  simp only [Ledger.after, hf]

theorem opened_of_rests {b : Birth} {w : Wipe} (rests : (h.close label).2.Rests n path b w.done)
    (hp : n.path name = .ok path) (hm : path ≠ memoryPath)
    (hb : ∀ kind, ∃ sealed, b.sealed kind = .ok sealed) :
    ¬h.disk.Lacks n.root path ∧ (∀ k, (h.open label n o name key).2.keyholder k = h.keyholder k) ∧
      Stage n path (h.open label n o name key).2
        (after n path h ⟨some b, w, false⟩ (.open label o name key)) := by
  have ⟨i, _, hh, _⟩ := rests.store
  have hf : h.disk.file? path = some i := Host.close_disk ▸ hh.file
  have ⟨h', s, ho, so, hk⟩ := rests.openNamed label o key hp hm
  rw [after_open hf, show h.open label n o name key = (.ok (), h') from ho]
  exact ⟨not_lacks hf, fun k => (hk k).trans (Host.close_keyholder k), .sole hb so⟩

-- An opening makes the store, or comes back to it with no master key called.
theorem opened (st : Stage n path h g) (hp : n.path name = .ok path) (hm : path ≠ memoryPath)
    (ha : Allows name h g (.open label o name key)) :
    (h.disk.Lacks n.root path ∧ (h.close label).2.seats = [] ∧
      Host.Creates n path label key (h.close label).2 (h.open label n o name key).1
        (h.open label n o name key).2) ∨
    (¬h.disk.Lacks n.root path ∧ (∀ k, (h.open label n o name key).2.keyholder k = h.keyholder k) ∧
      Stage n path (h.open label n o name key).2 (g.after n path h (.open label o name key))) := by
  have ⟨_, hseats, hspoilt⟩ := ha
  have hclosed := Host.close_seats_eq_nil hseats
  cases st
  case absent hl _ =>
    have hf : Host.Finds n path (h.close label).2.disk (.foreign []) := by
      rw [Host.close_disk]
      exact .absent hm hl
    exact .inl ⟨hl, hclosed, Host.openNamed_creates hp hm hf hclosed⟩
  case stuck hs stuck =>
    have ⟨i, hf, _⟩ := stuck.blank
    have ⟨⟨f, hr, hg⟩, hs', stuck', hk⟩ := stuck.openNamed label o key hp hm hs
    rw [after_open hf, Host.open_of_no_seats hs, hr]
    refine .inr ⟨not_lacks hf, hk, ?_⟩
    obtain ⟨g, rfl⟩ | ⟨g, rfl⟩ := hg
    · exact .stuck hs' stuck'
    · exact .stuck hs' stuck'
  case spoilt => cases hspoilt
  case rests hb rests =>
    refine .inr (opened_of_rests (w := ⟨_, false⟩) ?_ hp hm hb)
    rw [Host.close_of_no_seats rests.seats]
    exact rests
  case sole l s b w hb so =>
    have hl : l = label := hseats (l, s) (by simp [so.only])
    subst hl
    exact .inr (opened_of_rests so.close hp hm hb)

theorem unasked (st : Stage n path h g) (hs : h.seat? label = none) {r : Request}
    (hr : r = .close label ∨ r = .remove label ∨ ∃ op, r = .table label op) :
    Stage n path (r.run n h).2 (g.after n path h r) := by
  have ht : h.table? label = none := by rw [Host.table?, hs]; rfl
  obtain rfl | rfl | ⟨op, rfl⟩ := hr
  · simpa only [Request.run, Host.close, hs, after, ht] using st
  · simpa only [Request.run, Host.remove, hs, after, ht] using st
  · simpa only [Request.run, Host.onTable, hs, after, ht] using st

theorem close (st : Stage n path h g) (label : String) :
    Stage n path ((Request.close label).run n h).2 (g.after n path h (.close label)) := by
  cases hs : h.seat? label
  case none => exact st.unasked hs (.inl rfl)
  case some s =>
    have ht := Host.table?_of_seat? hs
    have hrun : ((Request.close label).run n h).2 = (h.close label).2 := rfl
    simp only [after, ht, hrun]
    cases st
    case absent hl hp =>
      refine .absent (by rwa [Host.close_disk]) fun r hr => hp r ?_
      rw [Host.close_seats] at hr
      exact (List.mem_filter.mp hr).left
    case stuck hn _    => simp [Host.seat?, hn] at hs
    case spoilt hn _ _ => simp [Host.seat?, hn] at hs
    case rests rests   => simp [Host.seat?, rests.seats] at hs
    case sole l s' b w hb so =>
      by_cases hl : label = l
      case neg => cases (so.table?_ne hl).symm.trans ht
      case pos =>
        subst hl
        exact .rests hb so.close

theorem table (st : Stage n path h g) (label : String) (op : Op) :
    Stage n path ((Request.table label op).run n h).2 (g.after n path h (.table label op)) := by
  cases hs : h.seat? label
  case none => exact st.unasked hs (.inr (.inr ⟨op, rfl⟩))
  case some s =>
    have ht := Host.table?_of_seat? hs
    cases st
    case absent hl hp =>
      simp only [after, ht, Request.run, Host.onTable, hs]
      refine .absent (Disk.Lacks.congr (d := h.disk) rfl hl) fun r hr => ?_
      cases hr
      case head    => exact hp (label, s) (Host.mem_of_seat? hs)
      case tail hr => exact hp r (List.mem_filter.mp hr).left
    case stuck hn _    => simp [Host.seat?, hn] at hs
    case spoilt hn _ _ => simp [Host.seat?, hn] at hs
    case rests rests   => simp [Host.seat?, rests.seats] at hs
    case sole l s' b w hb so =>
      by_cases hl : label = l
      case neg => cases (so.table?_ne hl).symm.trans ht
      case pos =>
        subst hl
        obtain ⟨_, so'⟩ := so.step op
        simp only [after, so.table?]
        exact .sole hb so'

theorem remove (st : Stage n path h g) (label : String) :
    Stage n path ((Request.remove label).run n h).2 (g.after n path h (.remove label)) := by
  cases hs : h.seat? label
  case none => exact st.unasked hs (.inr (.inl rfl))
  case some s =>
    have ht := Host.table?_of_seat? hs
    have hrun : ((Request.remove label).run n h).2 = (h.remove label).2 := rfl
    have hseats : (h.remove label).2.seats = h.seats.filter (·.1 ≠ label) := by
      rw [(Host.remove_logs hs).seats, (Host.deleteFiles_loses ..).rest, Host.close_seats]
    simp only [after, ht, hrun]
    cases st
    case absent hl hp =>
      refine .absent ?_ fun r hr => hp r ?_
      · rw [(Host.remove_logs hs).disk, hp (label, s) (Host.mem_of_seat? hs)]
        exact Host.deleteFiles_lacks_of_lacks (by rwa [Host.close_disk])
      · rw [hseats] at hr
        exact (List.mem_filter.mp hr).left
    case stuck hn _    => simp [Host.seat?, hn] at hs
    case spoilt hn _ _ => simp [Host.seat?, hn] at hs
    case rests rests   => simp [Host.seat?, rests.seats] at hs
    case sole l s' b w hb so =>
      by_cases hl : label = l
      case neg => cases (so.table?_ne hl).symm.trans ht
      case pos =>
        subst hl
        cases so.seat.symm.trans hs
        obtain ⟨_, hh⟩ := so.holds
        refine .absent (so.path ▸ Host.remove_lacks hs hh.reaches (so.path ▸ hh.file)) ?_
        rw [hseats, so.only]
        simp

theorem discard (st : Stage n path h g) (hp : n.path name = .ok path) :
    Stage n path ((Request.discard name).run n h).2 (g.after n path h (.discard name)) := by
  have hrun : ((Request.discard name).run n h).2 = (h.discard n name).2 := rfl
  have hseats : (h.discard n name).2.seats = h.seats := by
    rw [(Host.discard_logs hp).seats, (Host.deleteFiles_loses ..).rest]
  have absent (hl : h.disk.Lacks n.root path ∨
      h.disk.Reaches (Place.steps n.root) ∧ ∃ i, h.disk.file? path = some i)
      (hs : ∀ r ∈ h.seats, r.2.path = path) : Stage n path (h.discard n name).2 .blank :=
    .absent (Host.discard_lacks hp hl) (by rwa [hseats])
  simp only [after, hrun]
  cases st
  case absent hl hs       => exact absent (.inl hl) hs
  case stuck hs stuck     =>
    have ⟨i, hf, _⟩ := stuck.blank
    exact absent (.inr ⟨stuck.reaches, i, hf⟩) (by simp [hs])
  case spoilt hs hr hf    => exact absent (.inr ⟨hr, hf⟩) (by simp [hs])
  case rests rests        =>
    have ⟨i, _, hh, _⟩ := rests.store
    exact absent (.inr ⟨hh.reaches, i, hh.file⟩) (by simp [rests.seats])
  case sole so            =>
    have ⟨_, hh⟩ := so.holds
    exact absent (.inr ⟨hh.reaches, _, hh.file⟩) (by simp [so.only, so.path])

end Stage

theorem Life.stage {n : Naming} {name path : String} {h : Host} {g : Ledger}
    (life : Life n name path h g) (hp : n.path name = .ok path) (hm : path ≠ Host.memoryPath) :
    Stage n path h g := by
  induction life
  case start hs hl => exact .absent hl (by simp [hs])
  case step h g r _ ha st =>
    cases r
    case «open» label o name' key =>
      have hname := ha.left
      subst hname
      have hrun : ((Request.open label o name' key).run n h).2 =
          (h.open label n o name' key).2 := rfl
      obtain ⟨hl, hs, c⟩ | ⟨_, _, st'⟩ := st.opened hp hm ha
      case inr => exact st'
      case inl =>
        have st' := c.stage (by rwa [Host.close_disk]) hs
        rw [Stage.birth_close, ← Stage.after_open_of_lacks hl g] at st'
        exact st'
    case close label    => exact st.close label
    case remove label   => exact st.remove label
    case table label op => exact st.table label op
    case discard name'  =>
      have hname : name' = name := ha
      subst hname
      exact st.discard hp

end AccountCache
