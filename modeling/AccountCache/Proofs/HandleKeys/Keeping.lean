import AccountCache.Proofs.HandleKeys.Life
import AccountCache.Proofs.HandleKeys.Reading
import Mathlib.Control.Monad.Basic

namespace AccountCache

namespace Host

theorem run_calls (r : Request) (hr : ∀ label o name key, r ≠ .open label o name key) (h : Host)
    (n : Naming) (k : String) : ∃ calls,
    ((r.run n h).2.keyholder k).calls = (h.keyholder k).calls ++ calls ∧
      ∀ call ∈ calls, call.isWrap = false := by
  have same {h' : Host} (hk : h'.keyring = h.keyring) : ∃ calls,
      (h'.keyholder k).calls = (h.keyholder k).calls ++ calls ∧
      ∀ call ∈ calls, call.isWrap = false :=
    ⟨[], by rw [keyholder_congr hk, List.append_nil], by simp⟩
  cases r
  case «open» label o name key => exact absurd rfl (hr label o name key)
  case close label             => exact same close_keyring
  case remove label =>
    cases hs : h.seat? label
    case none   => exact same (by simp only [Request.run, remove, hs])
    case some s =>
      apply same
      rw [show ((Request.remove label).run n h).2 = (h.remove label).2 from rfl,
        (remove_logs hs).keyring, (deleteFiles_loses ..).rest]
      exact close_keyring
  case discard name =>
    cases hp : n.path name
    case error f => exact same (by simp only [Request.run, discard, hp])
    case ok path =>
      apply same
      rw [show ((Request.discard name).run n h).2 = (h.discard n name).2 from rfl,
        (discard_logs hp).keyring, (deleteFiles_loses ..).rest]
  case table label op =>
    cases hs : h.seat? label
    case none   => exact same (by simp only [Request.run, onTable, hs])
    case some s =>
      simp only [Request.run, onTable, hs]
      have f := (Op.history_leads op (h.assemble label s)).follows
      have hring : (h.restore label s (op.run (h.assemble label s)).2).keyring =
          assign s.key (op.run (h.assemble label s)).2.key h.keyring := rfl
      obtain ⟨held, spares⟩ := keyholder_assign hring
      by_cases hk : k = s.key
      case neg => exact ⟨[], by rw [spares k hk, List.append_nil], by simp⟩
      case pos =>
        rw [hk, held]
        exact f.calls

end Host

namespace Birth

-- Each operation of a history finds in the slots what was stored, up to the truncations before it.
def ShownIn (b : Birth) (w : Wipe) (ms : List Moment) : Prop :=
  ∀ before m after, ms = before ++ m :: after →
    let w' := before.foldl Wipe.after w
    ∃ c, m.table.conn.content? = some c ∧ c.keySlots = Wipe.leaves (w'.done || w'.under) b.stored

-- Each reading of the keys that succeeds gives what the master key at hand opens from what was
-- stored: the keys that were drawn, if it agrees with the one that sealed them.
def ReadIn (b : Birth) (ms : List Moment) : Prop :=
  ∀ m ∈ ms, m.op = .readHandleKeys → ∀ keys, m.reply = .ok (.keys keys) →
    b.Opens m.table.key.key .node keys.node ∧ b.Opens m.table.key.key .parent keys.parent ∧
      (b.holder.key.Agrees m.table.key.key → keys = b.keys)

variable {b : Birth} {w : Wipe} {t t' : Table} {ms : List Moment}

theorem shown_of_leads (l : Leads t ms t') (hl : t.conn.Lone) (ht : t.conn.Tracks b.stored w) :
    b.ShownIn w ms := by
  intro before m after hms
  have ⟨t₁, l₁, l₂⟩ := (hms ▸ l : Leads t (before ++ m :: after) t').append_inv
  have ⟨hl₁, ht₁⟩ := l₁.tracks hl ht
  have ⟨c, hc⟩ := hl₁.content?_eq_some
  rw [l₂.cons_inv.right.left]
  exact ⟨c, hc, ht₁.seen c hc⟩

theorem read_of_leads (l : Leads t ms t') (hl : t.conn.Lone) (ht : t.conn.Tracks b.stored w) :
    b.ReadIn ms := by
  intro m hm hop keys hr
  obtain ⟨before, after, hms⟩ := List.append_of_mem hm
  obtain ⟨t₁, l₁, l₂⟩ := (hms ▸ l : Leads t (before ++ m :: after) t').append_inv
  have ht₁ := (l₁.tracks hl ht).right
  have htable := l₂.cons_inv.right.left
  obtain ⟨op, table⟩ := m
  cases hop
  cases htable
  have hk : (Table.readHandleKeys table).1 = .ok keys := by
    simp only [Moment.reply, Op.run, Op.answer] at hr
    cases hread : (Table.readHandleKeys table).1 <;> rw [hread] at hr <;> cases hr
    rfl
  obtain ⟨node, parent⟩ := Table.readHandleKeys_of_tracks ht₁ hk
  refine ⟨node, parent, fun ha => ?_⟩
  obtain ⟨_, _⟩ := keys
  exact congrArg₂ HandleKeys.mk (node.eq_drawn ha) (parent.eq_drawn ha)

end Birth

-- What holds at every point of a life, whatever is asked next.
structure Keeps (n : Naming) (name path : String) (h : Host) (g : Ledger) : Prop where
  -- An opening has keys sealed only where there is no store, and then in their order.
  makes : ∀ label o key, Allows name h g (.open label o name key) → h.disk.Lacks n.root path →
    let r := h.open label n o name key
    Host.Spares key h r.2 ∧
      (((∃ f, r.1 = .error f ∧ ((∃ g, f = .opening g) ∨ ∃ g, f = .schema g)) ∧
        r.2.keyholder key = h.keyholder key) ∨
      Birth.Asks ⟨h.keyholder key, h.entropy⟩ r.1 (r.2.keyholder key))
  reopens : ∀ label o key, Allows name h g (.open label o name key) → ¬h.disk.Lacks n.root path →
    ∀ k, (h.open label n o name key).2.keyholder k = h.keyholder k
  -- Nothing else has keys sealed.
  calls : ∀ r : Request, (∀ label o name key, r ≠ .open label o name key) → ∀ k, ∃ calls,
    ((r.run n h).2.keyholder k).calls = (h.keyholder k).calls ++ calls ∧
    ∀ call ∈ calls, call.isWrap = false
  -- Once the store is made both keys are stored, and what the file has of them is all or nothing.
  stored : ∀ b, g.birth = some b → ∀ kind, ∃ sealed, b.sealed kind = .ok sealed ∧
    b.stored kind = some (.blob sealed)
  left : ∀ b, g.birth = some b → ∃ i s, h.disk.file? path = some i ∧ h.body i = .store s ∧
    s.content.keySlots = Wipe.leaves g.wipe.done b.stored
  -- So it is for whatever is done with the open table.
  shown : ∀ b label t, g.birth = some b → h.table? label = some t →
    ∀ op : Op, b.ShownIn g.wipe (op.history t)
  read : ∀ b label t, g.birth = some b → h.table? label = some t →
    ∀ op : Op, b.ReadIn (op.history t)

namespace Stage

variable {h : Host} {n : Naming} {path label : String} {g : Ledger} {b : Birth}

theorem stored (st : Stage n path h g) (hb : g.birth = some b) (kind : HandleKeyKind) :
    ∃ sealed, b.sealed kind = .ok sealed ∧ b.stored kind = some (.blob sealed) := by
  have all : ∀ kind, ∃ sealed, b.sealed kind = .ok sealed := by
    cases st <;> cases hb
    case rests hall _ => exact hall
    case sole hall _  => exact hall
  have ⟨sealed, hs⟩ := all kind
  exact ⟨sealed, hs, Birth.stored_of_sealed hs⟩

theorem left (st : Stage n path h g) (hb : g.birth = some b) :
    ∃ i s, h.disk.file? path = some i ∧ h.body i = .store s ∧
      s.content.keySlots = Wipe.leaves g.wipe.done b.stored := by
  cases st <;> cases hb
  case rests rests =>
    have ⟨i, c, hh, _, hslots⟩ := rests.store
    have ⟨s, hs, hc⟩ := hh.body
    exact ⟨i, s, hh.file, hs, hc ▸ hslots⟩
  case sole label s w _ so =>
    have ⟨c, hh⟩ := so.holds
    have ⟨store, hb, _⟩ := hh.body
    refine ⟨s.body, store, hh.file, hb, so.tracks.left store.content ?_⟩
    exact Connection.committed?_eq_some.mpr ⟨store, congrArg Body.store? hb, rfl⟩

theorem tracks {t : Table} (st : Stage n path h g) (hb : g.birth = some b)
    (ht : h.table? label = some t) :
    t.conn.Lone ∧ t.conn.Tracks b.stored g.wipe := by
  cases st <;> cases hb
  case rests rests => cases (Host.table?_of_no_seats rests.seats label).symm.trans ht
  case sole l s w _ so =>
    by_cases hl : label = l
    case neg => cases (so.table?_ne hl).symm.trans ht
    case pos =>
      subst hl
      cases so.table?.symm.trans ht
      exact ⟨so.lone, so.tracks⟩

end Stage

theorem Life.keeps_handleKeys {n : Naming} {name path : String} {h : Host} {g : Ledger}
    (life : Life n name path h g) (hp : n.path name = .ok path) (hm : path ≠ Host.memoryPath) :
    Keeps n name path h g where
  makes label o key ha hl := by
    obtain ⟨_, _, c⟩ | ⟨hn, _⟩ := (life.stage hp hm).opened hp hm ha
    case inl =>
      have asks := c.asks
      rw [Stage.birth_close, Host.close_keyholder] at asks
      exact ⟨fun k hk => (asks.left k hk).trans (Host.close_keyholder k), asks.right⟩
    case inr => exact absurd hl hn
  reopens label o key ha hl := by
    obtain ⟨h', _⟩ | ⟨_, hk, _⟩ := (life.stage hp hm).opened hp hm ha
    · exact absurd h' hl
    · exact hk
  calls r hr k := Host.run_calls r hr h n k
  stored b hb  := (life.stage hp hm).stored hb
  left b hb    := (life.stage hp hm).left hb
  shown b label t hb ht op := by
    have ⟨lone, tracks⟩ := (life.stage hp hm).tracks hb ht
    exact Birth.shown_of_leads (Op.history_leads op t) lone tracks
  read b label t hb ht op := by
    have ⟨lone, tracks⟩ := (life.stage hp hm).tracks hb ht
    exact Birth.read_of_leads (Op.history_leads op t) lone tracks

namespace Host

def bare : Host where
  disk    := ⟨[], []⟩
  seats   := []
  keyring := []
  entropy := ⟨fun _ => 0, 0⟩
  log     := []

theorem bare_open : (bare.open "t" plainNaming .default "a" "k").1 = .ok () := by decide +kernel

theorem bare_keeps :
    let h := (bare.open "t" plainNaming .default "a" "k").2
    let g : Ledger := ⟨some ⟨bare.keyholder "k", bare.entropy⟩, .none, false⟩
    plainNaming.path "a" = .ok "a.db" ∧ "a.db" ≠ memoryPath ∧ Life plainNaming "a" "a.db" h g ∧
      Keeps plainNaming "a" "a.db" h g := by
  intro h g
  have lacks : bare.disk.Lacks plainNaming.root "a.db" := by rfl
  have allows : Allows "a" bare .blank (.open "t" .default "a" "k") := ⟨rfl, by simp [bare], rfl⟩
  have life : Life plainNaming "a" "a.db" h
      (Ledger.blank.after plainNaming "a.db" bare (.open "t" .default "a" "k")) :=
    .step (.start rfl lacks) allows
  rw [Stage.after_open_of_lacks lacks, bare_open] at life
  exact ⟨plainNaming_path, by decide, life, life.keeps_handleKeys plainNaming_path (by decide)⟩

end Host
end AccountCache
