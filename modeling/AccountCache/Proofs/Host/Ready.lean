import AccountCache.Proofs.Host.Reopening
import AccountCache.Proofs.Standard

namespace AccountCache

namespace Host

variable {h h' : Host} {n : Naming} {path label : String} {i : Nat} {s : Seat} {c : Content}

theorem Holds.congr (hd : h'.disk = h.disk) (hh : h.Holds n path i c) : h'.Holds n path i c where
  reaches := hd ▸ hh.reaches
  journal := hd ▸ hh.journal
  log     := hd ▸ hh.log
  file    := hd ▸ hh.file
  body    := by rw [Host.body, hd]; exact hh.body

-- A table is open on a file with standard tables, and no other table on the file is in its way.
structure Ready (n : Naming) (path label : String) (s : Seat) (h : Host) : Prop where
  seat     : h.seat? label = some s
  holds    : ∃ c, h.Holds n path s.body c
  free     : ∀ r ∈ h.seats, r.1 ≠ label → r.2.body = s.body → r.2.phase.isPending = false
  standard : (h.assemble label s).conn.Standard

theorem Ready.step (hr : h.Ready n path label s) (op : Op) :
    ∃ h' phase cursor, (Request.table label op).run n h =
    (some (op.run (h.assemble label s)).1, h') ∧
      Served label { s with phase, cursor } h h' ∧ h'.Ready n path label { s with phase, cursor } ∧
      (h'.assemble label { s with phase, cursor }).conn = (op.run (h.assemble label s)).2.conn := by
  have ⟨store, hb, _⟩ := hr.standard.body
  have ⟨h', phase, cursor, hrun, served, ht⟩ := run_table op n hr.seat (by rw [hb]; rfl)
  have hs' := served.seat?
  have hconn : (h'.assemble label { s with phase, cursor }).conn =
      (op.run (h.assemble label s)).2.conn := by
    rw [Option.some.inj ((table?_of_seat? hs').symm.trans ht)]
  have hstandard : (h'.assemble label { s with phase, cursor }).conn.Standard := by
    rw [hconn]
    exact Connection.moves_standard (Op.history_leads op _).follows.conn hr.standard
  refine ⟨h', phase, cursor, hrun, served, ⟨hs', ?_, ?_, hstandard⟩, hconn⟩
  · have ⟨c, hh⟩ := hr.holds
    have ⟨store', hb', _⟩ := hstandard.body
    have par : Disk.Parallel h.disk h'.disk := .of_links served.links
    exact ⟨store'.content,
      { reaches := hh.reaches.mono fun p => (par p).mp
        journal := fun hd => hh.journal (par.find?_eq_directory.mpr hd)
        log     := fun hd => hh.log (par.find?_eq_directory.mpr hd)
        file    := (Disk.file?_congr served.links).trans hh.file
        body    := ⟨store', hb', rfl⟩ }⟩
  · intro r hm hl hbody
    have hf : r ∈ h'.seats.filter (·.1 ≠ label) := List.mem_filter.mpr ⟨hm, by simpa using hl⟩
    rw [served.others] at hf
    exact hr.free r (List.mem_filter.mp hf).left hl hbody

-- No seat is made ready where a directory has the name of the journal.
theorem Arrives.journal {h₂ : Host} {o : StoreOptions} {key : String}
    (a : Arrives n path h i h₂) (hm : path ≠ memoryPath)
    (hpend : (h₂.peers label i).pending = false)
    (hok : (h₂.settle label o (newSeat path key i)).1 = .ok ()) :
    h₂.disk.find? (journalPath path) ≠ some .directory := by
  intro hd
  cases hb : (h₂.body i).isBlank
  case false => exact a.free hm (.inl (isJammed_eq_true.mpr ⟨hb, hd⟩))
  case true =>
    have ho : (h₂.assemble label (newSeat path key i)).conn.obstacle = some .cannotOpen :=
      (newSeat_obstacle label key hm (a.file hm)).trans (if_neg fun fits => fits.right hd)
    have hmem : (newSeat path key i).inMemory = false := decide_eq_false hm
    obtain ⟨_, hprep⟩ := Table.prepare_of_obstacle (t := h₂.assemble label (newSeat path key i)) o
      h₂.entropy rfl hb hpend ho
    rw [(settle_eq ..).left, hmem, hprep] at hok
    cases hok

theorem ready_of_install {h₂ : Host} {t : Table} {store : Store} (key : String) (e : Entropy)
    (a : Arrives n path h i h₂) (hm : path ≠ memoryPath)
    (hj : h₂.disk.find? (journalPath path) ≠ some .directory)
    (hpend : (h₂.peers label i).pending = false) (hi : t.conn.phase = .idle)
    (hb : (h₂.install label (newSeat path key i) t e).body i = .store store)
    (hs : store.content.IsStandard) :
    (h₂.install label (newSeat path key i) t e).Ready n path label
      { newSeat path key i with phase := t.conn.phase, cursor := t.cursor } where
  seat  := install_seat?
  holds := ⟨store.content, holds_of_install key e a hm hj hb⟩
  free r hmem hl hbody := by
    rw [install_seats] at hmem
    have hf := List.mem_filter (p := (·.1 ≠ label)).mpr ⟨hmem, decide_eq_true hl⟩
    rw [filter_assign] at hf
    exact peers_pending_eq_false.mp hpend r (List.mem_filter.mp hf).left hl hbody
  standard := by
    refine ⟨⟨store, hb, hs⟩, fun content hcontent => ?_⟩
    rw [Connection.content?_of_not_inTransaction (install_idle hi)] at hcontent
    obtain ⟨store', hs', hc⟩ := Connection.committed?_eq_some.mp hcontent
    cases (congrArg Body.store? hb).symm.trans hs'
    exact hc ▸ hs

end Host
end AccountCache
