import AccountCache.Proofs.Host.Ready
import AccountCache.Proofs.Provision

open Relation (ReflTransGen)

namespace AccountCache

namespace Host

variable {h h' : Host} {n : Naming} {name path label : String} {s : Seat} {c : Content}

-- To abort, and to close the table and open its store again, both lead to the content.
structure FallsBack (n : Naming) (name label : String) (c : Content) (h : Host) : Prop where
  abort : ∃ h', (Request.table label .abort).run n h = (some (.ok .done), h') ∧ h'.AtRest label c
  reopen : ∀ label' o key, ∃ h',
    Request.runAll n [.close label, .open label' o name key] h =
      ([some (.ok .done), some (.ok .done)], h') ∧
    h'.AtRest label' c ∧ ∃ t, h'.table? label' = some t ∧ t.cursor = .idle

theorem Ready.run (hr : h.Ready n path label s) (ops : List Op) :
    ∃ s', (Request.runAll n (ops.map (.table label)) h).2.Ready n path label s' := by
  induction ops generalizing h s
  case nil => exact ⟨s, hr⟩
  case cons op ops ih =>
    have ⟨h', _, _, hrun, _, hr', _⟩ := hr.step op
    have ⟨s'', hr''⟩ := ih hr'
    refine ⟨s'', ?_⟩
    simpa only [List.map_cons, Request.runAll, hrun] using hr''

theorem Ready.run_in_transaction (hr : h.Ready n path label s)
    (hi : (h.assemble label s).inTransaction = true) {ops : List Op}
    (hops : ∀ op ∈ ops, op ≠ .commit ∧ op ≠ .abort) :
    ∃ s', (Request.runAll n (ops.map (.table label)) h).2.Ready n path label s' ∧
      ((Request.runAll n (ops.map (.table label)) h).2.assemble label s').conn.body =
        (h.assemble label s).conn.body := by
  induction ops generalizing h s
  case nil => exact ⟨s, hr, rfl⟩
  case cons op ops ih =>
    have ⟨h', _, _, hrun, _, hr', hconn⟩ := hr.step op
    have ⟨hc, ha⟩ := hops op (.head _)
    have ⟨hi', hbody⟩ := Connection.works_in_transaction (Op.run_follows_work hi hc ha).conn hi
    have ⟨s'', hr'', hbody'⟩ := ih hr' (by rw [Table.inTransaction, hconn]; exact hi')
      (fun op hm => hops op (.tail _ hm))
    refine ⟨s'', ?_⟩
    simp only [List.map_cons, Request.runAll, hrun]
    exact ⟨hr'', by rw [hbody', hconn, hbody]⟩

theorem Holds.at_rest {i : Nat} {key : String} {seats : List (String × Seat)}
    (hh : h.Holds n path i c) (hs : h.seats = assign label (newSeat path key i) seats) :
    h.AtRest label c ∧ ∃ t, h.table? label = some t ∧ t.cursor = .idle := by
  have hseat : h.seat? label = some (newSeat path key i) := by
    rw [seat?, hs, lookup_assign, if_pos rfl]
  obtain ⟨store, hb, hcontent⟩ := hh.body
  have hbody : (h.assemble label (newSeat path key i)).conn.body = .store store := hb
  have hseen : (h.assemble label (newSeat path key i)).conn.content? = some c := by
    rw [Connection.content?_of_not_inTransaction rfl]
    simp [Connection.committed?, hbody, Body.store?, Except.toOption, hcontent]
  exact ⟨⟨_, table?_of_seat? hseat, rfl, hseen⟩, _, table?_of_seat? hseat, rfl⟩

theorem Ready.falls_back (hr : h.Ready n path label s) (hp : n.path name = .ok path)
    (hm : path ≠ memoryPath) (hc : (h.assemble label s).conn.committed? = some c) :
    h.FallsBack n name label c where
  abort := by
    obtain ⟨h', _, _, hrun, _, hr', hconn⟩ := hr.step .abort
    exact ⟨h', hrun, _, table?_of_seat? hr'.seat, by rw [Table.inTransaction, hconn]; rfl,
      by rw [hconn]; exact hc⟩
  reopen := by
    intro label' o key
    obtain ⟨c', hh⟩ := hr.holds
    obtain ⟨store, hb, hcontent⟩ := hh.body
    have hcommitted : store.content = c := by
      have hbody : (h.assemble label s).conn.body = .store store := hb
      simpa [Connection.committed?, hbody, Body.store?, Except.toOption] using hc
    obtain rfl : c' = c := hcontent.symm.trans hcommitted
    have hdisk : ((h.close label).2.close label').2.disk = h.disk := close_disk.trans close_disk
    have hstandard : c'.IsStandard := hr.standard.committed c' hc
    have hfree : (((h.close label).2.close label').2.peers label' s.body).pending = false := by
      apply peers_pending_eq_false.mpr
      intro r hmem _ hbody
      rw [close_seats, close_seats] at hmem
      have hmem₁ := List.mem_filter.mp (List.mem_filter.mp hmem).left
      exact hr.free r hmem₁.left (by simpa using hmem₁.right) hbody
    obtain ⟨h', ho, hh', hseats, _, _⟩ := openNamed_of_standard label' o key
      hp hm (hh.congr hdisk) hstandard hfree
    have hrun : Request.runAll n [.close label, .open label' o name key] h =
        ([some (.ok .done), some (.ok .done)], h') := by
      simp only [Request.runAll, Request.run, close_of_seat? hr.seat, Host.open, ho]
      rfl
    exact ⟨h', hrun, hh'.at_rest hseats⟩

theorem Ready.begins (hr : h.Ready n path label s)
    (hi : (h.assemble label s).inTransaction = false) :
    ((Request.table label .begin).run n h).1 = some (.ok .done) := by
  obtain ⟨_, _, _, hrun, _⟩ := hr.step .begin
  rw [hrun]
  obtain ⟨hn, _⟩ | ⟨_, hb⟩ := Connection.begin_cases (h.assemble label s).conn
  case inl =>
    exact absurd hn (by simp [show (h.assemble label s).conn.inTransaction = false from hi])
  case inr =>
    have hbegin : Table.begin (h.assemble label s) = _ := Table.onConnection_of_ok hb
    simp only [Op.run, Op.done, Op.answer, hbegin]
    rfl

theorem Ready.falls_back_after_begin (hr : h.Ready n path label s) (hp : n.path name = .ok path)
    (hm : path ≠ memoryPath)
    (hbegin : ((Request.table label .begin).run n h).1 = some (.ok .done)) :
    ∃ c, h.content? label = some c ∧
      ∀ during : List Op, (∀ op ∈ during, op ≠ .commit ∧ op ≠ .abort) →
        (Request.runAll n (during.map (.table label))
          ((Request.table label .begin).run n h).2).2.FallsBack n name label c := by
  obtain ⟨c, hc⟩ := hr.standard.committed?_eq_some
  obtain ⟨h', phase, cursor, hrun, _, hr', hconn⟩ := hr.step .begin
  rw [hrun] at hbegin ⊢
  obtain ⟨_, hb⟩ | ⟨hn, hb⟩ := Connection.begin_cases (h.assemble label s).conn
  case inl =>
    have hrun : Table.begin (h.assemble label s) = _ := Table.onConnection_of_error hb
    simp [Op.run, Op.done, Op.answer, hrun, Except.map] at hbegin
  case inr =>
    have hconn' : (h'.assemble label { s with phase, cursor }).conn =
        { (h.assemble label s).conn with phase := .begun } := by
      have hrun : Table.begin (h.assemble label s) = _ := Table.onConnection_of_ok hb
      rw [hconn]
      simp only [Op.run, Op.done, Op.answer, hrun]
    refine ⟨c, ?_, fun during hduring => ?_⟩
    · rw [content?, table?_of_seat? hr.seat, Option.bind_some]
      exact (Connection.content?_of_not_inTransaction hn).trans hc
    · have hi : (h'.assemble label { s with phase, cursor }).inTransaction = true := by
        simp [Table.inTransaction, hconn', Connection.inTransaction]
      obtain ⟨s'', hr'', hbody⟩ := hr'.run_in_transaction hi hduring
      apply hr''.falls_back hp hm
      rw [Connection.committed?, hbody, hconn']
      exact hc

theorem ready_of_open {o : StoreOptions} {key : String} (hp : n.path name = .ok path)
    (hm : path ≠ memoryPath) (ho : (h.open label n o name key).1 = .ok ())
    (hc : (h.open label n o name key).2.content? label = some c) (hs : c.IsStandard) :
    ∃ s, (h.open label n o name key).2.Ready n path label s := by
  unfold Host.open at ho hc ⊢
  obtain ⟨f, h', hstop, _⟩ | ⟨i, h₂, arrives, ⟨store, hstore⟩, hpend, hset⟩ := openNamed_cases
    (h := (h.close label).2) label o key hp
  case inl => simp [hstop] at ho
  case inr =>
    have hj := arrives.journal hm hpend (hset ▸ ho)
    rw [hset, settle] at ho hc ⊢
    have hidle := Table.prepare_idle (t := h₂.assemble label (newSeat path key i)) o
      (newSeat path key i).inMemory h₂.entropy rfl hstore
    cases hprep : (h₂.assemble label (newSeat path key i)).prepare o (newSeat path key i).inMemory
      h₂.entropy
    case mk r te =>
      obtain ⟨t, e⟩ := te
      rw [hprep] at ho hc hidle
      cases r
      case error => simp at ho
      case ok =>
        have hphase : t.conn.phase = .idle := (hidle rfl).left
        have hseat : (h₂.install label (newSeat path key i) t e).seat? label =
            some { newSeat path key i with phase := t.conn.phase, cursor := t.cursor } :=
              install_seat?
        simp only [content?, table?_of_seat? hseat, Option.bind_some] at hc
        rw [Connection.content?_of_not_inTransaction (install_idle hphase)] at hc
        obtain ⟨store', hstore', hcontent⟩ := Connection.committed?_eq_some.mp hc
        have hstandard : store'.content.IsStandard := hcontent ▸ hs
        have hbody : (h₂.install label (newSeat path key i) t e).body i = .store store' :=
          Body.eq_store_of_has hstore' (hstandard.has .init)
        exact ⟨_, ready_of_install key e arrives hm hj hpend hphase hbody hstandard⟩

-- At every point of a run on a table, to abort and to drop the table come to the same; after a
-- beginning, and before an end, what they come to is the content at the beginning.
theorem rollback_exact {h : Host} {n : Naming} {name path label key : String} {o : StoreOptions}
    {c : Content} (hp : n.path name = .ok path) (hm : path ≠ memoryPath)
    (ho : (h.open label n o name key).1 = .ok ())
    (hc : (h.open label n o name key).2.content? label = some c) (hs : c.IsStandard)
    (before : List Op) :
    let h₁ := (Request.runAll n (before.map (.table label)) (h.open label n o name key).2).2
    (∃ c₁, h₁.FallsBack n name label c₁) ∧
    (((Request.table label .begin).run n h₁).1 = some (.ok .done) →
      ∃ c₁, h₁.content? label = some c₁ ∧
        ∀ during : List Op, (∀ op ∈ during, op ≠ .commit ∧ op ≠ .abort) →
          (Request.runAll n (during.map (.table label))
            ((Request.table label .begin).run n h₁).2).2.FallsBack n name label c₁) := by
  intro h₁
  have ⟨_, hr₀⟩ := ready_of_open hp hm ho hc hs
  have ⟨s, hr⟩ := hr₀.run before
  have ⟨c₁, hcommitted⟩ := hr.standard.committed?_eq_some
  exact ⟨⟨c₁, hr.falls_back hp hm hcommitted⟩, hr.falls_back_after_begin hp hm⟩

def oneUser : Content :=
  ⟨.table .empty, .table .empty, .table (Rows.empty.put 7 (.blob [1])), .table .empty⟩

def shelf : Host where
  disk    := ⟨[(["a.db"], .file 0)], [.store ⟨oneUser, 0, true⟩]⟩
  seats   := []
  keyring := []
  entropy := ⟨fun _ => 0, 0⟩
  log     := []

theorem shelf_holds : shelf.Holds plainNaming "a.db" 0 oneUser where
  reaches := ⟨[], by rfl, rfl⟩
  journal := by decide +kernel
  log     := by decide +kernel
  file    := by rfl
  body    := ⟨_, rfl, rfl⟩

-- A user that is deleted in a transaction is back at its end.
theorem shelf_rollback_exact :
    let h := (shelf.open "t" plainNaming .default "a" "k").2
    let begun := (Request.table "t" .begin).run plainNaming h
    plainNaming.path "a" = .ok "a.db" ∧ "a.db" ≠ memoryPath ∧
    (shelf.open "t" plainNaming .default "a" "k").1 = .ok () ∧
    h.content? "t" = some oneUser ∧ oneUser.IsStandard ∧ begun.1 = some (.ok .done) ∧
    (Request.runAll plainNaming [.table "t" (.deleteUser 7)] begun.2).2.FallsBack
      plainNaming "a" "t"
      oneUser := by
  intro h begun
  have hp := plainNaming_path
  have hs : oneUser.IsStandard := ⟨rfl, rfl, rfl, rfl⟩
  obtain ⟨h', ho, hh, hseats, _⟩ :=
    openNamed_of_standard (h := shelf) "t" .default "k" hp (by decide)
    shelf_holds hs rfl
  have hopen : shelf.open "t" plainNaming .default "a" "k" = (.ok (), h') := ho
  have ho' : (shelf.open "t" plainNaming .default "a" "k").1 = .ok () := by rw [hopen]
  have hh' : h = h' := congrArg Prod.snd hopen
  obtain ⟨⟨t, ht, hidle, hseen⟩, _⟩ := hh.at_rest hseats
  rw [← hh'] at ht
  have hc : h.content? "t" = some oneUser := by rw [content?, ht, Option.bind_some, hseen]
  obtain ⟨s, hr⟩ := ready_of_open hp (by decide) ho' hc hs
  have hi : (h.assemble "t" s).inTransaction = false := by
    cases ht.symm.trans (table?_of_seat? hr.seat)
    exact hidle
  have hbegin : begun.1 = some (.ok .done) := hr.begins hi
  obtain ⟨c, hc', back⟩ := (rollback_exact hp (by decide) ho' hc hs []).right hbegin
  cases hc.symm.trans hc'
  exact ⟨hp, by decide, ho', hc, hs, hbegin, back [.deleteUser 7] (by simp)⟩

end Host
end AccountCache
