import AccountCache.Proofs.Host.Recalling
import AccountCache.Proofs.Throughout

namespace AccountCache

-- A property that new stores have, and that the changes of operations keep.
structure Content.Invariant (P : Content → Prop) : Prop extends Content.Lasts P where
  opens {c : Content} : blank.Opens c → P c
  standard {c : Content} : P c → c.IsStandard

namespace Host

variable {P : Content → Prop} {h h' : Host} {n : Naming} {path name label : String}
    {i j : Nat} {s : Seat}
  {c : Content} {o : StoreOptions} {key : String}

-- The body has the property, and so has what the tables on it hold in their transactions.
structure Endures (P : Content → Prop) (i : Nat) (h : Host) : Prop where
  body : ∃ b, h.disk.bodies[i]? = some b ∧ ∀ store, b.store? = .ok store → P store.content
  held : ∀ r ∈ h.seats, r.2.body = i → ∀ content, r.2.phase.held? = some content → P content

namespace Endures

theorem throughout (e : h.Endures P i) (hs : h.seat? label = some s) (hi : s.body = i) :
    (h.assemble label s).conn.Throughout P where
  body := by
    obtain ⟨b, hb, hstore⟩ := e.body
    have hbody : (h.assemble label s).conn.body = b := by
      simp only [assemble, Host.body, hi, hb, Option.getD_some]
    rwa [hbody]
  held := e.held _ (mem_of_seat? hs) hi

theorem seen (e : h.Endures P i) (hs : h.seat? label = some s) (hi : s.body = i)
    (hc : (h.assemble label s).conn.Sees c) : P c :=
  (e.throughout hs hi).content? hc.content

theorem mono (e : h.Endures P i) (hb : h'.disk.bodies[i]? = h.disk.bodies[i]?)
    (hs : ∀ r ∈ h'.seats, r ∈ h.seats) : h'.Endures P i where
  body      := hb ▸ e.body
  held r hr := e.held r (hs r hr)

theorem setBody {b : Body} (e : h.Endures P i)
    (hb : j = i → ∀ store, b.store? = .ok store → P store.content) :
    { h with disk := h.disk.setBody j b }.Endures P i where
  body := by
    obtain ⟨b', hb', hstore⟩ := e.body
    obtain ⟨hlt, _⟩ := List.getElem?_eq_some_iff.mp hb'
    simp only [Disk.setBody, List.getElem?_set]
    by_cases hj : j = i
    case pos => exact ⟨b, by simp [hj, hlt], hb hj⟩
    case neg => exact ⟨b', by simp [hj, hb'], hstore⟩
  held := e.held

theorem assign (e : h.Endures P i) (label : String)
    (hh : s.body = i → ∀ content, s.phase.held? = some content → P content) :
    { h with seats := Host.assign label s h.seats }.Endures P i where
  body := e.body
  held r hr := by
    obtain rfl | hr := mem_of_mem_assign hr
    · exact hh
    · exact e.held r hr

theorem restore {t : Table} (e : h.Endures P i) (label : String)
    (ht : s.body = i → t.conn.Throughout P) :
    (h.restore label s t).Endures P i := by
  have written := e.setBody (j := s.body) (b := t.conn.body) fun hi => (ht hi).body
  have seated := written.assign label (s := { s with phase := t.conn.phase, cursor := t.cursor })
    fun hi => (ht hi).held
  exact { seated with }

theorem install {t : Table} (e : h.Endures P i) (label : String) (entropy : Entropy)
    (ht : s.body = i → t.conn.Throughout P) : (h.install label s t entropy).Endures P i := by
  have restored := e.restore label ht
  refine restored.mono ?_ ?_
  · rw [install_sheds.bodies]
  · rw [install_sheds.rest]
    exact fun _ hr => hr

theorem table (l : Content.Lasts P) (e : h.Endures P i) (label : String) (op : Op) :
    (h.onTable label op.run).2.Endures P i := by
  unfold onTable
  split
  case h_1      => exact e
  case h_2 s hs =>
    refine e.restore label fun hi => ?_
    have follows := (Op.history_leads op (h.assemble label s)).follows
    exact Connection.moves_throughout l follows.conn (e.throughout hs hi)

theorem close (e : h.Endures P i) (label : String) : (h.close label).2.Endures P i := by
  refine e.mono (by rw [close_disk]) fun r hr => ?_
  rw [close_seats] at hr
  exact (List.mem_filter.mp hr).left

theorem deleteFiles (e : h.Endures P i) (paths : List String) :
    (Host.deleteFiles paths h).2.Endures P i := by
  have loses := deleteFiles_loses paths h
  refine e.mono (by rw [loses.disk.bodies]) ?_
  rw [loses.rest]
  exact fun _ hr => hr

theorem logs (e : h.Endures P i) (l : Logs h h') : h'.Endures P i :=
  e.mono (by rw [l.disk]) (by rw [l.seats]; exact fun _ hr => hr)

theorem discard (e : h.Endures P i) (n : Naming) (name : String) :
    (h.discard n name).2.Endures P i := by
  cases hp : n.path name
  case error => simpa only [Host.discard, hp] using e
  case ok    => exact (e.deleteFiles _).logs (discard_logs hp)

theorem remove (e : h.Endures P i) (label : String) : (h.remove label).2.Endures P i := by
  cases hs : h.seat? label
  case none => simpa only [Host.remove, hs] using e
  case some => exact ((e.close label).deleteFiles _).logs (remove_logs hs)

theorem located (e : h.Endures P i) (l : Located n path h j h') : h'.Endures P i := by
  refine e.mono ?_ (by rw [l.seats]; exact fun _ hr => hr)
  obtain ⟨_, _, hb⟩ | ⟨_, _, hb⟩ := l.body <;> rw [hb]
  obtain ⟨_, hget, _⟩ := e.body
  exact List.getElem?_append_left (List.getElem?_eq_some_iff.mp hget).choose

theorem stopped (e : h.Endures P i) (stops : Stops n path h h') : h'.Endures P i := by
  obtain _ | ⟨located, _, _⟩ | ⟨_, arrives, _⟩ := stops
  case early  => exact e.mono (by rw [rooted_bodies]) fun _ hr => hr
  case barred => exact e.located located
  case unread => exact e.located arrives.toLocated

-- An opening of the store finds all tables there; of another one, it leaves the store alone.
theorem settle {store : Store} (v : Content.Invariant P) (e : h.Endures P i)
    (label path key : String)
    (o : StoreOptions) (hs : (h.body j).store? = .ok store)
    (hp : (h.peers label j).pending = false) :
    (h.settle label o (newSeat path key j)).2.Endures P i := by
  by_cases hj : j = i
  case pos =>
    subst hj
    obtain ⟨b, hb, hP⟩ := e.body
    obtain rfl : h.body j = b := by rw [Host.body, hb, Option.getD_some]
    have standard := v.standard (hP store hs)
    obtain ⟨s', t, hprep, hcontent, ht⟩ :=
      Table.prepare_of_standard (t := h.assemble label (newSeat path key j))
      o (newSeat path key j).inMemory h.entropy rfl
        (Body.eq_store_of_has hs (standard.has .init)) standard hp
    rw [settle_of_ok hprep]
    refine e.install label h.entropy fun _ => ?_
    rw [ht]
    refine ⟨fun s₁ hs₁ => ?_, fun content hc => by cases hc⟩
    cases hs₁
    exact hcontent ▸ hP store hs
  case neg =>
    have installed (t : Table) (entropy : Entropy) :
        (h.install label (newSeat path key j) t entropy).Endures P i :=
      e.install label entropy fun hi => absurd hi hj
    rcases hprep : (h.assemble label (newSeat path key j)).prepare o
      (newSeat path key j).inMemory h.entropy
      with ⟨x, t, entropy⟩
    cases x
    case ok    => rw [settle_of_ok hprep]; exact installed t entropy
    case error => rw [settle_of_error hprep]; exact ⟨(installed t entropy).body, e.held⟩

theorem openNamed (v : Content.Invariant P) (e : h.Endures P i) (label : String) (n : Naming)
    (o : StoreOptions) (name key : String) : (h.openNamed label n o name key).2.Endures P i := by
  cases hp : n.path name
  case error => simpa only [Host.openNamed, hp] using e
  case ok path =>
    obtain ⟨_, h', ho, stops⟩ | ⟨j, h₂, a, ⟨store, hs⟩, hpend, ho⟩ :=
      openNamed_cases (h := h) label o key hp
    case inl => rw [ho]; exact e.stopped stops
    case inr => rw [ho]; exact (e.located a.toLocated).settle v label path key o hs hpend

theorem run (v : Content.Invariant P) (e : h.Endures P i) (n : Naming) (q : Request) :
    (q.run n h).2.Endures P i := by
  cases q
  case «open» label o name key => exact (e.close label).openNamed v label n o name key
  case close label             => exact e.close label
  case remove label            => exact e.remove label
  case discard name            => exact e.discard n name
  case table label op          => exact e.table v.toLasts label op

theorem runAll (v : Content.Invariant P) (e : h.Endures P i) (n : Naming) (rs : List Request) :
    (Request.runAll n rs h).2.Endures P i := by
  induction rs generalizing h
  case nil            => exact e
  case cons q rs ih   => exact ih (e.run v n q)

end Endures

-- So it is from the making of the store on.
theorem open_endures (v : Content.Invariant P) (hp : n.path name = .ok path)
    (hf : Finds n path h.disk (.foreign [])) (hs : h.seats = [])
    (ho : (h.open label n o name key).1 = .ok ()) :
    ∃ s, (h.open label n o name key).2.seat? label = some s ∧
      (h.open label n o name key).2.Endures P s.body := by
  rw [open_of_no_seats hs] at ho ⊢
  obtain ⟨_, _, hfail, _⟩ | ⟨i, h₂, a, _, _, hsettle⟩ := openNamed_cases (h := h) label o key hp
  case inl => simp [hfail] at ho
  case inr =>
    have hblank : (h₂.assemble label (newSeat path key i)).conn.body.store? = .ok .blank := by
      rw [show (h₂.assemble label (newSeat path key i)).conn.body = .foreign [] from a.body_eq hf]
      rfl
    rw [hsettle] at ho ⊢
    have hr := (settle_eq label o (newSeat path key i) h₂).left.symm.trans ho
    have hidle := Table.prepare_idle o _ h₂.entropy rfl hblank hr |>.left
    obtain ⟨_, hfail, _⟩ | ⟨s', hbody, _, ⟨_, hfail, _⟩ | ⟨_, opens⟩⟩ :=
      Table.prepare_content o (newSeat path key i).inMemory h₂.entropy rfl hblank
    case inl     => cases hr.symm.trans hfail
    case inr.inl => cases hr.symm.trans hfail
    case inr.inr =>
      rw [(settle_eq label o (newSeat path key i) h₂).right.right hr]
      refine ⟨_, install_seat?, ⟨_, install_bodies (a.lt hf), fun store hstore => ?_⟩,
        fun r hr _ content hc => ?_⟩
      · rw [hbody] at hstore
        cases hstore
        exact v.opens opens
      · rw [install_seats, a.seats, hs] at hr
        cases List.mem_singleton.mp hr
        rw [hidle] at hc
        cases hc

-- A table is open on its file, and no other table is open.
structure Occupies (n : Naming) (path label : String) (s : Seat) (h : Host) : Prop
    extends Ready n path label s h where
  only : h.seats = [(label, s)]

namespace Occupies

theorem sees (a : h.Occupies n path label s) : ∃ c, (h.assemble label s).conn.Sees c := by
  obtain ⟨c, hc⟩ := a.standard.content?_eq_some
  exact ⟨c, hc, .inr (peers_pending_eq_false.mpr a.free)⟩

theorem work (a : h.Occupies n path label s) (op : Op) :
    ∃ s', s'.body = s.body ∧ ((Request.table label op).run n h).2.Occupies n path label s' := by
  obtain ⟨h', phase, cursor, hrun, served, ready, _⟩ := a.toReady.step op
  rw [hrun]
  refine ⟨{ s with phase, cursor }, rfl, ready, ?_⟩
  rw [served.seats, a.only]
  simp [assign]

theorem reopen (a : h.Occupies n path label s) (o : StoreOptions) (key : String)
    (hp : n.path name = .ok path) (hm : path ≠ memoryPath) :
    ∃ s', s'.body = s.body ∧
      (Request.runAll n (Turn.requests label name (.reopen o key)) h).2.Occupies n path
        label s' := by
  obtain ⟨store, hb, standard⟩ := a.standard.body
  obtain ⟨c, hh⟩ := a.holds
  have holds : (h.close label).2.Holds n path s.body store.content :=
    Holds.congr close_disk ⟨hh.reaches, hh.journal, hh.log, hh.file, store, hb, rfl⟩
  have empty : (h.close label).2.seats = [] := by
    rw [close_seats, a.only]
    simp
  have free : ((h.close label).2.peers label s.body).pending = false :=
    peers_pending_eq_false.mpr (by simp [empty])
  obtain ⟨h', ho, hh', hseats, _⟩ := openNamed_of_standard label o key hp hm holds standard free
  have hrun : (Request.runAll n (Turn.requests label name (.reopen o key)) h).2 = h' := by
    simp only [Turn.requests, Request.runAll, Request.run, open_of_no_seats empty, ho]
  have only : h'.seats = [(label, newSeat path key s.body)] := by
    rw [hseats, empty]
    rfl
  obtain ⟨store', hb', hstore'⟩ := hh'.body
  have hconn : (h'.assemble label (newSeat path key s.body)).conn.body = .store store' := hb'
  rw [hrun]
  refine ⟨newSeat path key s.body, rfl, ⟨?_, ⟨_, hh'⟩, ?_, ?_⟩, only⟩
  · rw [seat?, only, List.lookup_cons, beq_self_eq_true]
  · simp [only]
  · refine ⟨⟨store', hconn, hstore' ▸ standard⟩, fun content hc => ?_⟩
    rw [Connection.content?_of_not_inTransaction rfl] at hc
    obtain ⟨s₁, hs₁, rfl⟩ := Connection.committed?_eq_some.mp hc
    cases (congrArg Body.store? hconn).symm.trans hs₁
    exact hstore' ▸ standard

theorem turns (a : h.Occupies n path label s) (hp : n.path name = .ok path) (hm : path ≠ memoryPath)
    (turns : List Turn) :
    ∃ s', s'.body = s.body ∧
      (Request.runAll n (turns.flatMap (Turn.requests label name)) h).2.Occupies n path
        label s' := by
  induction turns generalizing h s
  case nil => exact ⟨s, rfl, a⟩
  case cons turn turns ih =>
    obtain ⟨s₁, hs₁, a₁⟩ : ∃ s', s'.body = s.body ∧
        (Request.runAll n (turn.requests label name) h).2.Occupies n path label s' := by
      cases turn
      case work op      => exact a.work op
      case reopen o key => exact a.reopen o key hp hm
    obtain ⟨s₂, hs₂, a₂⟩ := ih a₁
    simp only [List.flatMap_cons, Request.runAll_append]
    exact ⟨s₂, hs₂.trans hs₁, a₂⟩

end Occupies

theorem open_occupies (hp : n.path name = .ok path) (hm : path ≠ memoryPath)
    (hf : Finds n path h.disk (.foreign [])) (hs : h.seats = [])
    (ho : (h.open label n o name key).1 = .ok ()) :
    ∃ s, (h.open label n o name key).2.Occupies n path label s := by
  obtain ⟨s, so⟩ := open_sole hp hm hf hs ho
  exact ⟨s, so.toReady, so.only⟩

-- What such a table sees has the property, whatever is done with it and however often it is
-- reopened.
theorem open_turns (v : Content.Invariant P) (hp : n.path name = .ok path) (hm : path ≠ memoryPath)
    (hf : Finds n path h.disk (.foreign [])) (hs : h.seats = [])
    (ho : (h.open label n o name key).1 = .ok ()) (turns : List Turn) :
    ∃ t c, (Request.runAll n (turns.flatMap (Turn.requests label name))
        (h.open label n o name key).2).2.table? label = some t ∧ t.conn.Sees c ∧ P c := by
  obtain ⟨s, hseat, e⟩ := open_endures v hp hf hs ho
  obtain ⟨s₀, a⟩ := open_occupies hp hm hf hs ho
  cases hseat.symm.trans a.seat
  obtain ⟨s', hbody, a'⟩ := a.turns hp hm turns
  obtain ⟨c, hc⟩ := a'.sees
  have e' := e.runAll v n (turns.flatMap (Turn.requests label name))
  exact ⟨_, c, table?_of_seat? a'.seat, hc, e'.seen a'.seat hbody hc⟩

end Host
end AccountCache
