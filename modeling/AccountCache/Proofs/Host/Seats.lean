import AccountCache.Host.Request
import AccountCache.Proofs.Disk.Directories
import AccountCache.Proofs.History

open Relation (ReflTransGen)

namespace AccountCache

theorem lookup_assign (name k : String) (a : α) (l : List (String × α)) :
    (Host.assign name a l).lookup k = if k = name then some a else l.lookup k := by
  unfold Host.assign
  rw [List.lookup_cons, lookup_filter_ne]
  by_cases h : k = name
  · simp [h]
  · simp [h, beq_false_of_ne h]

theorem filter_assign (name : String) (a : α) (l : List (String × α)) :
    (Host.assign name a l).filter (·.1 ≠ name) = l.filter (·.1 ≠ name) := by
  simp [Host.assign]

theorem mem_of_mem_assign {name : String} {a : α} {r : String × α} {l : List (String × α)}
    (h : r ∈ Host.assign name a l) : r = (name, a) ∨ r ∈ l :=
  (List.mem_cons.mp h).imp_right fun hr => (List.mem_filter.mp hr).left

namespace Host

variable {h h' : Host} {label key : String} {s : Seat} {t : Table}

def table? (h : Host) (label : String) : Option Table := (h.seat? label).map (h.assemble label)

-- The content that the next statement on the table works on.
def content? (h : Host) (label : String) : Option Content := (h.table? label).bind (·.conn.content?)

-- The table under the label has the content, and no transaction is open.
def AtRest (label : String) (c : Content) (h : Host) : Prop :=
  ∃ t, h.table? label = some t ∧ t.inTransaction = false ∧ t.conn.content? = some c

theorem mem_of_seat? (hs : h.seat? label = some s) : (label, s) ∈ h.seats := by
  have ⟨_, _, he, _⟩ := List.lookup_eq_some_iff.mp hs
  simp [he]

theorem table?_of_seat? (hs : h.seat? label = some s) :
    h.table? label = some (h.assemble label s) := by
  rw [table?, hs, Option.map_some]

theorem eq_assemble_of_table? (ht : h.table? label = some t) :
    ∃ s, h.seat? label = some s ∧ t = h.assemble label s := by
  obtain ⟨s, hs, rfl⟩ := Option.map_eq_some_iff.mp ht
  exact ⟨s, hs, rfl⟩

-- A body that is not there counts as blank.
theorem lt_of_not_isBlank {i : Nat} (hb : (h.body i).isBlank = false) :
    i < h.disk.bodies.length := by
  apply Nat.lt_of_not_le
  intro hn
  have : h.body i = .foreign [] := by simp [body, List.getElem?_eq_none hn]
  simp [this, Body.isBlank] at hb

theorem peers_congr (hs : h'.seats.filter (·.1 ≠ label) = h.seats.filter (·.1 ≠ label)) (i : Nat) :
    h'.peers label i = h.peers label i := by
  have swap (h : Host) : (h.seatsOn i).filter (fun s => s.1 ≠ label) =
      (h.seats.filter (·.1 ≠ label)).filter (fun s => s.2.body = i) := by
    simp only [seatsOn, List.filter_filter, Bool.and_comm]
  rw [peers, peers, swap, swap, hs]

theorem keyholder_congr (hk : h'.keyring = h.keyring) (k : String) :
    h'.keyholder k = h.keyholder k := by
  rw [keyholder, keyholder, hk]

theorem keyholder_assign {holder : Keyholder} (hk : h'.keyring = assign key holder h.keyring) :
    h'.keyholder key = holder ∧ ∀ k, k ≠ key → h'.keyholder k = h.keyholder k := by
  refine ⟨by simp [keyholder, hk, lookup_assign], fun k hne => ?_⟩
  simp [keyholder, hk, lookup_assign, hne]

theorem fits_congr {d d' : Disk Body} (par : Disk.Parallel d d') {path : String} :
    Fits path d' ↔ Fits path d := by
  rw [Fits, Fits, ne_eq, ne_eq, par.find?_eq_directory]

theorem obstacle_congr (hl : h'.disk.links = h.disk.links) (path : String) (i : Nat) :
    h'.obstacle path i = h.obstacle path i := by
  simp only [obstacle, Disk.file?_congr hl, fits_congr (.of_links hl)]

theorem obstacle_of_file {path : String} {i : Nat} (hf : h.disk.file? path = some i) :
    h.obstacle path i = if Fits path h.disk then none else some .cannotOpen := by
  simp [obstacle, hf]

-- Only the table under the label has been worked on, and has left the seat.
structure Served (label : String) (s : Seat) (h h' : Host) : Prop where
  links : h'.disk.links = h.disk.links
  seats : h'.seats = assign label s h.seats

theorem Served.seat? (served : Served label s h h') : h'.seat? label = some s := by
  rw [Host.seat?, served.seats, lookup_assign, if_pos rfl]

theorem Served.others (served : Served label s h h') :
    h'.seats.filter (·.1 ≠ label) = h.seats.filter (·.1 ≠ label) := by
  rw [served.seats, filter_assign]

theorem table?_restore (hb : s.body < h.disk.bodies.length) (hp : t.path = s.path)
    (hc : t.conn.peers = h.peers label s.body)
    (ho : t.conn.obstacle = if s.inMemory then none else h.obstacle s.path s.body) :
    (h.restore label s t).table? label = some { t with log := [] } := by
  have hs : (h.restore label s t).seat? label =
      some { s with phase := t.conn.phase, cursor := t.cursor } := by
    simp [seat?, restore, lookup_assign]
  rw [table?_of_seat? hs, assemble]
  have hbody : (h.restore label s t).body s.body = t.conn.body := by
    simp [body, restore, Disk.setBody, hb]
  have hpeers : (h.restore label s t).peers label s.body = t.conn.peers :=
    (peers_congr (filter_assign ..) _).trans hc.symm
  have hlinks : (h.restore label s t).disk.links = h.disk.links := rfl
  have hobstacle : (h.restore label s t).obstacle s.path s.body = h.obstacle s.path s.body :=
    obstacle_congr hlinks ..
  have hkey : (h.restore label s t).keyholder s.key = t.key := (keyholder_assign rfl).left
  simp only [hbody, hpeers, hobstacle, hkey, hp, ← ho]

theorem run_table (op : Op) (n : Naming) (hs : h.seat? label = some s)
    (hb : (h.assemble label s).conn.body.isBlank = false) :
    ∃ h' phase cursor, (Request.table label op).run n h =
    (some (op.run (h.assemble label s)).1, h') ∧
      Served label { s with phase, cursor } h h' ∧
      h'.table? label = some { (op.run (h.assemble label s)).2 with log := [] } := by
  have f := (Op.history_leads op (h.assemble label s)).follows
  have ⟨hp, ho⟩ := Connection.moves_frame f.conn
  refine ⟨h.restore label s (op.run (h.assemble label s)).2, _, _, ?_, ⟨rfl, rfl⟩, ?_⟩
  · simp only [Request.run, onTable, hs]
  · exact table?_restore (lt_of_not_isBlank hb) f.path hp ho

theorem close_of_seat? (hs : h.seat? label = some s) : (h.close label).1 = some () := by
  simp [close, hs]

theorem close_seats : (h.close label).2.seats = h.seats.filter (·.1 ≠ label) := by
  unfold close
  split
  case h_1 hs =>
    refine (List.filter_eq_self.mpr fun r hr => ?_).symm
    have hne : label ≠ r.1 := by simpa using List.lookup_eq_none_iff.mp hs r hr
    exact decide_eq_true hne.symm
  case h_2 => rfl

theorem close_of_no_seats (hs : h.seats = []) (label : String) : h.close label = (none, h) := by
  rw [Host.close, seat?, hs]
  rfl

theorem open_of_no_seats (hs : h.seats = []) (label : String) (n : Naming) (o : StoreOptions)
    (name key : String) : h.open label n o name key = h.openNamed label n o name key := by
  rw [Host.open, close_of_no_seats hs]

theorem close_disk : (h.close label).2.disk = h.disk := by
  unfold close
  split <;> rfl

theorem close_keyring : (h.close label).2.keyring = h.keyring := by
  unfold close
  split <;> rfl

theorem close_keyholder (k : String) : (h.close label).2.keyholder k = h.keyholder k :=
  keyholder_congr close_keyring k

theorem close_entropy : (h.close label).2.entropy = h.entropy := by
  unfold close
  split <;> rfl

end Host
end AccountCache
