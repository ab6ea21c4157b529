import AccountCache.Proofs.Drawing
import AccountCache.Proofs.Host.Deleting
import AccountCache.Proofs.Isolation.Lodging
import AccountCache.Proofs.Lockstep

namespace AccountCache

variable {P : Tenant} {n : Naming} {r : Place} {T T₀ T₁ : Nat → Nat → Prop}

namespace Host

variable {g h h₀ : Host} {s s' : Seat} {label path key : String} {i j : Nat} {o : StoreOptions}

namespace Attends

theorem file?_iff (a : Attends P n r T₀ h₀ T g h) (hp : path ∈ P.files n) (hij : T i j) :
    h.disk.file? path = some j ↔ g.disk.file? path = some i := by
  have link := a.files path hp
  unfold Disk.file?
  generalize g.disk.find? path = l at link
  generalize h.disk.find? path = l' at link
  cases link
  case none            => simp
  case directory       => simp
  case file i' j' hij' => simp [a.twins.unique i' j' i j hij' hij]

theorem peers (a : Attends P n r T₀ h₀ T g h) (hij : T i j) (label : String) :
    h.peers label j = g.peers label i := by
  -- The seats of others are on other bodies.
  have ours : h.seatsOn j = (h.seats.filter fun x => P.labels x.1).filter
      fun x => decide (x.2.body = j) := by
    rw [seatsOn, List.filter_filter]
    refine List.filter_congr fun x hx => ?_
    cases hl : P.labels x.1
    case true  => simp
    case false =>
      have := (a.others x hx hl).right i
      simp only [Bool.and_false, decide_eq_false_iff_not]
      rintro rfl
      exact this hij
  have hon : Aligned (Seat.Twin P n T) (g.seatsOn i) (h.seatsOn j) := by
    rw [ours]
    refine a.seats.filter fun x x' hx => decide_eq_decide.mpr ?_
    exact a.twins.unique _ _ _ _ hx.value.body hij
  refine Peers.ofPhases_congr (List.forall₂_map_left_iff.mpr (List.forall₂_map_right_iff.mpr ?_))
  refine (hon.without label).imp fun _ _ hx => ?_
  rw [hx.value.rest]
  exact ⟨rfl, rfl, rfl⟩

theorem obstacle (a : Attends P n r T₀ h₀ T g h) (hij : T i j) :
    h.obstacle (n.file P.name) j = g.obstacle (n.file P.name) i := by
  have hfits : Fits (n.file P.name) h.disk ↔ Fits (n.file P.name) g.disk := by
    rw [Fits, Fits, ne_eq, ne_eq, a.journal]
  simp only [Host.obstacle, ne_eq, a.file?_iff (List.mem_cons_self ..) hij, hfits]

theorem assemble (a : Attends P n r T₀ h₀ T g h) (label : String) (seat : Seat.Twin P n T s s') :
    h.assemble label s' = g.assemble label s := by
  rw [seat.rest]
  simp only [Host.assemble, a.body seat.body, a.peers seat.body, seat.path, a.obstacle seat.body,
    a.keyholder _ seat.key]

theorem restore (a : Attends P n r T₀ h₀ T g h) (hl : P.labels label = true)
    (seat : Seat.Twin P n T s s') (t : Table) :
    Attends P n r T₀ h₀ T (g.restore label s t) (h.restore label s' t) := by
  have seat' : Seat.Twin P n T { s with phase := t.conn.phase, cursor := t.cursor }
      { s' with phase := t.conn.phase, cursor := t.cursor } :=
    ⟨by rw [seat.rest], seat.body, seat.path, seat.file, seat.key⟩
  have hkey : s'.key = s.key := by rw [seat.rest]
  have worked := (a.worked seat.body t.conn.body seat.key t.key).seated hl seat'
  refine worked.congr rfl rfl rfl rfl rfl ?_
  rw [Host.restore, hkey]

theorem dropFile (a : Attends P n r T₀ h₀ T g h) (hp : path ∈ P.files n) :
    Attends P n r T₀ h₀ T (g.dropFile path) (h.dropFile path) := by
  unfold Host.dropFile
  obtain ⟨_, hd, hd'⟩ | ⟨_, _, hd, hd'⟩ := Disk.unlink_twin (a.place hp) (a.files path hp)
    <;> rw [hd, hd']
  case inl => exact a
  case inr => exact a.unlinked hp hd hd'

theorem deleteFiles (paths : List String) (hp : ∀ path ∈ paths, path ∈ P.files n)
    (a : Attends P n r T₀ h₀ T g h) :
    Concur (Attends P n r T₀ h₀ T) (deleteFiles paths g) (Host.deleteFiles paths h) := by
  induction paths generalizing g h
  case nil => exact ⟨rfl, a⟩
  case cons path paths ih =>
    obtain ⟨hpath, hpaths⟩ := List.forall_mem_cons.mp hp
    unfold Host.deleteFiles
    obtain ⟨f, hd, hd'⟩ | ⟨d, d', hd, hd'⟩ := Disk.unlink_twin (a.place hpath) (a.files path hpath)
      <;> rw [hd, hd']
    case inr => exact ih hpaths (a.unlinked hpath hd hd')
    case inl =>
      cases f
      case notFound => exact ih hpaths a
      all_goals exact ⟨rfl, a⟩

theorem file_mem : n.file P.name ∈ P.files n := List.mem_cons_self ..

theorem wal_mem : walPath (n.file P.name) ∈ P.files n :=
  List.mem_cons_of_mem _ (List.mem_cons_self ..)

theorem shm_mem : shmPath (n.file P.name) ∈ P.files n :=
  List.mem_cons_of_mem _ (List.mem_cons_of_mem _ (List.mem_cons_self ..))

theorem locate (a : Attends P n r T₀ h₀ T g h) :
    (∃ f, locate (n.file P.name) g = .error f ∧ Host.locate (n.file P.name) h = .error f) ∨
    ∃ T₁ i j d d', Host.locate (n.file P.name) g = .ok (i, { g with disk := d }) ∧
      Host.locate (n.file P.name) h = .ok (j, { h with disk := d' }) ∧ T₁ i j ∧
      Attends P n r T₀ h₀ T₁ { g with disk := d } { h with disk := d' } := by
  have hm := a.flat.file_ne_memoryPath a.accepted
  unfold Host.locate
  rw [if_neg hm, if_neg hm]
  obtain ⟨f, hd, hd'⟩ | ⟨i, j, hij, hd, hd'⟩ | ⟨d, d', hd, adds, hd', adds'⟩ :=
    Disk.openFile_twin a.own a.shared (a.inFolder file_mem) (a.files _ file_mem) (.foreign [])
      <;> rw [hd, hd']
  case inl     => exact .inl ⟨_, rfl, rfl⟩
  case inr.inl => exact .inr ⟨T, i, j, g.disk, h.disk, rfl, rfl, hij, a⟩
  case inr.inr =>
    exact .inr ⟨_, _, _, d, d', rfl, rfl, .inr ⟨rfl, rfl⟩, a.added file_mem adds adds'⟩

theorem isOccupied (a : Attends P n r T₀ h₀ T g h) (hp : path ∈ P.files n) :
    h.isOccupied path = g.isOccupied path := by
  have link := a.files path hp
  unfold Host.isOccupied
  generalize g.disk.find? path = l at link
  generalize h.disk.find? path = l' at link
  cases link
  case none      => rfl
  case directory => rfl
  case file hij  => simp only [a.body hij]

theorem find?_directory (a : Attends P n r T₀ h₀ T g h) (hp : path ∈ P.files n) :
    h.disk.find? path = some .directory ↔ g.disk.find? path = some .directory := by
  have link := a.files path hp
  generalize g.disk.find? path = l at link ⊢
  generalize h.disk.find? path = l' at link ⊢
  cases link <;> simp

theorem dropFile_entropy (path : String) (h : Host) : (h.dropFile path).entropy = h.entropy := by
  unfold Host.dropFile
  split <;> rfl

theorem adoptLog (a : Attends P n r T₀ h₀ T g h) (hij : T i j) :
    (∃ f, adoptLog (n.file P.name) i g = .error f ∧ Host.adoptLog (n.file P.name) j h = .error f) ∨
    ∃ g₁ h₁, Host.adoptLog (n.file P.name) i g = .ok g₁ ∧
    Host.adoptLog (n.file P.name) j h = .ok h₁ ∧
      Attends P n r T₀ h₀ T g₁ h₁ ∧ g₁.entropy = g.entropy ∧ h₁.entropy = h.entropy := by
  have hjam : h.isJammed (n.file P.name) j = g.isJammed (n.file P.name) i := by
    simp only [isJammed, a.body hij, a.journal]
  have hm := a.flat.file_ne_memoryPath a.accepted
  simp only [Host.adoptLog, if_neg hm, hjam, a.isOccupied wal_mem,
    a.find?_directory wal_mem, a.body hij]
  cases g.isJammed (n.file P.name) i <;> cases g.isOccupied (walPath (n.file P.name))
  case true.false | true.true => exact .inl ⟨_, rfl, rfl⟩
  case false.false            => exact .inr ⟨g, h, rfl, rfl, a, rfl, rfl⟩
  case false.true             =>
    simp only [Bool.false_eq_true, Bool.not_true, if_false]
    split
    case isTrue  => exact .inl ⟨_, rfl, rfl⟩
    case isFalse =>
      have dropped := a.dropFile wal_mem
      split
      · exact .inr ⟨_, _, rfl, rfl, dropped, dropFile_entropy .., dropFile_entropy ..⟩
      · exact .inr ⟨_, _, rfl, rfl, dropped.dropFile shm_mem,
          (dropFile_entropy ..).trans (dropFile_entropy ..),
          (dropFile_entropy ..).trans (dropFile_entropy ..)⟩

theorem keepsLog (a : Attends P n r T₀ h₀ T g h) (seat : Seat.Twin P n T s s') :
    h.keepsLog s' = g.keepsLog s := by
  have hp : s.path ∈ P.files n := by
    rw [seat.path]
    exact file_mem
  rw [seat.rest]
  simp only [Host.keepsLog, a.body seat.body, a.file?_iff hp seat.body]

theorem claimSidecars (a : Attends P n r T₀ h₀ T g h) (seat : Seat.Twin P n T s s') :
    Attends P n r T₀ h₀ T (claimSidecars s g) (Host.claimSidecars s' h) := by
  have hp : s'.path = s.path := by rw [seat.rest]
  unfold Host.claimSidecars
  rw [a.keepsLog seat, hp, seat.path]
  split
  · exact (a.dropFile wal_mem).dropFile shm_mem
  · exact a

theorem newSeat (a : Attends P n r T₀ h₀ T g h) (hij : T i j) (hk : P.keys key = true) :
    Seat.Twin P n T (newSeat (n.file P.name) key i) (Host.newSeat (n.file P.name) key j) where
  rest := rfl
  body := hij
  path := rfl
  file := decide_eq_false (a.flat.file_ne_memoryPath a.accepted)
  key  := hk

end Attends

-- A request is answered alike on both hosts, and as many random bytes are drawn on both.
structure Alike {α : Type} (P : Tenant) (n : Naming) (r : Place) (T₀ : Nat → Nat → Prop)
    (h₀ g h : Host) (x y : α × Host) : Prop where
  result  : x.1 = y.1
  attends : ∃ T, Attends P n r T₀ h₀ T x.2 y.2
  entropy : ∃ k, y.2.entropy = h.entropy.skip k ∧ x.2.entropy = g.entropy.skip k

-- The random bytes that the request draws on the second host come next on the first one.
def Foresees (g h h' : Host) : Prop :=
  h.entropy.Agrees (h'.entropy.drawn - h.entropy.drawn) g.entropy

theorem Alike.congr {α : Type} {g g' h h' h₀ : Host} {x y : α × Host}
    (al : Alike P n r T₀ h₀ g' h' x y)
    (hg : g'.entropy = g.entropy) (hh : h'.entropy = h.entropy) : Alike P n r T₀ h₀ g h x y :=
  ⟨al.result, al.attends, hh ▸ hg ▸ al.entropy⟩

namespace Attends

theorem alike {x y : α × Host} (a : Attends P n r T₀ h₀ T x.2 y.2) (result : x.1 = y.1)
    (hg : x.2.entropy = g.entropy) (hh : y.2.entropy = h.entropy) : Alike P n r T₀ h₀ g h x y :=
  ⟨result, ⟨T, a⟩, 0, hh, hg⟩

theorem install (a : Attends P n r T₀ h₀ T g h) (hl : P.labels label = true)
    (seat : Seat.Twin P n T s s') (t : Table)
    (e e' : Entropy) : Attends P n r T₀ h₀ T (g.install label s t e) (h.install label s' t e') := by
  have restored : Attends P n r T₀ h₀ T { g.restore label s t with entropy := e }
      { h.restore label s' t with entropy := e' } :=
    (a.restore hl seat t).congr rfl rfl rfl rfl rfl rfl
  exact restored.claimSidecars seat

-- The seat is given up, and what was done to the file and with the key stays.
theorem giveUp (a : Attends P n r T₀ h₀ T g h) (seat : Seat.Twin P n T s s') (t : Table)
    (e e' : Entropy) :
    Attends P n r T₀ h₀ T { g.install label s t e with seats := g.seats }
      { h.install label s' t e' with seats := h.seats } := by
  have hkey : s'.key = s.key := by rw [seat.rest]
  let g₁ : Host := { g with disk := g.disk.setBody s.body t.conn.body,
                            keyring := assign s.key t.key g.keyring }
  let h₁ : Host := { h with disk := h.disk.setBody s'.body t.conn.body,
                            keyring := assign s.key t.key h.keyring }
  have worked : Attends P n r T₀ h₀ T g₁ h₁ := a.worked seat.body t.conn.body seat.key t.key
  refine (worked.claimSidecars seat).congr (claimSidecars_disk s rfl)
    (claimSidecars_seats s g₁).symm ?_
    (claimSidecars_disk s' rfl) (claimSidecars_seats s' h₁).symm ?_
  · rw [(claimSidecars_sheds s g₁).rest]
    exact install_keyring
  · rw [(claimSidecars_sheds s' h₁).rest]
    exact install_keyring.trans (congrArg (assign · t.key h.keyring) hkey)

theorem settle (a : Attends P n r T₀ h₀ T g h) (hl : P.labels label = true) (hk : P.keys key = true)
    (hij : T i j) (hf : Foresees g h (h.settle label o (Host.newSeat (n.file P.name) key j)).2) :
    Alike P n r T₀ h₀ g h (g.settle label o (Host.newSeat (n.file P.name) key i))
      (h.settle label o (Host.newSeat (n.file P.name) key j)) := by
  have seat := a.newSeat hij hk
  have same := a.assemble label seat
  generalize hs : Host.newSeat (n.file P.name) key i = s at *
  generalize hs' : Host.newSeat (n.file P.name) key j = s' at *
  have hfile : s'.inMemory = s.inMemory := by rw [seat.rest]
  obtain ⟨k, he, agree⟩ := Table.prepare_draws o s.inMemory (g.assemble label s) h.entropy
  rcases hp : (g.assemble label s).prepare o s.inMemory h.entropy with ⟨x, t, e⟩
  simp only [hp] at he agree
  subst he
  rw [← same, ← hfile] at hp
  cases x
  case ok =>
    rw [settle_of_ok hp] at hf ⊢
    rw [Foresees, install_entropy, Entropy.skip_drawn] at hf
    rw [settle_of_ok (agree _ hf)]
    exact ⟨rfl, ⟨T, a.install hl seat t _ _⟩, k, install_entropy, install_entropy⟩
  case error f =>
    rw [settle_of_error hp] at hf ⊢
    simp only [Foresees, install_entropy, Entropy.skip_drawn] at hf
    rw [settle_of_error (agree _ hf)]
    exact ⟨rfl, ⟨T, a.giveUp seat t _ _⟩, k, install_entropy, install_entropy⟩

-- Where the root is there, nothing is made but the file.
theorem rooted_of_folder (hd : h.disk.Folder n.root r) :
    h.disk.makePath n.root = (.ok (), h.rooted n) ∧ { h with disk := h.rooted n } = h := by
  have hm := Disk.makePath_of_reaches ⟨r, hd.follow, hd.link⟩
  have hr : h.rooted n = h.disk := congrArg Prod.snd hm
  exact ⟨by rw [hm, hr], by rw [hr]⟩

theorem openNamed_of_unlocated {f : OpenFault} {name : String} (hd : h.disk.Folder n.root r)
    (hp : n.path name = .ok path) (hl : Host.locate path h = .error f) :
    h.openNamed label n o name key = (.error (.opening f), h) := by
  obtain ⟨hm, hr⟩ := rooted_of_folder hd
  rw [Host.openNamed, hp]
  simp only [hm, hr, hl]

theorem openNamed_of_unadopted {f : QueryFault} {name : String} (hd : h.disk.Folder n.root r)
    (hp : n.path name = .ok path) (hl : Host.locate path h = .ok (i, h₀))
    (ha : Host.adoptLog path i h₀ = .error f) :
    h.openNamed label n o name key = (.error (.opening (.unreadable path f)), h₀) := by
  obtain ⟨hm, hr⟩ := rooted_of_folder hd
  rw [Host.openNamed, hp]
  simp only [hm, hr, hl, ha]

theorem openNamed (a : Attends P n r T₀ h₀ T g h) (hl : P.labels label = true)
    (hk : P.keys key = true) (hf : Foresees g h (h.openNamed label n o P.name key).2) :
    Alike P n r T₀ h₀ g h (g.openNamed label n o P.name key)
      (h.openNamed label n o P.name key) := by
  have hp := Naming.path_eq_file (n := n) a.accepted
  obtain ⟨hm, hr⟩ := rooted_of_folder a.own
  obtain ⟨hm', hr'⟩ := rooted_of_folder a.shared
  obtain ⟨f, hloc, hloc'⟩ | ⟨T₁, i, j, d, d', hloc, hloc', hij, a₁⟩ := a.locate
  case inl =>
    rw [openNamed_of_unlocated a.own hp hloc, openNamed_of_unlocated a.shared hp hloc']
    exact a.alike rfl rfl rfl
  case inr =>
    obtain ⟨f, ha, ha'⟩ | ⟨g₂, h₂, ha, ha', a₂, he, he'⟩ := a₁.adoptLog hij
    case inl =>
      rw [openNamed_of_unadopted a.own hp hloc ha, openNamed_of_unadopted a.shared hp hloc' ha']
      exact a₁.alike rfl rfl rfl
    case inr =>
      have same := a₂.assemble label (a₂.newSeat hij hk)
      rw [openNamed_of_adopted label o key hp hm (hr.symm ▸ hloc) ha]
      rw [openNamed_of_adopted label o key hp hm' (hr'.symm ▸ hloc') ha', same] at hf ⊢
      cases hlook : ((g₂.assemble label (Host.newSeat (n.file P.name) key i)).conn.read fun _ =>
        Except.ok ()).1
      case error f =>
        simp only
        exact a₂.alike rfl he he'
      case ok =>
        simp only [hlook] at hf ⊢
        rw [Foresees, ← he, ← he'] at hf
        exact (a₂.settle hl hk hij hf).congr he he'

theorem «open» (a : Attends P n r T₀ h₀ T g h) (hl : P.labels label = true) (hk : P.keys key = true)
    (hf : Foresees g h (h.open label n o P.name key).2) :
    Alike P n r T₀ h₀ g h (g.open label n o P.name key) (h.open label n o P.name key) := by
  have he : (g.close label).2.entropy = g.entropy := close_entropy
  have he' : (h.close label).2.entropy = h.entropy := close_entropy
  rw [Foresees, ← he, ← he'] at hf
  exact ((a.close hl).right.openNamed hl hk hf).congr he he'

theorem deleteFiles_entropy (paths : List String) (h : Host) :
    (Host.deleteFiles paths h).2.entropy = h.entropy := by
  rw [(deleteFiles_loses paths h).rest]

theorem discard (a : Attends P n r T₀ h₀ T g h) :
    Alike P n r T₀ h₀ g h (g.discard n P.name) (h.discard n P.name) := by
  have hp := Naming.path_eq_file (n := n) a.accepted
  have he := deleteFiles_entropy (storeFiles (n.file P.name)) g
  have he' := deleteFiles_entropy (storeFiles (n.file P.name)) h
  obtain ⟨x, g₁, h₁, hd, hd', a₁⟩ := (a.deleteFiles (storeFiles (n.file P.name)) fun _ h => h).eq
  rw [hd] at he
  rw [hd'] at he'
  simp only [Host.discard, hp, hd, hd']
  cases x
  case error => exact a₁.alike rfl he he'
  case ok    => exact a₁.note.alike rfl he he'

theorem remove (a : Attends P n r T₀ h₀ T g h) (hl : P.labels label = true) :
    Alike P n r T₀ h₀ g h (g.remove label) (h.remove label) := by
  obtain ⟨hs, hs'⟩ | ⟨s, s', hs, hs', seat⟩ := a.lookup hl
  case inl =>
    simp only [Host.remove, hs, hs']
    exact a.alike rfl rfl rfl
  case inr =>
    have hpath : s'.path = n.file P.name := by rw [seat.rest, ← seat.path]
    have he := (deleteFiles_entropy (storeFiles (n.file P.name)) (g.close label).2).trans
      close_entropy
    have he' := (deleteFiles_entropy (storeFiles (n.file P.name)) (h.close label).2).trans
      close_entropy
    obtain ⟨x, g₁, h₁, hd, hd', a₁⟩ :=
      ((a.close hl).right.deleteFiles (storeFiles (n.file P.name)) fun _ h => h).eq
    rw [hd] at he
    rw [hd'] at he'
    simp only [Host.remove, hs, hs', seat.path, hpath, hd, hd']
    cases x
    case error => exact a₁.alike rfl he he'
    case ok    => exact a₁.note.alike rfl he he'

theorem onTable (a : Attends P n r T₀ h₀ T g h) (hl : P.labels label = true) {α : Type}
    (f : Table → α × Table) :
    Alike P n r T₀ h₀ g h (g.onTable label f) (h.onTable label f) := by
  unfold Host.onTable
  obtain ⟨hs, hs'⟩ | ⟨s, s', hs, hs', seat⟩ := a.lookup hl <;> rw [hs, hs']
  case inl => exact a.alike rfl rfl rfl
  case inr =>
    simp only [a.assemble label seat]
    exact (a.restore hl seat _).alike rfl rfl rfl

end Attends

end Host

def Tenant.asks (P : Tenant) : Request → Bool
  | .open label _ name key => P.labels label && name == P.name && P.keys key
  | .close label           => P.labels label
  | .remove label          => P.labels label
  | .discard name          => name == P.name
  | .table label _         => P.labels label

namespace Host.Alike

variable {α β : Type} {g h h₀ : Host} {x y : α × Host}

theorem map (al : Alike P n r T₀ h₀ g h x y) (f : α → β) :
    Alike P n r T₀ h₀ g h (f x.1, x.2) (f y.1, y.2) :=
  ⟨congrArg f al.result, al.attends, al.entropy⟩

end Host.Alike

theorem Request.run_alike {g h h₀ : Host} {q : Request} (a : Host.Attends P n r T₀ h₀ T g h)
    (hq : P.asks q = true)
    (hf : Host.Foresees g h (q.run n h).2) :
    Host.Alike P n r T₀ h₀ g h (q.run n g) (q.run n h) := by
  cases q <;> simp only [Tenant.asks, Bool.and_eq_true, beq_iff_eq] at hq
  case «open» label o name key =>
    obtain ⟨⟨hl, rfl⟩, hk⟩ := hq
    exact (a.open hl hk hf).map Request.done
  case close label =>
    obtain ⟨result, closed⟩ := a.close hq
    have same := closed.alike result.symm Host.close_entropy Host.close_entropy
    exact same.map (Option.map fun _ => Except.ok Reply.done)
  case remove label => exact (a.remove hq).map (Option.bind · Request.done)
  case discard name =>
    subst hq
    exact a.discard.map Request.done
  case table label op => exact a.onTable hq op.run

end AccountCache
