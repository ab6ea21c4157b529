import AccountCache.Proofs.Host.Aligned
import AccountCache.Proofs.Isolation.Paths

namespace AccountCache

-- One store, with the labels of its tables and its master keys.
structure Tenant where
  name : String
  labels : String → Bool
  keys : String → Bool

namespace Tenant

def files (P : Tenant) (n : Naming) : List String := Host.storeFiles (n.file P.name)

end Tenant

variable {P : Tenant} {n : Naming} {r : Place} {T T₀ T₁ : Nat → Nat → Prop}

-- Which bodies of the first disk stand for which of the second.
structure Disk.Twins {β : Type} (T : Nat → Nat → Prop) (d d' : Disk β) : Prop where
  unique : ∀ i j i' j', T i j → T i' j' → (i = i' ↔ j = j')
  bound  : ∀ i j, T i j → i < d.bodies.length
  body   : ∀ i j, T i j → d'.bodies[j]? = d.bodies[i]?

structure Seat.Twin (P : Tenant) (n : Naming) (T : Nat → Nat → Prop) (s s' : Seat) : Prop where
  rest : s' = { s with body := s'.body }
  body : T s.body s'.body
  path : s.path = n.file P.name
  file : s.inMemory = false
  key  : P.keys s.key = true

theorem Link.Twin.mono {l l' : Option Link} (t : Link.Twin T l l') (sub : ∀ i j, T i j → T₁ i j) :
    Link.Twin T₁ l l' := by
  cases t
  case none      => exact .none
  case directory => exact .directory
  case file hij  => exact .file (sub _ _ hij)

theorem Seat.Twin.mono {s s' : Seat} (t : Seat.Twin P n T s s') (sub : ∀ i j, T i j → T₁ i j) :
    Seat.Twin P n T₁ s s' :=
  { t with body := sub _ _ t.body }

namespace Disk.Twins

variable {β : Type} {d d' d₁ d₁' : Disk β} {i j : Nat}

theorem congr (t : Twins T d d') (hd : d₁.bodies = d.bodies) (hd' : d₁'.bodies = d'.bodies) :
    Twins T d₁ d₁' where
  unique := t.unique
  bound i j h := hd ▸ t.bound i j h
  body i j h  := hd ▸ hd' ▸ t.body i j h

theorem lt (t : Twins T d d') (hij : T i j) : j < d'.bodies.length := by
  have hb := t.body i j hij
  rw [List.getElem?_eq_getElem (t.bound i j hij)] at hb
  exact (List.getElem?_eq_some_iff.mp hb).choose

theorem setBody (t : Twins T d d') (hij : T i j) (b : β) :
    Twins T (d.setBody i b) (d'.setBody j b) where
  unique := t.unique
  bound i' j' h := by
    rw [Disk.setBody, List.length_set]
    exact t.bound i' j' h
  body i' j' h := by
    simp only [Disk.setBody, List.getElem?_set, t.unique i j i' j' hij h, t.body i' j' h,
      t.bound i j hij, t.lt hij]

-- The last bodies of longer disks stand for each other.
theorem append (t : Twins T d d') {b : β} (hd : d₁.bodies = d.bodies ++ [b])
    (hd' : d₁'.bodies = d'.bodies ++ [b]) :
    Twins (fun i j => T i j ∨ i = d.bodies.length ∧ j = d'.bodies.length) d₁ d₁' where
  unique := by
    rintro i j i' j' (h₁ | ⟨rfl, rfl⟩) (h₂ | ⟨rfl, rfl⟩)
    · exact t.unique i j i' j' h₁ h₂
    · have := t.bound i j h₁
      have := t.lt h₁
      omega
    · have := t.bound i' j' h₂
      have := t.lt h₂
      omega
    · exact ⟨fun _ => rfl, fun _ => rfl⟩
  bound := by
    rintro i j (h | ⟨rfl, rfl⟩) <;> rw [hd, List.length_append]
    · exact Nat.lt_add_right _ (t.bound i j h)
    · exact Nat.lt_succ_self _
  body := by
    rintro i j (h | ⟨rfl, rfl⟩) <;> rw [hd, hd']
    · rw [List.getElem?_append_left (t.bound i j h), List.getElem?_append_left (t.lt h)]
      exact t.body i j h
    · rw [List.getElem?_concat_length, List.getElem?_concat_length]

end Disk.Twins

namespace Host

theorem filter_assign_of_pos {p : String → Bool} {name : String} (hp : p name = true) (a : α)
    (l : List (String × α)) :
    (assign name a l).filter (fun x => p x.1) = assign name a (l.filter fun x => p x.1) := by
  simp only [assign, List.filter_cons, hp, if_true, List.filter_filter, Bool.and_comm]

theorem filter_without_of_neg {p : String → Bool} {name : String} (hp : p name = false)
    (l : List (String × α)) :
    (l.filter fun x => decide (x.1 ≠ name)).filter (fun x => p x.1) = l.filter fun x => p x.1 := by
  rw [List.filter_filter]
  refine List.filter_congr fun x _ => ?_
  by_cases hx : x.1 = name
  · simp [hx, hp]
  · simp [hx]

theorem filter_assign_of_neg {p : String → Bool} {name : String} (hp : p name = false) (a : α)
    (l : List (String × α)) :
    (assign name a l).filter (fun x => p x.1) = l.filter fun x => p x.1 := by
  rw [← filter_without_of_neg hp l]
  simp only [assign, List.filter_cons, hp, Bool.false_eq_true, if_false]

theorem lookup_filter_of_pos {p : String → Bool} {name : String} (hp : p name = true)
    (l : List (String × α)) :
    (l.filter fun x => p x.1).lookup name = l.lookup name := by
  induction l
  case nil => rfl
  case cons x l ih =>
    rw [List.filter_cons, List.lookup_cons]
    split
    case isTrue => rw [List.lookup_cons, ih]
    case isFalse hx =>
      have hne : (name == x.1) = false := beq_false_of_ne fun h => hx (h ▸ hp)
      rw [hne, ih]

theorem keyholder_with (h : Host) (disk : Disk Body) (key k : String) (holder : Keyholder) :
    ({ h with disk, keyring := assign key holder h.keyring } : Host).keyholder k =
      if k = key then holder else h.keyholder k := by
  split
  case isTrue hk  => rw [hk]; exact (keyholder_assign rfl).left
  case isFalse hk => exact (keyholder_assign rfl).right k hk

-- To the tenant, the second host is the same as the first one, where there may be nothing else.
structure Lodges (P : Tenant) (n : Naming) (r : Place) (T : Nat → Nat → Prop)
    (g h : Host) : Prop where
  flat      : n.Flat
  accepted  : Naming.accepts P.name = true
  own       : g.disk.Folder n.root r
  shared    : h.disk.Folder n.root r
  twins     : Disk.Twins T g.disk h.disk
  files     : ∀ path ∈ P.files n, Link.Twin T (g.disk.find? path) (h.disk.find? path)
  journal   : h.disk.find? (Host.journalPath (n.file P.name)) = some .directory ↔
    g.disk.find? (Host.journalPath (n.file P.name)) = some .directory
  seats     : Aligned (Seat.Twin P n T) g.seats (h.seats.filter fun s => P.labels s.1)
  others    : ∀ s ∈ h.seats, P.labels s.1 = false → s.2.body < h.disk.bodies.length ∧
    ∀ i, ¬T i s.2.body
  keyholder : ∀ k, P.keys k = true → h.keyholder k = g.keyholder k

-- What is not the tenant's is as it was.
structure Confined (P : Tenant) (n : Naming) (T : Nat → Nat → Prop) (h h' : Host) : Prop where
  find      : ∀ path, Place.InFolder n.root path → path ∉ P.files n →
    h'.disk.find? path = h.disk.find? path
  parallel  : Disk.Parallel h.disk h'.disk
  seats     : h'.seats.filter (fun s => !P.labels s.1) = h.seats.filter (fun s => !P.labels s.1)
  keyholder : ∀ k, P.keys k = false → h'.keyholder k = h.keyholder k
  length    : h.disk.bodies.length ≤ h'.disk.bodies.length
  body      : ∀ j, j < h.disk.bodies.length → (∀ i, ¬T i j) → h'.disk.bodies[j]? = h.disk.bodies[j]?

theorem Confined.refl {h : Host} : Confined P n T h h :=
  ⟨fun _ _ _ => rfl, fun _ => .rfl, rfl, fun _ _ => rfl, Nat.le_refl _, fun _ _ _ => rfl⟩

-- The tenant is served, and what was not its own at the start is spared.
structure Attends (P : Tenant) (n : Naming) (r : Place) (T₀ : Nat → Nat → Prop) (h₀ : Host)
    (T : Nat → Nat → Prop) (g h : Host) : Prop extends Lodges P n r T g h where
  confined : Confined P n T₀ h₀ h
  grown    : ∀ i j, T i j → T₀ i j ∨ h₀.disk.bodies.length ≤ j

theorem Lodges.attends {g h : Host} (l : Lodges P n r T g h) : Attends P n r T h T g h :=
  ⟨l, .refl, fun _ _ => .inl⟩

namespace Attends

variable {g h h₀ : Host} {s s' : Seat} {label path : String} {i j : Nat}

theorem inFolder (a : Attends P n r T₀ h₀ T g h) (hp : path ∈ P.files n) :
    Place.InFolder n.root path :=
  a.flat.inFolder a.accepted hp

theorem place (a : Attends P n r T₀ h₀ T g h) (hp : path ∈ P.files n) :
    h.disk.place path = g.disk.place path :=
  a.own.place_congr a.shared (a.inFolder hp)

theorem body (a : Attends P n r T₀ h₀ T g h) (hij : T i j) : h.body j = g.body i := by
  rw [Host.body, a.twins.body i j hij, Host.body]

theorem relink (a : Attends P n r T₀ h₀ T g h) {d d' : Disk Body} {l l' : Option Link}
    (hp : path ∈ P.files n)
    (new : Disk.Relinks n.root path l g.disk d) (new' : Disk.Relinks n.root path l' h.disk d')
    (link : Link.Twin T₁ l l') (sub : ∀ i j, T i j → T₁ i j)
    (grown : ∀ i j, T₁ i j → T i j ∨ h.disk.bodies.length ≤ j) (twins : Disk.Twins T₁ d d')
    (length : h.disk.bodies.length ≤ d'.bodies.length)
    (body : ∀ j, j < h.disk.bodies.length → d'.bodies[j]? = h.disk.bodies[j]?) :
    Attends P n r T₀ h₀ T₁ { g with disk := d } { h with disk := d' } where
  flat      := a.flat
  accepted  := a.accepted
  own       := a.own.parallel new.parallel
  shared    := a.shared.parallel new'.parallel
  twins     := twins
  files x hx := by
    by_cases hne : x = path
    case pos => rw [hne, new.found, new'.found]; exact link
    case neg =>
      rw [new.others x (a.inFolder hx) hne, new'.others x (a.inFolder hx) hne]
      exact (a.files x hx).mono sub
  journal   := new'.parallel.find?_eq_directory.symm.trans <|
    a.journal.trans new.parallel.find?_eq_directory
  seats     := a.seats.imp fun _ _ hs => ⟨hs.name, hs.value.mono sub⟩
  others s hs hl := by
    obtain ⟨hb, hn⟩ := a.others s hs hl
    refine ⟨Nat.lt_of_lt_of_le hb length, fun i hi => ?_⟩
    obtain hi | hi := grown i _ hi
    · exact hn i hi
    · omega
  keyholder := a.keyholder
  confined  := { a.confined with
    find x hx hn := (new'.others x hx fun h => hn (h ▸ hp)).trans (a.confined.find x hx hn)
    parallel := a.confined.parallel.trans new'.parallel
    length := Nat.le_trans a.confined.length length
    body k hk hn := (body k (Nat.lt_of_lt_of_le hk a.confined.length)).trans
      (a.confined.body k hk hn) }
  grown i j hij := by
    have := a.confined.length
    obtain h | h := grown i j hij
    · exact a.grown i j h
    · exact .inr (by omega)

theorem unlinked (a : Attends P n r T₀ h₀ T g h) {d d' : Disk Body} (hp : path ∈ P.files n)
    (hd : g.disk.unlink path = .ok d) (hd' : h.disk.unlink path = .ok d') :
    Attends P n r T₀ h₀ T { g with disk := d } { h with disk := d' } := by
  have hb := (Disk.unlink_spec hd).left.bodies
  have hb' := (Disk.unlink_spec hd').left.bodies
  exact a.relink hp (Disk.unlink_relinks a.own (a.inFolder hp) hd)
    (Disk.unlink_relinks a.shared (a.inFolder hp) hd')
    .none (fun _ _ h => h) (fun _ _ => .inl) (a.twins.congr hb hb') (Nat.le_of_eq (by rw [hb']))
      fun _ _ => by rw [hb']

-- A new file is made on both hosts, and its bodies stand for each other.
theorem added (a : Attends P n r T₀ h₀ T g h) {d d' : Disk Body} {b : Body} (hp : path ∈ P.files n)
    (hd : Disk.Adds n.root path b g.disk d) (hd' : Disk.Adds n.root path b h.disk d') :
    Attends P n r T₀ h₀ (fun i j => T i j ∨ i = g.disk.bodies.length ∧ j = h.disk.bodies.length)
      { g with disk := d } { h with disk := d' } := by
  refine a.relink hp hd.toRelinks hd'.toRelinks (.file (.inr ⟨rfl, rfl⟩)) (fun _ _ => .inl) ?_
    (a.twins.append hd.bodies hd'.bodies) ?_ fun k hk => ?_
  · rintro i j (h₁ | ⟨_, rfl⟩)
    · exact .inl h₁
    · exact .inr (Nat.le_refl _)
  · rw [hd'.bodies, List.length_append]
    exact Nat.le_add_right ..
  · rw [hd'.bodies, List.getElem?_append_left hk]

-- Work on a body of the tenant's, with one of its keys.
theorem worked (a : Attends P n r T₀ h₀ T g h) (hij : T i j) (b : Body) {key : String}
    (hk : P.keys key = true) (holder : Keyholder) :
    Attends P n r T₀ h₀ T
      { g with disk := g.disk.setBody i b, keyring := assign key holder g.keyring }
      { h with disk := h.disk.setBody j b, keyring := assign key holder h.keyring } where
  flat      := a.flat
  accepted  := a.accepted
  own       := a.own.congr rfl
  shared    := a.shared.congr rfl
  twins     := a.twins.setBody hij b
  files x hx := by
    have own := Disk.find?_setBody i b x (d := g.disk)
    have shared := Disk.find?_setBody j b x (d := h.disk)
    simp only [own, shared]
    exact a.files x hx
  journal   := by
    simp only [Disk.find?_setBody]
    exact a.journal
  seats     := a.seats
  others s hs hl := by
    rw [Disk.setBody, List.length_set]
    exact a.others s hs hl
  keyholder k hk' := by
    by_cases hne : k = key
    case pos =>
      rw [hne, keyholder_with, keyholder_with, if_pos rfl, if_pos rfl]
    case neg =>
      rw [keyholder_with, keyholder_with, if_neg hne, if_neg hne]
      exact a.keyholder k hk'
  confined  := { a.confined with
    find x hx hn := (Disk.find?_setBody ..).trans (a.confined.find x hx hn)
    parallel := a.confined.parallel.trans (.of_links rfl)
    keyholder k hk' := by
      have hne : k ≠ key := by
        rintro rfl
        cases hk.symm.trans hk'
      rw [keyholder_with, if_neg hne]
      exact a.confined.keyholder k hk'
    length := by
      rw [Disk.setBody, List.length_set]
      exact a.confined.length
    body k hk hn := by
      -- The body is the tenant's from the start, or has been made for it since.
      have hne : j ≠ k := by
        rintro rfl
        obtain h | h := a.grown i j hij
        · exact hn i h
        · omega
      rw [Disk.setBody, List.getElem?_set_ne hne]
      exact a.confined.body k hk hn }
  grown     := a.grown

theorem seated (a : Attends P n r T₀ h₀ T g h) (hl : P.labels label = true)
    (seat : Seat.Twin P n T s s') :
    Attends P n r T₀ h₀ T { g with seats := assign label s g.seats }
    { h with seats := assign label s' h.seats } := by
  have keeps : ∀ x ∈ assign label s' h.seats, P.labels x.1 = false → x ∈ h.seats := by
    intro x hx hx'
    obtain rfl | hx := List.mem_cons.mp hx
    · cases hl.symm.trans hx'
    · exact (List.mem_filter.mp hx).left
  exact { a with
    seats  := filter_assign_of_pos hl s' h.seats ▸ a.seats.assign label seat
    others := fun x hx hx' => a.others x (keeps x hx hx') hx'
    confined := { a.confined with
      seats := (filter_assign_of_neg (p := fun l => !P.labels l) (by simp [hl]) s' h.seats).trans
        a.confined.seats } }

theorem lookup (a : Attends P n r T₀ h₀ T g h) (hl : P.labels label = true) :
    (g.seat? label = none ∧ h.seat? label = none) ∨
    ∃ s s', g.seat? label = some s ∧ h.seat? label = some s' ∧ Seat.Twin P n T s s' := by
  unfold seat?
  rw [← lookup_filter_of_pos hl h.seats]
  exact a.seats.lookup label

theorem congr {g' h' : Host} (a : Attends P n r T₀ h₀ T g h) (hd : g'.disk = g.disk)
    (hs : g'.seats = g.seats)
    (hk : g'.keyring = g.keyring) (hd' : h'.disk = h.disk) (hs' : h'.seats = h.seats)
    (hk' : h'.keyring = h.keyring) :
    Attends P n r T₀ h₀ T g' h' := by
  obtain ⟨_, _, _, _, _⟩ := g'
  obtain ⟨_, _, _, _, _⟩ := h'
  subst hd hs hk hd' hs' hk'
  exact { a with confined := { a.confined with } }

theorem note (a : Attends P n r T₀ h₀ T g h) {level level' : Log.Level} {text text' : String} :
    Attends P n r T₀ h₀ T (g.note level text) (h.note level' text') :=
  a.congr rfl rfl rfl rfl rfl rfl

theorem close (a : Attends P n r T₀ h₀ T g h) (hl : P.labels label = true) :
    (h.close label).1 = (g.close label).1 ∧
    Attends P n r T₀ h₀ T (g.close label).2 (h.close label).2 := by
  have ours : (h.seats.filter fun x => decide (x.1 ≠ label)).filter (fun x => P.labels x.1) =
      (h.seats.filter fun x => P.labels x.1).filter fun x => decide (x.1 ≠ label) := by
    simp only [List.filter_filter, Bool.and_comm]
  have theirs : (h.seats.filter fun x => decide (x.1 ≠ label)).filter (fun x => !P.labels x.1) =
      h.seats.filter fun x => !P.labels x.1 :=
    filter_without_of_neg (p := fun l => !P.labels l) (by simp [hl]) h.seats
  constructor
  · unfold Host.close
    obtain ⟨hs, hs'⟩ | ⟨_, _, hs, hs', _⟩ := a.lookup hl <;> rw [hs, hs']
  · refine congr (g := { g with seats := g.seats.filter (·.1 ≠ label) })
      (h := { h with seats := h.seats.filter (·.1 ≠ label) }) ?_ close_disk close_seats
        close_keyring close_disk
      close_seats close_keyring
    exact { a with
      seats  := ours ▸ a.seats.without label
      others := fun x hx => a.others x (List.mem_filter.mp hx).left
      confined := { a.confined with seats := theirs.trans a.confined.seats } }

end Attends

end Host

end AccountCache
