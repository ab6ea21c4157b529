import AccountCache.Proofs.Disk.Files
import AccountCache.Proofs.Host.Seats

namespace AccountCache

namespace Host

variable {h h' : Host} {label path : String} {i : Nat} {s : Seat} {t : Table} {n : Naming}

-- The disk with the directory of the stores, as far as it can be made.
def rooted (n : Naming) (h : Host) : Disk Body := (h.disk.makePath n.root).2

theorem rooted_bodies : (h.rooted n).bodies = h.disk.bodies :=
  Disk.makePath_paved n.root h.disk |>.bodies

theorem rooted_file? (hf : h.disk.file? path = some i) : (h.rooted n).file? path = some i :=
  Disk.makePath_paved n.root h.disk |>.within.file? hf

-- The two hosts differ on disk alone, and there by files beside the path.
structure Sheds (path : String) (h h' : Host) : Prop where
  rest     : h' = { h with disk := h'.disk }
  bodies   : h'.disk.bodies = h.disk.bodies
  parallel : Disk.Parallel h.disk h'.disk
  file     : ∀ i, h.disk.file? path = some i → h'.disk.file? path = some i
  links    : ∀ p j, h'.disk.link? p = some (.file j) → h.disk.link? p = some (.file j)

namespace Sheds

protected theorem refl : Sheds path h h where
  rest     := rfl
  bodies   := rfl
  parallel := fun _ => .rfl
  file     := fun _ hf => hf
  links    := fun _ _ hl => hl

protected theorem trans (s₁ : Sheds path h₁ h₂) (s₂ : Sheds path h₂ h₃) : Sheds path h₁ h₃ where
  rest     := by rw [s₂.rest, s₁.rest]
  bodies   := s₂.bodies.trans s₁.bodies
  parallel := s₁.parallel.trans s₂.parallel
  file i hf := s₂.file i (s₁.file i hf)
  links p j hl := s₁.links p j (s₂.links p j hl)

end Sheds

theorem dropFile_sheds {x : String} (hx : '/' ∉ x.toList) (hl : 2 < x.length) :
    Sheds path h (h.dropFile (path ++ x)) := by
  unfold dropFile
  split
  case h_1 d hd =>
    have ⟨loses, _, p, hp, hq⟩ := Disk.unlink_spec hd
    refine ⟨rfl, loses.bodies, loses.parallel, fun i hf => ?_, fun q j => loses.within q _⟩
    obtain ⟨q, hpl, hlq⟩ := Disk.file?_eq_some.mp hf
    have hne : q ≠ p := by
      rintro rfl
      exact Disk.place_suffix_ne hx hl hpl hlq hp
    have hpl' := Disk.place_mono (fun r => (loses.parallel r).mp) hpl
    exact Disk.file?_eq_some.mpr ⟨q, hpl', (hq q hne).trans hlq⟩
  case h_2 => exact .refl

theorem dropWal_sheds : Sheds path h (h.dropFile (walPath path)) :=
  dropFile_sheds (by decide) (by decide)

theorem dropShm_sheds : Sheds path h (h.dropFile (shmPath path)) :=
  dropFile_sheds (by decide) (by decide)

theorem claimSidecars_sheds (s : Seat) (h : Host) : Sheds s.path h (claimSidecars s h) := by
  unfold claimSidecars
  split
  · exact dropWal_sheds.trans dropShm_sheds
  · exact .refl

theorem claimSidecars_seats (s : Seat) (h : Host) : (claimSidecars s h).seats = h.seats := by
  rw [(claimSidecars_sheds s h).rest]

theorem dropFile_disk (path : String) (h : Host) :
    (h.dropFile path).disk = (h.disk.unlink path).toOption.getD h.disk := by
  unfold dropFile
  cases h.disk.unlink path <;> rfl

theorem claimSidecars_disk (s : Seat) (hd : h'.disk = h.disk) :
    (claimSidecars s h').disk = (claimSidecars s h).disk := by
  have hkeeps : h'.keepsLog s = h.keepsLog s := by simp only [keepsLog, body, hd]
  unfold claimSidecars
  rw [hkeeps]
  split
  · simp only [dropFile_disk, hd]
  · exact hd

-- The file of the store has been found, or made where there was none.
structure Located (n : Naming) (path : String) (h : Host) (i : Nat) (h' : Host) : Prop where
  rest     : h' = { h with disk := h'.disk }
  reaches  : h'.disk.Reaches (Place.steps n.root)
  parallel : Disk.Parallel (h.rooted n) h'.disk
  file     : path ≠ memoryPath → h'.disk.file? path = some i
  body     : (path ≠ memoryPath ∧ (h.rooted n).file? path = some i ∧
      h'.disk.bodies = h.disk.bodies) ∨
    ((path ≠ memoryPath → (h.rooted n).file? path = none) ∧ i = h.disk.bodies.length ∧
      h'.disk.bodies = h.disk.bodies ++ [.foreign []])
  links    : ∀ p j, h'.disk.link? p = some (.file j) →
    (h.rooted n).link? p = some (.file j) ∨ j = i

namespace Located

theorem seats (l : Located n path h i h') : h'.seats = h.seats := by rw [l.rest]

theorem entropy (l : Located n path h i h') : h'.entropy = h.entropy := by rw [l.rest]

theorem keyholder (l : Located n path h i h') : ∀ k, h'.keyholder k = h.keyholder k :=
  keyholder_congr (by rw [l.rest])

end Located

-- A directory lies in the place of the log, or in that of the journal of a file that is not empty.
def Barred (path : String) (i : Nat) (h : Host) : Prop :=
  h.isJammed path i = true ∨ h.disk.find? (walPath path) = some .directory

-- Moreover, what lies in the places of its journal and its log is out of the way.
structure Arrives (n : Naming) (path : String) (h : Host) (i : Nat) (h' : Host) : Prop
    extends Located n path h i h' where
  free : path ≠ memoryPath → ¬h'.Barred path i

-- An opening that has not come to the content of a store.
inductive Stops (n : Naming) (path : String) (h : Host) : Host → Prop
  | early : Stops n path h { h with disk := h.rooted n }
  | barred {i : Nat} {h' : Host} : Located n path h i h' → path ≠ memoryPath → h'.Barred path i →
    Stops n path h h'
  | unread {i : Nat} {h' : Host} (label : String) : Arrives n path h i h' →
    ((∃ f, (h'.body i).store? = .error f) ∨ (h'.peers label i).pending = true) → Stops n path h h'

def newSeat (path key : String) (i : Nat) : Seat where
  path     := path
  body     := i
  inMemory := path = memoryPath
  key      := key
  phase    := .idle
  cursor   := .idle

theorem newSeat_obstacle (label key : String) (hm : path ≠ memoryPath)
    (hf : h.disk.file? path = some i) : (h.assemble label (newSeat path key i)).conn.obstacle =
      if Fits path h.disk then none else some .cannotOpen := by
  simp only [assemble, newSeat, hm, decide_false, Bool.false_eq_true, if_false, obstacle_of_file hf]

def install (label : String) (s : Seat) (t : Table) (entropy : Entropy) (h : Host) : Host :=
  claimSidecars s { h.restore label s t with entropy }

-- Makes the connection of a new seat ready; a seat that is not ready is given up.
def settle (label : String) (o : StoreOptions) (s : Seat) (h : Host) : Except Failure Unit × Host :=
  match (h.assemble label s).prepare o s.inMemory h.entropy with
  | (.ok _, t, entropy)    => (.ok (), h.install label s t entropy)
  | (.error f, t, entropy) => (.error f, { h.install label s t entropy with seats := h.seats })

theorem settle_eq (label : String) (o : StoreOptions) (s : Seat) (h : Host) :
    let r := (h.assemble label s).prepare o s.inMemory h.entropy
    (h.settle label o s).1 = r.1 ∧
      (h.settle label o s).2.disk = (h.install label s r.2.1 r.2.2).disk ∧
      (r.1 = .ok () → (h.settle label o s).2 = h.install label s r.2.1 r.2.2) := by
  intro r
  unfold settle
  cases hr : (h.assemble label s).prepare o s.inMemory h.entropy
  case mk result te =>
    simp only [r, hr]
    cases result
    case ok    => exact ⟨rfl, rfl, fun _ => rfl⟩
    case error => exact ⟨rfl, rfl, fun h => by cases h⟩

theorem settle_of_ok {o : StoreOptions} {e : Entropy}
    (hp : (h.assemble label s).prepare o s.inMemory h.entropy = (.ok (), t, e)) :
    h.settle label o s = (.ok (), h.install label s t e) := by
  rw [settle, hp]

theorem settle_of_error {o : StoreOptions} {e : Entropy} {f : Failure}
    (hp : (h.assemble label s).prepare o s.inMemory h.entropy = (.error f, t, e)) :
    h.settle label o s = (.error f, { h.install label s t e with seats := h.seats }) := by
  rw [settle, hp]

-- A seat that is not ready leaves its traces on disk and on the key.
section Install

variable {e : Entropy}

theorem install_sheds :
    Sheds s.path { h.restore label s t with entropy := e } (h.install label s t e) :=
  claimSidecars_sheds ..

theorem install_seats : (h.install label s t e).seats =
    assign label { s with phase := t.conn.phase, cursor := t.cursor } h.seats := by
  rw [install_sheds.rest]
  rfl

theorem install_seat? : (h.install label s t e).seat? label =
    some { s with phase := t.conn.phase, cursor := t.cursor } := by
  simp [seat?, install_seats, lookup_assign]

theorem install_peers (i : Nat) : (h.install label s t e).peers label i = h.peers label i :=
  peers_congr (by rw [install_seats, filter_assign]) i

theorem install_idle (hi : t.conn.phase = .idle) : ((h.install label s t e).assemble label
    { s with phase := t.conn.phase, cursor := t.cursor }).conn.inTransaction = false := by
  simp [assemble, Connection.inTransaction, hi]

theorem install_keyring : (h.install label s t e).keyring = assign s.key t.key h.keyring := by
  rw [install_sheds.rest]
  rfl

theorem install_keyholder : (h.install label s t e).keyholder s.key = t.key ∧
    ∀ k, k ≠ s.key → (h.install label s t e).keyholder k = h.keyholder k :=
  keyholder_assign install_keyring

theorem install_keyholder_of_eq (ht : t.key = h.keyholder s.key) (k : String) :
    (h.install label s t e).keyholder k = h.keyholder k := by
  have kept : (h.install label s t e).keyholder s.key = t.key ∧ _ := install_keyholder
  by_cases hk : k = s.key
  case pos => rw [hk]; exact kept.left.trans ht
  case neg => exact kept.right k hk

theorem install_entropy : (h.install label s t e).entropy = e := by
  rw [install_sheds.rest]

theorem install_bodies (hb : s.body < h.disk.bodies.length) :
    (h.install label s t e).disk.bodies[s.body]? = some t.conn.body := by
  rw [install_sheds.bodies]
  simp [restore, Disk.setBody, hb]

theorem install_body (hb : s.body < h.disk.bodies.length) :
    (h.install label s t e).body s.body = t.conn.body := by
  rw [body, install_bodies hb, Option.getD_some]

theorem install_parallel : Disk.Parallel h.disk (h.install label s t e).disk := by
  have par : Disk.Parallel h.disk (h.restore label s t).disk := .of_links rfl
  exact par.trans (install_sheds (e := e)).parallel

theorem install_file (hf : h.disk.file? s.path = some i) :
    (h.install label s t e).disk.file? s.path = some i := by
  have w : Disk.Within h.disk (h.restore label s t).disk := .of_links rfl
  exact install_sheds.file i (w.file? hf)

end Install

theorem locate_located (hm : h.disk.makePath n.root = (.ok (), h.rooted n))
    (hl : locate path { h with disk := h.rooted n } = .ok (i, h')) : Located n path h i h' := by
  have hr := Disk.reaches_of_makePath hm
  unfold locate at hl
  split at hl
  case isTrue hp =>
    cases hl
    have par : Disk.Parallel (h.rooted n) ((h.rooted n).addBody (.foreign [])).2 := .of_links rfl
    refine ⟨rfl, hr.mono fun p => (par p).mp, par, (absurd hp ·), .inr ⟨(absurd hp ·), ?_, ?_⟩,
      fun p j hl => ?_⟩
    · exact congrArg List.length rooted_bodies
    · exact congrArg (· ++ [Body.foreign []]) rooted_bodies
    · exact .inl (by rwa [Disk.link?_congr rfl] at hl)
  case isFalse hp =>
    split at hl
    case h_1 d ho =>
      cases hl
      obtain ⟨hf, rfl⟩ | ⟨hf, hi, hf', hb, hw, par⟩ := Disk.openFile_cases ho
      case inl =>
        exact ⟨rfl, hr, fun _ => .rfl, fun _ => hf, .inl ⟨hp, hf, rooted_bodies⟩, fun _ _ => .inl⟩
      case inr =>
        refine ⟨rfl, hr.mono fun p => (par p).mp, par, fun _ => hf', .inr ⟨fun _ => hf, ?_, ?_⟩,
          fun p j hl => ?_⟩
        · exact hi.trans (congrArg List.length rooted_bodies)
        · exact hb.trans (congrArg (· ++ [Body.foreign []]) rooted_bodies)
        · rw [hi]
          exact Disk.openFile_links ho p hl
    case h_2 => cases hl

theorem Located.shed (l : Located n path h i h₁) (s : Sheds path h₁ h₂) :
    Located n path h i h₂ where
  rest     := by rw [s.rest, l.rest]
  reaches  := l.reaches.mono fun p => (s.parallel p).mp
  parallel := l.parallel.trans s.parallel
  file hp  := s.file i (l.file hp)
  body     := by rw [s.bodies]; exact l.body
  links p j hl := l.links p j (s.links p j hl)

theorem isJammed_eq_true : h.isJammed path i = true ↔
    (h.body i).isBlank = false ∧ h.disk.find? (journalPath path) = some .directory := by
  simp [isJammed]

-- What is in the way is a directory, and directories are not shed.
theorem Sheds.barred (s : Sheds path h₁ h₂) (hb : h₂.Barred path i) : h₁.Barred path i := by
  have hbody : h₂.body i = h₁.body i := by rw [body, s.bodies, body]
  obtain hj | hw := hb
  case inr => exact .inr (s.parallel.find?_eq_directory.mpr hw)
  case inl =>
    obtain ⟨hblank, hd⟩ := isJammed_eq_true.mp hj
    exact .inl (isJammed_eq_true.mpr ⟨hbody ▸ hblank, s.parallel.find?_eq_directory.mpr hd⟩)

theorem Located.arrive (l : Located n path h i h₁) (s : Sheds path h₁ h₂)
    (hf : path ≠ memoryPath → ¬h₁.Barred path i) : Arrives n path h i h₂ :=
  ⟨l.shed s, fun hp hb => hf hp (s.barred hb)⟩

theorem adoptLog_cases (l : Located n path h i h₁) :
    (∃ f, adoptLog path i h₁ = .error f ∧ path ≠ memoryPath ∧ h₁.Barred path i) ∨
    ∃ h₂, adoptLog path i h₁ = .ok h₂ ∧ Arrives n path h i h₂ := by
  unfold adoptLog
  split
  case isTrue hm => exact .inr ⟨h₁, rfl, l.arrive .refl fun hp => absurd hm hp⟩
  case isFalse hm =>
    split
    case isTrue hj  => exact .inl ⟨_, rfl, hm, .inl hj⟩
    case isFalse hj =>
      have clear (hw : h₁.disk.find? (walPath path) ≠ some .directory) : ¬h₁.Barred path i :=
        fun hb => hb.elim hj hw
      split
      case isTrue ho =>
        refine .inr ⟨h₁, rfl, l.arrive .refl fun _ => clear fun hd => ?_⟩
        simp [isOccupied, hd] at ho
      case isFalse =>
        split
        case isTrue hd  => exact .inl ⟨_, rfl, hm, .inr hd⟩
        case isFalse hd =>
          split
          · exact .inr ⟨_, rfl, l.arrive dropWal_sheds fun _ => clear hd⟩
          · exact .inr ⟨_, rfl, l.arrive (dropWal_sheds.trans dropShm_sheds) fun _ => clear hd⟩

-- The first look at a store fails for what is in the file or for a pending commit.
theorem look_cases (label : String) (s : Seat) (hs : s.phase = .idle) (h : Host) :
    (∃ f c, ((h.assemble label s).conn.read fun _ => .ok ()) = (.error f, c) ∧
      ((∃ f, (h.body s.body).store? = .error f) ∨ (h.peers label s.body).pending = true)) ∨
    ∃ c, ((h.assemble label s).conn.read fun _ => .ok ()) = (.ok (), c) ∧
      (∃ store, (h.body s.body).store? = .ok store) ∧ (h.peers label s.body).pending = false := by
  simp only [Connection.read, assemble, hs]
  cases hb : (h.body s.body).store?
  case error f => exact .inl ⟨f, _, rfl, .inl ⟨f, rfl⟩⟩
  case ok store =>
    cases hp : (h.peers label s.body).pending
    case true  => exact .inl ⟨_, _, rfl, .inr rfl⟩
    case false => exact .inr ⟨_, rfl, ⟨store, rfl⟩, rfl⟩

-- What an opening does once it has the file, and nothing is in the way.
theorem openNamed_of_adopted {name : String} (label : String) (o : StoreOptions) (key : String)
    (hp : n.path name = .ok path) (hm : h.disk.makePath n.root = (.ok (), h.rooted n))
    (hl : locate path { h with disk := h.rooted n } = .ok (i, h₁))
    (ha : adoptLog path i h₁ = .ok h₂) :
    h.openNamed label n o name key =
      match ((h₂.assemble label (newSeat path key i)).conn.read fun _ => .ok ()).1 with
      | .error f => (.error (.opening (.unreadable path f)), h₂)
      | .ok _ => h₂.settle label o (newSeat path key i) := by
  unfold openNamed
  simp only [hp, hm, hl, ha, settle, newSeat]
  cases (h₂.assemble label _).conn.read fun _ => .ok ()
  case mk r c =>
    cases r
    case error => rfl
    case ok =>
      cases Table.prepare o (decide (path = memoryPath)) h₂.entropy (h₂.assemble label _)
      case mk r te => cases r <;> rfl

theorem openNamed_of_located {name : String} (label : String) (o : StoreOptions) (key : String)
    (hp : n.path name = .ok path) (hm : h.disk.makePath n.root = (.ok (), h.rooted n))
    (hl : locate path { h with disk := h.rooted n } = .ok (i, h₁)) :
    (∃ f, h.openNamed label n o name key = (.error (.opening f), h₁) ∧ Located n path h i h₁ ∧
      path ≠ memoryPath ∧ h₁.Barred path i) ∨
    ∃ h₂, Arrives n path h i h₂ ∧
      ((∃ f, h.openNamed label n o name key = (.error (.opening f), h₂) ∧
        ((∃ f, (h₂.body i).store? = .error f) ∨ (h₂.peers label i).pending = true)) ∨
      ((∃ store, (h₂.body i).store? = .ok store) ∧ (h₂.peers label i).pending = false ∧
        h.openNamed label n o name key = h₂.settle label o (newSeat path key i))) := by
  have l := locate_located hm hl
  obtain ⟨f, ha, hn, hw⟩ | ⟨h₂, ha, arrives⟩ := adoptLog_cases l
  case inl => exact .inl ⟨.unreadable path f, by simp only [openNamed, hp, hm, hl, ha], l, hn, hw⟩
  case inr =>
    refine .inr ⟨h₂, arrives, ?_⟩
    rw [openNamed_of_adopted label o key hp hm hl ha]
    obtain ⟨f, c, hr, hw⟩ | ⟨c, hr, hs, hpend⟩ := look_cases label (newSeat path key i) rfl h₂
    case inl => exact .inl ⟨.unreadable path f, by rw [hr], hw⟩
    case inr => exact .inr ⟨hs, hpend, by rw [hr]⟩

theorem openNamed_cases {name : String} (label : String) (o : StoreOptions) (key : String)
    (hp : n.path name = .ok path) :
    (∃ f h', h.openNamed label n o name key = (.error (.opening f), h') ∧ Stops n path h h') ∨
    ∃ i h', Arrives n path h i h' ∧ (∃ store, (h'.body i).store? = .ok store) ∧
      (h'.peers label i).pending = false ∧
      h.openNamed label n o name key = h'.settle label o (newSeat path key i) := by
  have early (f : OpenFault) (ho : h.openNamed label n o name key =
      (.error (.opening f), { h with disk := h.rooted n })) :
      ∃ f h', h.openNamed label n o name key = (.error (.opening f), h') ∧ Stops n path h h' :=
    ⟨f, _, ho, .early⟩
  have hd : (h.disk.makePath n.root).2 = h.rooted n := rfl
  cases hm : h.disk.makePath n.root
  case mk r d =>
    rw [hm] at hd
    subst hd
    cases r
    case error f => exact .inl (early (.directory n.root f) (by simp only [openNamed, hp, hm]))
    case ok =>
      cases hl : locate path { h with disk := h.rooted n }
      case error f => exact .inl (early f (by simp only [openNamed, hp, hm, hl]))
      case ok r =>
        obtain ⟨i, h₁⟩ := r
        obtain ⟨f, ho, l, hn, hw⟩ | ⟨h₂, arrives, ⟨f, ho, hw⟩ | ⟨hs, hpend, ho⟩⟩ :=
          openNamed_of_located label o key hp hm hl
        case inl     => exact .inl ⟨f, h₁, ho, .barred l hn hw⟩
        case inr.inl => exact .inl ⟨f, h₂, ho, .unread label arrives hw⟩
        case inr.inr => exact .inr ⟨i, h₂, arrives, hs, hpend, ho⟩

-- Stores that lie in the top directory, for examples.
def plainNaming : Naming := ⟨"", "", ".db"⟩

theorem plainNaming_path : plainNaming.path "a" = .ok "a.db" :=
  Naming.path_eq_ok_iff.mpr ⟨by decide, by decide +kernel⟩

end Host
end AccountCache
