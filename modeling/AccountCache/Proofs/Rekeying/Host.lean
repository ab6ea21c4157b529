import AccountCache.Proofs.Disk.Images
import AccountCache.Proofs.Host.Aligned
import AccountCache.Proofs.Rekeying.Founded

namespace AccountCache

-- For the store in each body, which sealed keys stand for which.
variable {ρ : Nat → Rekeying}

-- The same seat, whatever master key it is for.
def Seat.Rekeyed (ρ : Nat → Rekeying) (s s' : Seat) : Prop :=
  s' = { s with key := s'.key, phase := s.phase.rekey (ρ s.body) }

namespace Host

variable {h h' : Host} {label path : String} {i : Nat} {s s' : Seat} {t t' : Table} {store : Store}
  {n : Naming} {o : StoreOptions}

structure Rekeyed (ρ : Nat → Rekeying) (h h' : Host) : Prop where
  disk    : Disk.Images (fun i => Body.rekey (ρ i)) h.disk h'.disk
  seats   : Aligned (Seat.Rekeyed ρ) h.seats h'.seats
  founded : h.Founded

namespace Rekeyed

theorem body (r : Rekeyed ρ h h') (i : Nat) : h'.body i = (h.body i).rekey (ρ i) := by
  rw [Host.body, r.disk.bodies, Host.body]
  cases h.disk.bodies[i]? <;> rfl

theorem isBlank (r : Rekeyed ρ h h') (i : Nat) : (h'.body i).isBlank = (h.body i).isBlank := by
  rw [r.body, Body.rekey_isBlank]

theorem peers (r : Rekeyed ρ h h') (label : String) (i : Nat) :
    h'.peers label i = h.peers label i := by
  have hon : Aligned (Seat.Rekeyed ρ) (h.seatsOn i) (h'.seatsOn i) :=
    r.seats.filter fun _ _ hr => by rw [hr.value]
  refine Peers.ofPhases_congr (List.forall₂_map_left_iff.mpr (List.forall₂_map_right_iff.mpr ?_))
  refine (hon.without label).imp fun _ _ hr => ?_
  rw [hr.value]
  exact ⟨Phase.rekey_isReading, Phase.rekey_isWriting, Phase.rekey_isPending⟩

theorem obstacle (r : Rekeyed ρ h h') (path : String) (i : Nat) :
    h'.obstacle path i = h.obstacle path i :=
  obstacle_congr r.disk.links path i

theorem assemble (r : Rekeyed ρ h h') (label : String) (hs : s.Rekeyed ρ s') :
    Table.Beside (Connection.Rekeyed (ρ s.body)) (h.assemble label s) (h'.assemble label s') := by
  rw [hs]
  refine ⟨?_, rfl, rfl⟩
  simp only [Connection.Rekeyed, Host.assemble, Connection.rekey, r.body, r.peers, r.obstacle]

theorem restore (r : Rekeyed ρ h h') (label : String) (hl : s.body < h.disk.bodies.length)
    (hs : s.Rekeyed ρ s')
    (b : Table.Beside (Connection.Rekeyed (ρ s.body)) t t')
    (ht : t.conn.Throughout Content.Founded) :
    Rekeyed ρ (h.restore label s t) (h'.restore label s' t') := by
  have hc := b.conn
  rw [hs]
  refine ⟨?_, r.seats.assign label ?_, r.founded.restore label hl ht⟩
  · rw [Host.restore, Host.restore, hc]
    exact r.disk.setBody ..
  · rw [Seat.Rekeyed, hc, b.cursor]
    rfl

-- Fewer links to the same bodies, and fewer seats.

theorem paved (r : Rekeyed ρ h h') (root : String) :
    (h'.disk.makePath root).1 = (h.disk.makePath root).1 ∧
      Rekeyed ρ { h with disk := (h.disk.makePath root).2 }
        { h' with disk := (h'.disk.makePath root).2 } := by
  obtain ⟨hresult, hdisk⟩ := r.disk.makePath root
  have p := Disk.makePath_paved root h.disk
  exact ⟨hresult, hdisk, r.seats, r.founded.shrink p.files p.bodies fun _ hr => hr⟩

theorem unlinked {d d' : Disk Body} (r : Rekeyed ρ h h') (hd : h.disk.unlink path = .ok d)
    (images : Disk.Images (fun i => Body.rekey (ρ i)) d d') :
    Rekeyed ρ { h with disk := d } { h' with disk := d' } := by
  have loses := (Disk.unlink_spec hd).left
  exact ⟨images, r.seats, r.founded.shrink (fun p i hp => loses.within p _ hp) loses.bodies
    fun _ hr => hr⟩

theorem dropFile (r : Rekeyed ρ h h') (path : String) :
    Rekeyed ρ (h.dropFile path) (h'.dropFile path) := by
  unfold Host.dropFile
  obtain ⟨_, hd, hd'⟩ | ⟨_, _, hd, hd', images⟩ := r.disk.unlink path <;> rw [hd, hd']
  case inl => exact r
  case inr => exact r.unlinked hd images

theorem close (r : Rekeyed ρ h h') (label : String) :
    (h'.close label).1 = (h.close label).1 ∧ Rekeyed ρ (h.close label).2 (h'.close label).2 := by
  have founded : (h.close label).2.Founded := by
    refine r.founded.shrink ?_ (by rw [close_disk]) fun seat hr => ?_
    · rw [close_disk]; exact fun _ _ hp => hp
    · rw [close_seats] at hr; exact (List.mem_filter.mp hr).left
  refine ⟨?_, by rw [close_disk, close_disk]; exact r.disk, ?_, founded⟩
  · unfold Host.close seat?
    obtain ⟨hs, hs'⟩ | ⟨_, _, hs, hs', _⟩ := r.seats.lookup label <;> rw [hs, hs']
  · rw [close_seats, close_seats]
    exact r.seats.without label

theorem note (r : Rekeyed ρ h h') : Rekeyed ρ (h.note level text) (h'.note level' text') :=
  ⟨r.disk, r.seats, { r.founded with }⟩

theorem deleteFiles (paths : List String) (r : Rekeyed ρ h h') :
    Concur (Rekeyed ρ) (deleteFiles paths h) (Host.deleteFiles paths h') := by
  induction paths generalizing h h'
  case nil => exact ⟨rfl, r⟩
  case cons path paths ih =>
    unfold Host.deleteFiles
    obtain ⟨f, hd, hd'⟩ | ⟨d, d', hd, hd', images⟩ := r.disk.unlink path <;> rw [hd, hd']
    case inr => exact ih (r.unlinked hd images)
    case inl =>
      cases f
      case notFound => exact ih r
      all_goals exact ⟨rfl, r⟩

theorem opened {d d' : Disk Body} (r : Rekeyed ρ h h')
    (hd : h.disk.openFile path (.foreign []) = .ok (i, d))
    (images : Disk.Images (fun i => Body.rekey (ρ i)) d d') :
    Rekeyed ρ { h with disk := d } { h' with disk := d' } ∧ i < d.bodies.length := by
  obtain ⟨hf, rfl⟩ | ⟨_, rfl, _, hb, _, _⟩ := Disk.openFile_cases hd
  case inl =>
    obtain ⟨p, _, hp⟩ := Disk.file?_eq_some.mp hf
    exact ⟨⟨images, r.seats, { r.founded with }⟩, r.founded.links p i hp⟩
  case inr =>
    refine ⟨⟨images, r.seats, r.founded.append hb fun p _ => Disk.openFile_links hd p⟩, ?_⟩
    rw [hb, List.length_append]
    exact Nat.lt_succ_self _

theorem locate (path : String) (r : Rekeyed ρ h h') :
    (∃ f, locate path h = .error f ∧ Host.locate path h' = .error f) ∨
    ∃ i h₁ h₁', Host.locate path h = .ok (i, h₁) ∧ Host.locate path h' = .ok (i, h₁') ∧
    Rekeyed ρ h₁ h₁' ∧
      i < h₁.disk.bodies.length := by
  unfold Host.locate
  split
  case isTrue =>
    obtain ⟨hi, images⟩ := r.disk.addBody (.foreign []) fun _ => rfl
    have founded : { h with disk := (h.disk.addBody (Body.foreign [])).2 }.Founded :=
      r.founded.append rfl fun _ _ hp => .inl hp
    let g' : Host := { h' with disk := (h'.disk.addBody (Body.foreign [])).2 }
    refine .inr ⟨_, _, g', rfl, congrArg (fun j => Except.ok (j, g')) hi,
      ⟨images, r.seats, founded⟩, ?_⟩
    simp
  case isFalse =>
    obtain ⟨f, hd, hd'⟩ | ⟨i, d, d', hd, hd', images⟩ :=
      r.disk.openFile path (.foreign []) fun _ => rfl
    case inl => exact .inl ⟨_, by rw [hd], by rw [hd']⟩
    case inr =>
      obtain ⟨r₁, hi⟩ := r.opened hd images
      exact .inr ⟨i, _, _, by rw [hd], by rw [hd'], r₁, hi⟩

theorem isOccupied (r : Rekeyed ρ h h') (path : String) :
    h'.isOccupied path = h.isOccupied path := by
  unfold Host.isOccupied
  rw [r.disk.find?]
  rcases h.disk.find? path with _ | _ | j
  case none      => rfl
  case directory => rfl
  case file      => simp only [r.body, ne_eq, Body.rekey_eq_foreign]

theorem adoptLog (path : String) (i : Nat) (r : Rekeyed ρ h h') :
    (∃ f, adoptLog path i h = .error f ∧ Host.adoptLog path i h' = .error f) ∨
    ∃ h₁ h₁', Host.adoptLog path i h = .ok h₁ ∧ Host.adoptLog path i h' = .ok h₁' ∧
    Rekeyed ρ h₁ h₁' ∧
      h₁.disk.bodies = h.disk.bodies := by
  have hjam : h'.isJammed path i = h.isJammed path i := by
    rw [isJammed, isJammed, r.isBlank, r.disk.find?]
  unfold Host.adoptLog
  rw [hjam, r.isOccupied, r.disk.find?, r.isBlank]
  by_cases hm : path = memoryPath
  case pos => exact .inr ⟨h, h', if_pos hm, if_pos hm, r, rfl⟩
  case neg =>
    rw [if_neg hm, if_neg hm]
    cases h.isJammed path i <;> cases h.isOccupied (walPath path)
    case true.false | true.true => exact .inl ⟨_, rfl, rfl⟩
    case false.false            => exact .inr ⟨h, h', rfl, rfl, r, rfl⟩
    case false.true             =>
      simp only [Bool.false_eq_true, Bool.not_true, if_false]
      split
      case isTrue  => exact .inl ⟨_, rfl, rfl⟩
      case isFalse =>
        have sheds : Sheds path h (h.dropFile (walPath path)) := dropWal_sheds
        split
        · exact .inr ⟨_, _, rfl, rfl, r.dropFile _, sheds.bodies⟩
        · exact .inr ⟨_, _, rfl, rfl, (r.dropFile _).dropFile _, (sheds.trans dropShm_sheds).bodies⟩

theorem keepsLog (r : Rekeyed ρ h h') (hs : s.Rekeyed ρ s') : h'.keepsLog s' = h.keepsLog s := by
  rw [hs]
  simp only [Host.keepsLog, r.body, r.disk.file?]
  cases h.body s.body <;> rfl

theorem claimSidecars (r : Rekeyed ρ h h') (hs : s.Rekeyed ρ s') :
    Rekeyed ρ (claimSidecars s h) (Host.claimSidecars s' h') := by
  have hp : s'.path = s.path := by rw [hs]
  unfold Host.claimSidecars
  rw [r.keepsLog hs, hp]
  split
  · exact (r.dropFile _).dropFile _
  · exact r

-- Where there is no `init` table no keys are stored, and no table is open.
theorem change (r : Rekeyed ρ h h') (hs : (h.body i).store? = .ok store)
    (hi : store.content.init.isTable = false) (π : Rekeying) :
    Rekeyed (Function.update ρ i π) h h' := by
  have hbody : (h.body i).rekey π = (h.body i).rekey (ρ i) := by
    have none (π : Rekeying) : (h.body i).rekey π = h.body i :=
      Body.rekey_of_no_keys fun store' hs' => by
        cases hs.symm.trans hs'
        exact Content.no_keys_of_grows hi .refl
    rw [none, none]
  have hseats (seat : String × Seat) (hr : seat ∈ h.seats) : seat.2.body ≠ i := by
    rintro rfl
    cases hi.symm.trans (r.founded.seated seat hr store hs)
  refine ⟨⟨r.disk.links, fun j => ?_⟩, ?_, r.founded⟩
  · rw [r.disk.bodies]
    by_cases hj : j = i
    case neg => rw [Function.update_of_ne hj]
    case pos =>
      subst hj
      rw [Function.update_self]
      rw [Host.body] at hbody
      cases hb : h.disk.bodies[j]? <;> rw [hb] at hbody
      case none => rfl
      case some => exact congrArg some hbody.symm
  · refine ((List.forall₂_and_left _ _).mpr ⟨hseats, r.seats⟩).imp fun seat seat' hr =>
      ⟨hr.right.name, ?_⟩
    rw [Seat.Rekeyed, Function.update_of_ne hr.left]
    exact hr.right.value

theorem congr {g g' : Host} (r : Rekeyed ρ h h') (hd : g.disk = h.disk) (hs : g.seats = h.seats)
    (hd' : g'.disk = h'.disk) (hs' : g'.seats = h'.seats) : Rekeyed ρ g g' where
  disk    := by rw [hd, hd']; exact r.disk
  seats   := by rw [hs, hs']; exact r.seats
  founded := r.founded.shrink (by rw [hd]; exact fun _ _ hp => hp) (by rw [hd])
    (by rw [hs]; exact fun _ hr => hr)

theorem install (r : Rekeyed ρ h h') (label : String) (hl : s.body < h.disk.bodies.length)
    (seat : s.Rekeyed ρ s')
    (b : Table.Beside (Connection.Rekeyed (ρ s.body)) t t') (ht : t.conn.Throughout Content.Founded)
    (e e' : Entropy) : Rekeyed ρ (h.install label s t e) (h'.install label s' t' e') := by
  have restored : Rekeyed ρ { h.restore label s t with entropy := e }
    { h'.restore label s' t' with entropy := e' } :=
    (r.restore label hl seat b ht).congr rfl rfl rfl rfl
  exact restored.claimSidecars seat

theorem giveUp (r : Rekeyed ρ h h') (seat : s.Rekeyed ρ s')
    (b : Table.Beside (Connection.Rekeyed (ρ s.body)) t t')
    (hp : ∀ store, t.conn.body.store? = .ok store → store.content.Paired)
    (hi : ∀ x ∈ h.seats, x.2.body = s.body → ∀ store, t.conn.body.store? = .ok store →
      store.content.init.isTable = true) (e e' : Entropy) :
    Rekeyed ρ { h.install label s t e with seats := h.seats }
    { h'.install label s' t' e' with seats := h'.seats } := by
  have hsame : s'.body = s.body := by rw [seat]
  have hbody : t'.conn.body = t.conn.body.rekey (ρ s.body) := congrArg (·.body) b.conn
  let g : Host := { h with disk := h.disk.setBody s.body t.conn.body }
  let g' : Host := { h' with disk := h'.disk.setBody s'.body t'.conn.body }
  have images : Disk.Images (fun j => Body.rekey (ρ j)) g.disk g'.disk := by
    simp only [g, g', hbody, hsame]
    exact r.disk.setBody ..
  have written : Rekeyed ρ g g' := ⟨images, r.seats, r.founded.setBody hp hi⟩
  exact (written.claimSidecars seat).congr (claimSidecars_disk _ rfl) (claimSidecars_seats _ g).symm
    (claimSidecars_disk _ rfl) (claimSidecars_seats _ g').symm

theorem settle (r : Rekeyed ρ h h') (label : String) (o : StoreOptions) (path key key' : String)
    (hl : i < h.disk.bodies.length) (hs : (h.body i).store? = .ok store)
    (hg : Granted (h.settle label o (newSeat path key i)).1)
    (hg' : Granted (h'.settle label o (newSeat path key' i)).1) :
    ∃ ρ', Concur (Rekeyed ρ') (h.settle label o (newSeat path key i))
      (h'.settle label o (newSeat path key' i)) := by
  have seat (ρ : Nat → Rekeying) : (newSeat path key i).Rekeyed ρ (newSeat path key' i) := rfl
  have hfile : (newSeat path key i).inMemory = (newSeat path key' i).inMemory := rfl
  rw [(settle_eq ..).left] at hg hg'
  obtain ⟨π, hold, hresult, b⟩ :=
    (r.assemble label (seat ρ)).prepare o (newSeat path key i).inMemory rfl hs hg hg'
  have hpaired := r.founded.paired i store hs
  have hfounded := Table.prepare_founded (t := h.assemble label (newSeat path key i)) o
    (newSeat path key i).inMemory h.entropy rfl hs hpaired
  have hkeeps := Table.prepare_keeps (t := h.assemble label (newSeat path key i)) o
    (newSeat path key i).inMemory h.entropy rfl hs hpaired
  -- A store that is there keeps what is exchanged in it, and in a new one it is the new keys.
  have r₁ : Rekeyed (Function.update ρ i π) h h' := by
    cases hinit : store.content.init.isTable
    case true  => rw [hold hinit]; exact (Function.update_eq_self i ρ).symm ▸ r
    case false => exact r.change hs hinit π
  rcases hp : (h.assemble label (newSeat path key i)).prepare o
    (newSeat path key i).inMemory h.entropy
    with ⟨x, t, e⟩
  rcases hp' : (h'.assemble label (newSeat path key' i)).prepare o
    (newSeat path key' i).inMemory h'.entropy
    with ⟨x', t', e'⟩
  rw [hp] at hresult b hfounded hkeeps
  rw [hfile, hp'] at hresult b
  cases hresult
  have b₁ : Table.Beside (Connection.Rekeyed (Function.update ρ i π i)) t t' := by
    rwa [Function.update_self]
  refine ⟨Function.update ρ i π, ?_⟩
  cases x
  case ok =>
    rw [settle_of_ok hp, settle_of_ok hp']
    exact ⟨rfl, r₁.install label hl (seat _) b₁ (hfounded rfl) e e'⟩
  case error f =>
    rw [settle_of_error hp, settle_of_error hp']
    refine ⟨rfl, r₁.giveUp (seat _) b₁ (fun store' hs' => (hkeeps store' hs').left) ?_ e e'⟩
    exact fun x hx hi store' hs' =>
      (hkeeps store' hs').right (r.founded.seated x hx store (hi ▸ hs))

theorem openNamed (r : Rekeyed ρ h h') (label : String) (n : Naming) (o : StoreOptions)
    (name key key' : String)
    (hg : Granted (h.openNamed label n o name key).1)
    (hg' : Granted (h'.openNamed label n o name key').1) :
    ∃ ρ', Concur (Rekeyed ρ') (h.openNamed label n o name key)
      (h'.openNamed label n o name key') := by
  cases hp : n.path name
  case error f =>
    simp only [Host.openNamed, hp]
    exact ⟨ρ, rfl, r⟩
  case ok path =>
    obtain ⟨hroot, r₁⟩ := r.paved n.root
    rcases hm : h.disk.makePath n.root with ⟨x, d⟩
    rcases hm' : h'.disk.makePath n.root with ⟨x', d'⟩
    obtain rfl : h.rooted n = d := congrArg Prod.snd hm
    obtain rfl : h'.rooted n = d' := congrArg Prod.snd hm'
    rw [hm, hm'] at hroot r₁
    cases hroot
    cases x
    case error f =>
      simp only [Host.openNamed, hp, hm, hm']
      exact ⟨ρ, rfl, r₁⟩
    case ok =>
      obtain ⟨f, hl, hl'⟩ | ⟨i, h₁, h₁', hl, hl', r₂, hi⟩ := r₁.locate path
      case inl =>
        simp only [Host.openNamed, hp, hm, hm', hl, hl']
        exact ⟨ρ, rfl, r₁⟩
      case inr =>
        obtain ⟨f, ha, ha'⟩ | ⟨h₂, h₂', ha, ha', r₃, hb⟩ := r₂.adoptLog path i
        case inl =>
          simp only [Host.openNamed, hp, hm, hm', hl, hl', ha, ha']
          exact ⟨ρ, rfl, r₂⟩
        case inr =>
          have b := r₃.assemble label
            (show (newSeat path key i).Rekeyed ρ (newSeat path key' i) from rfl)
          have hlook := (b.conn.read (q := fun _ => .ok ()) fun _ => rfl).result
          have hfound := look_cases label (newSeat path key i) rfl h₂
          rw [openNamed_of_adopted label o key hp hm hl ha] at hg ⊢
          rw [openNamed_of_adopted label o key' hp hm' hl' ha'] at hg' ⊢
          rw [← hlook] at hg' ⊢
          obtain ⟨f, c, hr, _⟩ | ⟨c, hr, ⟨store, hs⟩, _⟩ := hfound
          case inl =>
            simp only [hr]
            exact ⟨ρ, rfl, r₃⟩
          case inr =>
            simp only [hr] at hg hg' ⊢
            exact r₃.settle label o path key key' (hb ▸ hi) hs hg hg'

theorem «open» (r : Rekeyed ρ h h') (label : String) (n : Naming) (o : StoreOptions)
    (name key key' : String)
    (hg : Granted (h.open label n o name key).1) (hg' : Granted (h'.open label n o name key').1) :
    ∃ ρ', Concur (Rekeyed ρ') (h.open label n o name key) (h'.open label n o name key') :=
  (r.close label).right.openNamed label n o name key key' hg hg'

theorem discard (r : Rekeyed ρ h h') (n : Naming) (name : String) :
    Concur (Rekeyed ρ) (h.discard n name) (h'.discard n name) := by
  unfold Host.discard
  cases n.path name
  case error => exact ⟨rfl, r⟩
  case ok path =>
    obtain ⟨x, h₁, h₁', hd, hd', r₁⟩ := (r.deleteFiles (storeFiles path)).eq
    simp only [hd, hd']
    cases x
    case error => exact ⟨rfl, r₁⟩
    case ok    => exact ⟨rfl, r₁.note⟩

theorem remove (r : Rekeyed ρ h h') (label : String) :
    (h.remove label).1 = (h'.remove label).1 ∧
    Rekeyed ρ (h.remove label).2 (h'.remove label).2 := by
  unfold Host.remove seat?
  obtain ⟨hs, hs'⟩ | ⟨s, s', hs, hs', seat⟩ := r.seats.lookup label <;> rw [hs, hs']
  case inl => exact ⟨rfl, r⟩
  case inr =>
    have hp : s'.path = s.path := by rw [seat]
    obtain ⟨x, h₁, h₁', hd, hd', r₁⟩ := ((r.close label).right.deleteFiles (storeFiles s.path)).eq
    simp only [hp, hd, hd']
    cases x
    case error => exact ⟨rfl, r₁⟩
    case ok    => exact ⟨rfl, r₁.note⟩

end Rekeyed

end Host

end AccountCache
