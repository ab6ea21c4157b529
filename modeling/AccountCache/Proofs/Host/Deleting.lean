import AccountCache.Proofs.Host.Opening

namespace AccountCache

namespace Host

variable {h h' : Host} {label path name : String} {i : Nat} {n : Naming} {s : Seat}

structure Loses (h h' : Host) : Prop where
  rest : h' = { h with disk := h'.disk }
  disk : h.disk.Loses h'.disk

protected theorem Loses.refl : Loses h h := ⟨rfl, .refl⟩

protected theorem Loses.trans (l : Loses h₁ h₂) (l' : Loses h₂ h₃) : Loses h₁ h₃ where
  rest := by rw [l'.rest, l.rest]
  disk := l.disk.trans l'.disk

theorem deleteFiles_loses (paths : List String) (h : Host) : Loses h (deleteFiles paths h).2 := by
  induction paths generalizing h
  case nil => exact .refl
  case cons path paths ih =>
    unfold deleteFiles
    split
    case h_1 d hd => exact .trans ⟨rfl, (Disk.unlink_spec hd).left⟩ (ih { h with disk := d })
    case h_2      => exact ih h
    case h_3      => exact .refl

theorem deleteFiles_lacks_of_file (hr : h.disk.Reaches (Place.steps n.root))
    (hf : h.disk.file? path = some i) :
    (deleteFiles (storeFiles path) h).2.disk.Lacks n.root path := by
  have ⟨d, hd⟩ := Disk.unlink_of_file? hf
  have ⟨loses, hgone, _⟩ := Disk.unlink_spec hd
  have l := deleteFiles_loses [walPath path, shmPath path] { h with disk := d }
  have hrun : deleteFiles (storeFiles path) h =
      deleteFiles [walPath path, shmPath path] { h with disk := d } := by
    simp only [storeFiles, deleteFiles, hd]
  rw [hrun]
  refine Disk.lacks_of_reaches (hr.mono fun p hp => ?_) (l.disk.file?_eq_none hgone)
  exact (l.disk.parallel p).mp ((loses.parallel p).mp hp)

theorem deleteFiles_beside_lacks (xs : List String)
    (hx : ∀ x ∈ xs, '/' ∉ x.toList ∧ 2 < x.length) (hl : h.disk.Lacks n.root path) :
    (deleteFiles (xs.map (path ++ ·)) h).2.disk.Lacks n.root path := by
  induction xs generalizing h
  case nil => exact hl
  case cons x xs ih =>
    have ⟨hslash, hlen⟩ := hx x (.head _)
    have hx' y hy := hx y (.tail _ hy)
    rw [List.map_cons, deleteFiles]
    split
    case h_1 d hd => exact ih (h := { h with disk := d }) hx' (hl.unlink hslash hlen hd)
    case h_2      => exact ih hx' hl
    case h_3      => exact hl

theorem deleteFiles_lacks_of_lacks (hl : h.disk.Lacks n.root path) :
    (deleteFiles (storeFiles path) h).2.disk.Lacks n.root path := by
  have beside := deleteFiles_beside_lacks ["-wal", "-shm"] (by decide) hl
  rw [storeFiles, deleteFiles]
  split
  case h_1 d hd =>
    obtain ⟨_, hd'⟩ | ⟨p, i, hp, hlink, _⟩ := Disk.unlink_cases path h.disk
    case inl => cases hd.symm.trans hd'
    case inr => cases hl.file?.symm.trans (Disk.file?_eq_some.mpr ⟨p, hp, hlink⟩)
  case h_2 => exact beside
  case h_3 => exact hl

-- The host is the same but for its log.
structure Logs (h h' : Host) : Prop where
  disk    : h'.disk = h.disk
  seats   : h'.seats = h.seats
  keyring : h'.keyring = h.keyring
  entropy : h'.entropy = h.entropy

theorem discard_logs (hp : n.path name = .ok path) :
    Logs (deleteFiles (storeFiles path) h).2 (h.discard n name).2 := by
  simp only [discard, hp]
  cases deleteFiles (storeFiles path) h
  case mk r h' => cases r <;> exact ⟨rfl, rfl, rfl, rfl⟩

theorem remove_logs (hs : h.seat? label = some s) :
    Logs (deleteFiles (storeFiles s.path) (h.close label).2).2 (h.remove label).2 := by
  simp only [remove, hs]
  cases deleteFiles (storeFiles s.path) (h.close label).2
  case mk r h' => cases r <;> exact ⟨rfl, rfl, rfl, rfl⟩

theorem discard_lacks (hp : n.path name = .ok path)
    (h' : h.disk.Lacks n.root path ∨
      h.disk.Reaches (Place.steps n.root) ∧ ∃ i, h.disk.file? path = some i) :
    (h.discard n name).2.disk.Lacks n.root path := by
  rw [(discard_logs hp).disk]
  cases h'
  case inl hl => exact deleteFiles_lacks_of_lacks hl
  case inr hr => exact deleteFiles_lacks_of_file hr.left hr.right.choose_spec

theorem remove_lacks (hs : h.seat? label = some s) (hr : h.disk.Reaches (Place.steps n.root))
    (hf : h.disk.file? s.path = some i) : (h.remove label).2.disk.Lacks n.root s.path := by
  rw [(remove_logs hs).disk]
  refine deleteFiles_lacks_of_file (i := i) ?_ ?_ <;> rwa [close_disk]

end Host
end AccountCache
