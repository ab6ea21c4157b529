import AccountCache.Proofs.Removal.Files

namespace AccountCache

namespace Host

variable {g h h' : Host} {path label name : String} {aside : List String} {n : Naming} {s : Seat}
  {r : Except Failure Unit}

-- The files of the store have been deleted, and nothing is said of what has happened aside.
structure Deletes (aside : List String) (path : String) (r : Except Failure Unit) (h h' : Host) :
    Prop where
  ok_iff  : r = .ok () ↔ ∀ x ∈ storeFiles path, h.disk.find? x ≠ some .directory
  gone    : r = .ok () → (∀ x ∈ storeFiles path, h'.disk.find? x = none) ∧
    walPath path ∉ h'.sidecarPaths ∧ shmPath path ∉ h'.sidecarPaths
  -- The first directory among the three is named; what is before it is gone, and the rest is left.
  stopped : r ≠ .ok () → ∃ done x rest, storeFiles path = done ++ x :: rest ∧
    r = .error (.file x .isDirectory) ∧
    h.disk.find? x = some .directory ∧
    (∀ y ∈ done, h.disk.find? y ≠ some .directory ∧ h'.disk.find? y = none) ∧
    ∀ y ∈ x :: rest, h'.disk.find? y = h.disk.find? y
  -- Nothing else changes.
  links   : ∀ q, (∀ x ∈ storeFiles path ++ aside, h.disk.place x ≠ .ok q) →
    h'.disk.link? q = h.disk.link? q
  bodies  : h'.disk.bodies = h.disk.bodies
  logs    : ∀ s : Seat, (∀ x ∈ storeFiles path ++ aside, ∀ q, h.disk.place x = .ok q →
    h.disk.place s.path ≠ .ok q) → h'.keepsLog s = h.keepsLog s
  keyring : h'.keyring = h.keyring
  entropy : h'.entropy = h.entropy

theorem keepsLog_congr (hb : h'.disk.bodies = h.disk.bodies)
    (hf : h'.disk.file? s.path = h.disk.file? s.path) :
    h'.keepsLog s = h.keepsLog s := by
  simp only [keepsLog, body, hb, hf]

theorem Sweeps.file? {done rest : List String} {d d' : Disk Body} (sw : Sweeps done rest d d')
    (hx : ∀ x ∈ done, ∀ q, d.place x = .ok q → d.place path ≠ .ok q) :
    d'.file? path = d.file? path := by
  cases hp : d.place path
  case error f =>
    have hnone : d.find? path = none := by rw [Disk.find?, hp]
    rw [Disk.file?, Disk.file?, sw.loses.find?_eq_none hnone, hnone]
  case ok p =>
    have hl : d'.link? p = d.link? p := sw.others p fun x hm hxp => hx x hm p hxp hp
    have hp' : d'.place path = .ok p := Disk.place_mono (fun q => (sw.loses.parallel q).mp) hp
    rw [Disk.file?, Disk.file?, Disk.find?_of_place hp, Disk.find?_of_place hp', hl]

namespace Deletes

theorem before (d : Deletes aside path r g h') (hd : g.disk = h.disk) (hk : g.keyring = h.keyring)
    (he : g.entropy = h.entropy) : Deletes aside path r h h' where
  ok_iff    := by rw [← hd]; exact d.ok_iff
  gone      := d.gone
  stopped   := by rw [← hd]; exact d.stopped
  links     := by rw [← hd]; exact d.links
  bodies    := by rw [← hd]; exact d.bodies
  logs s hs := (d.logs s (by rw [hd]; exact hs)).trans (keepsLog_congr (by rw [hd]) (by rw [hd]))
  keyring   := d.keyring.trans hk
  entropy   := d.entropy.trans he

end Deletes

end Host
end AccountCache
