import AccountCache.Proofs.Host.Freshness
import AccountCache.Proofs.Host.Recalling
import AccountCache.Proofs.Removal.Housing
import AccountCache.Proofs.Removal.Stores

namespace AccountCache

namespace Content

variable {c : Content} {t : Table}

end Content

namespace Host

variable {h h' : Host} {n : Naming} {path name label key : String} {i : Nat} {o : StoreOptions}

-- The connection of an opening that is about to make its store, with no other table on the file.
structure Begets (n : Naming) (path label key : String) (h : Host) (i : Nat) (h₂ : Host) : Prop
    extends Arrives n path h i h₂ where
  finds : Finds n path h.disk (.foreign [])
  alone : h₂.peers label i = .ofPhases []

namespace Begets

variable {h₂ : Host}

theorem blank (b : Begets n path label key h i h₂) :
    (h₂.assemble label (newSeat path key i)).conn.body = .foreign [] := b.toArrives.body_eq b.finds

theorem blocked (b : Begets n path label key h i h₂) (hm : path ≠ memoryPath)
    (hfits : ¬Fits path h₂.disk) :
    (h₂.settle label o (newSeat path key i)).1 = .error (.schema .cannotOpen) := by
  have hmem : (newSeat path key i).inMemory = false := decide_eq_false hm
  have ho := (newSeat_obstacle label key hm (b.file hm)).trans (if_neg hfits)
  have halone : (h₂.assemble label (newSeat path key i)).conn.peers = .ofPhases [] := b.alone
  obtain ⟨_, hprep⟩ := Table.prepare_of_obstacle (t := h₂.assemble label (newSeat path key i)) o
    h₂.entropy rfl (by rw [b.blank]; rfl) (by rw [halone]; rfl) ho
  rw [(settle_eq ..).left, hmem, hprep, halone]
  rfl

end Begets

-- Nothing is at the path, nor at that of its log, and the root is there.
structure Vacant (n : Naming) (path : String) (h : Host) : Prop where
  reaches : h.disk.Reaches (Place.steps n.root)
  free    : h.disk.Free path
  log     : h.disk.find? (walPath path) = none

end Host
end AccountCache
