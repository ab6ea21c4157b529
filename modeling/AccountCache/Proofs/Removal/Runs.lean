import AccountCache.Proofs.Removal.Reopening
import Mathlib.Control.Monad.Basic

namespace AccountCache

namespace Host

variable {h : Host} {n : Naming} {path name label key : String} {o : StoreOptions} {s : Seat}

theorem Vacant.close (v : h.Vacant n path) : (h.close label).2.Vacant n path := by
  refine ⟨?_, ?_, ?_⟩ <;> rw [close_disk]
  · exact v.reaches
  · exact v.free
  · exact v.log

-- A directory in the place of the log stops the deletion behind the file and before the index.
example :
    let files : List Event :=
      [.writeFile "a.db" [1, 2], .makeDirectory "a.db-wal", .writeFile "a.db-shm" [3]]
    let h := Event.runAll plainNaming files bare
    (h.discard plainNaming "a").1 = .error (.file "a.db-wal" .isDirectory) ∧
      (storeFiles "a.db").map (h.discard plainNaming "a").2.disk.find? =
        [none, some .directory, some (.file 1)] := by
  decide +kernel

end Host
end AccountCache
