import AccountCache.Proofs.Host.Opening
import AccountCache.Proofs.Schema

namespace AccountCache

namespace Table

variable {t : Table} {s : Store}

theorem prepare_of_standard (o : StoreOptions) (inMemory : Bool) (e : Entropy)
    (hi : t.conn.phase = .idle) (hb : t.conn.body = .store s) (hs : s.content.IsStandard)
    (hp : t.conn.peers.pending = false) :
    ∃ s' t', t.prepare o inMemory e = (.ok (), t', e) ∧ s'.content = s.content ∧
      t' = { t with conn := { t.conn with body := .store s' }, log := t'.log } := by
  have ⟨conn, log, hj, ext, same⟩ := applyJournal_extends o.journal inMemory t
  have ⟨s', hs', hc⟩ := Connection.committed?_eq_some.mp
    (same.trans (Connection.committed?_eq_some.mpr ⟨s, by rw [hb]; rfl, rfl⟩))
  have hstandard : s'.content.IsStandard := hc ▸ hs
  have hbody : conn.body = .store s' := Body.eq_store_of_has hs' (hstandard.has .init)
  have hphase : conn.phase = .idle := ext.phase.trans hi
  have hpeers : conn.peers.pending = false := by rw [ext.rest]; exact hp
  have he := Connection.ensureSchema_of_standard hphase hs' hpeers hstandard
  have hconn : conn = { t.conn with body := .store s' } := by rw [ext.rest, hbody]
  have hprep : t.prepare o inMemory e = (.ok (), { t with conn, log }.note .debug
      ("state cache opened: " ++ t.path ++ " (fresh: " ++ toString false ++ ")"), e) := by
    simp only [prepare, hj, he, Bool.false_eq_true, if_false]
  exact ⟨s', _, hprep, hc, by rw [← hconn]; rfl⟩

end Table

namespace Host

variable {h : Host} {n : Naming} {path label : String} {i : Nat}

theorem peers_pending_eq_false : (h.peers label i).pending = false ↔
    ∀ r ∈ h.seats, r.1 ≠ label → r.2.body = i → r.2.phase.isPending = false := by
  have mem r : r ∈ (h.seatsOn i).filter (fun s => s.1 ≠ label) ↔
      r ∈ h.seats ∧ r.2.body = i ∧ r.1 ≠ label := by
    simp [seatsOn, and_comm]
  simp only [peers, Peers.ofPhases, List.any_map, List.any_eq_false, Function.comp, mem]
  constructor
  · intro hp r hr hl hb
    simpa using hp r ⟨hr, hb, hl⟩
  · intro hp r hr
    simpa using hp r hr.left hr.right.right hr.right.left

-- A file with the content, under a directory that is there; nothing is in its way.
structure Holds (n : Naming) (path : String) (i : Nat) (c : Content) (h : Host) : Prop where
  reaches : h.disk.Reaches (Place.steps n.root)
  journal : h.disk.find? (journalPath path) ≠ some .directory
  log     : h.disk.find? (walPath path) ≠ some .directory
  file    : h.disk.file? path = some i
  body    : ∃ s, h.body i = .store s ∧ s.content = c

theorem Holds.not_barred {c : Content} (hh : h.Holds n path i c) : ¬h.Barred path i
  | .inl hj => hh.journal (isJammed_eq_true.mp hj).right
  | .inr hw => hh.log hw

theorem holds_of_install {h₂ : Host} {t : Table} {store : Store} (key : String) (e : Entropy)
    (a : Arrives n path h i h₂) (hm : path ≠ memoryPath)
    (hj : h₂.disk.find? (journalPath path) ≠ some .directory)
    (hb : (h₂.install label (newSeat path key i) t e).body i = .store store) :
    (h₂.install label (newSeat path key i) t e).Holds n path i store.content where
  reaches := a.reaches.mono fun p => (install_parallel p).mp
  journal := fun hd => hj (install_parallel.find?_eq_directory.mpr hd)
  log     := fun hd => a.free hm (.inr (install_parallel.find?_eq_directory.mpr hd))
  file    := install_file (s := newSeat path key i) (a.file hm)
  body    := ⟨store, hb, rfl⟩

theorem openNamed_of_standard {name : String} {c : Content} (label : String) (o : StoreOptions)
    (key : String) (hp : n.path name = .ok path) (hm : path ≠ memoryPath) (hh : h.Holds n path i c)
    (hc : c.IsStandard) (hfree : (h.peers label i).pending = false) :
    ∃ h', h.openNamed label n o name key = (.ok (), h') ∧ h'.Holds n path i c ∧
      h'.seats = assign label (newSeat path key i) h.seats ∧ h'.entropy = h.entropy ∧
      ∀ k, h'.keyholder k = h.keyholder k := by
  have hmake := Disk.makePath_of_reaches hh.reaches
  have hroot : h.rooted n = h.disk := congrArg Prod.snd hmake
  have hl : locate path { h with disk := h.rooted n } = .ok (i, { h with disk := h.rooted n }) := by
    simp only [locate, if_neg hm, hroot, Disk.openFile_of_file? hh.file]
  obtain ⟨s, hb, hs⟩ := hh.body
  obtain ⟨_, _, _, _, hbarred⟩ | ⟨h₂, arrives, hrest⟩ := openNamed_of_located label o key
    hp (by rw [hroot, hmake]) hl
  case inl =>
    rw [hroot] at hbarred
    exact absurd hbarred hh.not_barred
  case inr =>
    have hbodies : h₂.disk.bodies = h.disk.bodies := by
      obtain ⟨_, _, hb⟩ | ⟨hn, _⟩ := arrives.body
      case inl => exact hb
      case inr => simp [hroot, hh.file] at hn; exact absurd hn hm
    have hb₂ : h₂.body i = .store s := by rw [← hb]; simp only [body, hbodies]
    have hlt : i < h₂.disk.bodies.length := lt_of_not_isBlank (by rw [hb₂]; rfl)
    have hpeers : (h₂.peers label i).pending = false := by
      rw [peers_congr (h := h) (by rw [arrives.seats])]
      exact hfree
    obtain ⟨_, _, hw⟩ | ⟨_, _, hset⟩ := hrest
    case inl =>
      obtain ⟨_, hf⟩ | hf := hw
      · simp [hb₂, Body.store?] at hf
      · simp [hpeers] at hf
    case inr =>
      obtain ⟨s', t', hprep, hs', ht'⟩ := Table.prepare_of_standard
        (t := h₂.assemble label (newSeat path key i)) o (newSeat path key i).inMemory h₂.entropy
        rfl hb₂ (hs ▸ hc) hpeers
      have hconn : t'.conn.body = .store s' := by rw [ht']
      have hkey : t'.key = h₂.keyholder key := by rw [ht']; rfl
      refine ⟨_, by rw [hset, settle, hprep], ?_, ?_, ?_, fun k => ?_⟩
      · rw [← hs, ← hs']
        have hj : h₂.disk.find? (journalPath path) ≠ some .directory :=
          fun hd => hh.journal (hroot ▸ arrives.parallel.find?_eq_directory.mpr hd)
        exact holds_of_install key _ arrives hm hj
          ((install_body (s := newSeat path key i) hlt).trans hconn)
      · rw [install_seats, arrives.seats, ht']; rfl
      · rw [install_entropy, arrives.entropy]
      · exact (install_keyholder_of_eq hkey k).trans (arrives.keyholder k)

end Host
end AccountCache
