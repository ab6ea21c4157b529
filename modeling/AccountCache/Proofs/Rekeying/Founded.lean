import AccountCache.Proofs.Host.Deleting
import AccountCache.Proofs.Rekeying.Opening

namespace AccountCache

namespace Host

variable {h h' : Host} {label path : String} {i : Nat} {s s' : Seat} {t t' : Table} {store : Store}

-- The links lead to bodies that are there; no store has a node key without a parent key; and where
-- a table is open, there is an `init` table, both in the file and in what its transaction holds.
structure Founded (h : Host) : Prop where
  links  : ∀ p i, h.disk.link? p = some (.file i) → i < h.disk.bodies.length
  paired : ∀ i store, (h.body i).store? = .ok store → store.content.Paired
  seated : ∀ r ∈ h.seats, ∀ store, (h.body r.2.body).store? = .ok store →
    store.content.init.isTable = true
  held   : ∀ r ∈ h.seats, ∀ content, r.2.phase.held? = some content → content.Founded

theorem body_setBody (h : Host) (i : Nat) (b : Body) (j : Nat) :
    ({ h with disk := h.disk.setBody i b } : Host).body j =
      if i = j ∧ i < h.disk.bodies.length then b else h.body j := by
  simp only [Host.body, Disk.setBody, List.getElem?_set]
  by_cases hj : i = j
  case neg => simp [hj]
  case pos =>
    subst hj
    by_cases hi : i < h.disk.bodies.length
    · simp [hi]
    · simp [hi]

namespace Founded

theorem throughout (f : h.Founded) (hs : h.seat? label = some s) :
    (h.assemble label s).conn.Throughout Content.Founded where
  body store hstore := ⟨f.seated _ (mem_of_seat? hs) store hstore, f.paired _ store hstore⟩
  held              := f.held _ (mem_of_seat? hs)

theorem lt_of_seat? (f : h.Founded) (hs : h.seat? label = some s) :
    s.body < h.disk.bodies.length := by
  apply lt_of_not_isBlank
  cases hb : h.body s.body
  case store => rfl
  case foreign bytes =>
    cases hl : (Body.foreign bytes).isBlank
    case false => rfl
    case true  =>
      have hblank : (h.body s.body).store? = .ok .blank := by
        rw [hb, Body.store?, if_pos (by simpa [Body.isBlank] using hl)]
      cases f.seated _ (mem_of_seat? hs) _ hblank

-- The same bodies under no more links, and no more seats.
theorem shrink (f : h.Founded)
    (hl : ∀ p i, h'.disk.link? p = some (.file i) → h.disk.link? p = some (.file i))
    (hb : h'.disk.bodies = h.disk.bodies) (hs : ∀ r ∈ h'.seats, r ∈ h.seats) : h'.Founded := by
  have hbody : h'.body = h.body := by
    funext i
    rw [Host.body, hb, Host.body]
  exact {
    links p i hp    := hb ▸ f.links p i (hl p i hp)
    paired i store  := hbody ▸ f.paired i store
    seated r hr     := hbody ▸ f.seated r (hs r hr)
    held r hr       := f.held r (hs r hr) }

-- A new file is blank, as a body is that is not there.
theorem append (f : h.Founded) {d : Disk Body} (hb : d.bodies = h.disk.bodies ++ [.foreign []])
    (hl : ∀ p i, d.link? p = some (.file i) → h.disk.link? p = some (.file i) ∨
      i = h.disk.bodies.length) :
    { h with disk := d }.Founded := by
  have hbody : { h with disk := d }.body = h.body := by
    funext i
    simp only [Host.body, hb, List.getElem?_append]
    split
    case isTrue => rfl
    case isFalse hi =>
      rw [List.getElem?_eq_none (l := h.disk.bodies) (by omega)]
      cases i - h.disk.bodies.length <;> rfl
  refine ⟨fun p i hp => ?_, fun i store => hbody ▸ f.paired i store, fun r hr =>
    hbody ▸ f.seated r hr, f.held⟩
  have hlen : d.bodies.length = h.disk.bodies.length + 1 := by rw [hb, List.length_append]; rfl
  have hi : i ≤ h.disk.bodies.length := by
    obtain hold | hnew := hl p i hp
    · exact Nat.le_of_lt (f.links p i hold)
    · exact Nat.le_of_eq hnew
  exact hlen ▸ Nat.lt_succ_of_le hi

-- Other content in a file, with its `init` table where a table is open.
theorem setBody {b : Body} (f : h.Founded)
    (hp : ∀ store, b.store? = .ok store → store.content.Paired)
    (hi : ∀ r ∈ h.seats, r.2.body = i → ∀ store, b.store? = .ok store →
      store.content.init.isTable = true) :
    { h with disk := h.disk.setBody i b }.Founded where
  links p j hl := by
    rw [Disk.setBody, List.length_set]
    exact f.links p j hl
  paired j store hs := by
    rw [body_setBody] at hs
    split at hs
    · exact hp store hs
    · exact f.paired j store hs
  seated r hr store hs := by
    rw [body_setBody] at hs
    split at hs
    case isTrue hj => exact hi r hr hj.left.symm store hs
    case isFalse   => exact f.seated r hr store hs
  held := f.held

theorem assign (f : h.Founded) (label : String)
    (hi : ∀ store, (h.body s.body).store? = .ok store → store.content.init.isTable = true)
    (hh : ∀ content, s.phase.held? = some content → content.Founded) :
    { h with seats := Host.assign label s h.seats }.Founded := by
  refine { f with seated := fun r hr => ?_, held := fun r hr => ?_ }
  · obtain rfl | hr := mem_of_mem_assign hr
    · exact hi
    · exact f.seated r hr
  · obtain rfl | hr := mem_of_mem_assign hr
    · exact hh
    · exact f.held r hr

theorem restore (f : h.Founded) (label : String) (hl : s.body < h.disk.bodies.length)
    (ht : t.conn.Throughout Content.Founded) : (h.restore label s t).Founded := by
  have hset : { h with disk := h.disk.setBody s.body t.conn.body }.Founded :=
    f.setBody (fun store hs => (ht.body store hs).paired) fun _ _ _ store hs =>
      (ht.body store hs).init
  have hput := hset.assign label (s := { s with phase := t.conn.phase, cursor := t.cursor })
    (fun store hs => (ht.body store (by rwa [body_setBody, if_pos ⟨rfl, hl⟩] at hs)).init) ht.held
  exact { hput with }

end Founded

end Host

end AccountCache
