import AccountCache.Proofs.Host.Deleting

namespace AccountCache

-- What happens to a host: it is asked for something, or another program works on its files.
inductive Event
  | request (r : Request)
  | edit (name : String) (edits : List Edit)
  | writeFile (path : String) (bytes : Bytes)
  | makeDirectory (path : String)

namespace Event

def run (n : Naming) (e : Event) (h : Host) : Host :=
  match e with
  | request r            => (r.run n h).2
  | edit name edits      => (h.edit n name edits).2
  | writeFile path bytes => (h.writeFile path bytes).2
  | makeDirectory path   => (h.makeDirectory path).2

def runAll (n : Naming) (es : List Event) (h : Host) : Host := es.foldl (fun h e => e.run n h) h

end Event

namespace Host

variable {h h' : Host} {n : Naming} {label path name : String} {i : Nat} {s : Seat} {t : Table}

-- Links lead to bodies that are there.
def Linked (h : Host) : Prop := ∀ p i, h.disk.link? p = some (.file i) → i < h.disk.bodies.length

-- So do the seats, and the root is there once a table has been opened.
structure Housed (n : Naming) (h : Host) : Prop where
  links  : h.Linked
  seated : ∀ r ∈ h.seats, r.2.body < h.disk.bodies.length
  rooted : ∀ r ∈ h.seats, h.disk.Reaches (Place.steps n.root)

namespace Housed

theorem seat (f : h.Housed n) (hs : h.seat? label = some s) :
    s.body < h.disk.bodies.length ∧ h.disk.Reaches (Place.steps n.root) :=
  ⟨f.seated _ (mem_of_seat? hs), f.rooted _ (mem_of_seat? hs)⟩

-- No directory and no body is lost, a new link leads to a body that is there, and no table sits
-- down.
theorem mono (f : h.Housed n)
    (hd : ∀ p, h.disk.link? p = some .directory → h'.disk.link? p = some .directory)
    (hb : h.disk.bodies.length ≤ h'.disk.bodies.length)
    (hl : ∀ p i, h'.disk.link? p = some (.file i) → h.disk.link? p = some (.file i) ∨
      i < h'.disk.bodies.length)
    (hs : ∀ r ∈ h'.seats, r ∈ h.seats) : h'.Housed n where
  links p i hp := by
    obtain hold | hnew := hl p i hp
    · exact Nat.lt_of_lt_of_le (f.links p i hold) hb
    · exact hnew
  seated r hr := Nat.lt_of_lt_of_le (f.seated r (hs r hr)) hb
  rooted r hr := (f.rooted r (hs r hr)).mono hd

theorem keep (f : h.Housed n)
    (hd : ∀ p, h.disk.link? p = some .directory → h'.disk.link? p = some .directory)
    (hb : h'.disk.bodies.length = h.disk.bodies.length)
    (hl : ∀ p i, h'.disk.link? p = some (.file i) → h.disk.link? p = some (.file i))
    (hs : ∀ r ∈ h'.seats, r ∈ h.seats) : h'.Housed n :=
  f.mono hd (Nat.le_of_eq hb.symm) (fun p i hp => .inl (hl p i hp)) hs

theorem paved (f : h.Housed n) {d : Disk Body} (hp : h.disk.Paved d) :
    { h with disk := d }.Housed n :=
  f.keep (fun p => hp.within p _) (congrArg List.length hp.bodies) hp.files fun _ hr => hr

theorem loses (f : h.Housed n) (l : Loses h h') : h'.Housed n :=
  f.keep (fun p => (l.disk.parallel p).mp) (congrArg List.length l.disk.bodies)
    (fun p _ => l.disk.within p _)
    (by rw [l.rest]; exact fun _ hr => hr)

theorem sheds (f : h.Housed n) (s : Sheds path h h') : h'.Housed n :=
  f.keep (fun p => (s.parallel p).mp) (congrArg List.length s.bodies) s.links
    (by rw [s.rest]; exact fun _ hr => hr)

theorem setBody (f : h.Housed n) (i : Nat) (b : Body) :
    { h with disk := h.disk.setBody i b }.Housed n :=
  f.keep (fun _ hp => hp) List.length_set (fun _ _ hl => hl) fun _ hr => hr

theorem unchanged (f : h.Housed n) (hd : h'.disk = h.disk) (hs : ∀ r ∈ h'.seats, r ∈ h.seats) :
    h'.Housed n := by
  refine f.keep ?_ (by rw [hd]) ?_ hs
  · rw [hd]; exact fun _ hp => hp
  · rw [hd]; exact fun _ _ hp => hp

theorem logs (f : h.Housed n) (l : Logs h h') : h'.Housed n :=
  f.unchanged l.disk (by rw [l.seats]; exact fun _ hr => hr)

theorem close (f : h.Housed n) (label : String) : (h.close label).2.Housed n :=
  f.unchanged close_disk (by rw [close_seats]; exact fun _ hr => (List.mem_filter.mp hr).left)

theorem opened (f : h.Housed n) {d : Disk Body} {b : Body}
    (ho : h.disk.openFile path b = .ok (i, d)) :
    { h with disk := d }.Housed n := by
  obtain ⟨_, rfl⟩ | ⟨_, _, _, hb, within, _⟩ := Disk.openFile_cases ho
  case inl => exact f
  case inr =>
    have hlen : d.bodies.length = h.disk.bodies.length + 1 := by rw [hb, List.length_append]; rfl
    refine f.mono (fun p => within p _) (hlen ▸ Nat.le_succ _) (fun p j hl => ?_) fun _ hr => hr
    obtain hold | hnew := Disk.openFile_links ho p hl
    · exact .inl hold
    · rw [hlen, hnew]
      exact .inr (Nat.lt_succ_self _)

-- A table that sits down, or is taken apart, has a body that is there.
theorem restore (f : h.Housed n) (label : String) (t : Table) (hb : s.body < h.disk.bodies.length)
    (hr : h.disk.Reaches (Place.steps n.root)) : (h.restore label s t).Housed n := by
  have set := f.setBody s.body t.conn.body
  refine ⟨set.links, fun r hm => ?_, fun r hm => ?_⟩ <;> obtain rfl | hm := mem_of_mem_assign hm
  · rwa [Host.restore, Disk.setBody, List.length_set]
  · exact set.seated r hm
  · exact Disk.Reaches.mono (d := h.disk) (fun _ hp => hp) hr
  · exact set.rooted r hm

theorem install (f : h.Housed n) (label : String) (t : Table) (e : Entropy)
    (hb : s.body < h.disk.bodies.length)
    (hr : h.disk.Reaches (Place.steps n.root)) : (h.install label s t e).Housed n := by
  have restored : { h.restore label s t with entropy := e }.Housed n :=
    { f.restore label t hb hr with }
  exact restored.sheds install_sheds

theorem table (f : h.Housed n) (label : String) (op : Op) :
    (h.onTable label op.run).2.Housed n := by
  unfold onTable
  split
  case h_1      => exact f
  case h_2 s hs => exact f.restore label _ (f.seat hs).left (f.seat hs).right

theorem discard (f : h.Housed n) (name : String) : (h.discard n name).2.Housed n := by
  cases hp : n.path name
  case error   => simpa only [Host.discard, hp] using f
  case ok path => exact (f.loses (deleteFiles_loses _ h)).logs (discard_logs hp)

theorem remove (f : h.Housed n) (label : String) : (h.remove label).2.Housed n := by
  cases hs : h.seat? label
  case none => simpa only [Host.remove, hs] using f
  case some => exact ((f.close label).loses (deleteFiles_loses _ _)).logs (remove_logs hs)

theorem rootMade (f : h.Housed n) : { h with disk := h.rooted n }.Housed n :=
  f.paved (Disk.makePath_paved ..)

theorem located (f : h.Housed n) (l : Located n path h i h') :
    h'.Housed n ∧ i < h'.disk.bodies.length := by
  have rooted := f.rootMade
  have hlt : i < h'.disk.bodies.length ∧ h.disk.bodies.length ≤ h'.disk.bodies.length := by
    obtain ⟨_, hf, hb⟩ | ⟨_, hi, hb⟩ := l.body
    case inl =>
      obtain ⟨p, _, hp⟩ := Disk.file?_eq_some.mp hf
      have hlt := rooted.links p i hp
      rw [rooted_bodies] at hlt
      rw [hb]
      exact ⟨hlt, Nat.le_refl _⟩
    case inr =>
      rw [hb, hi, List.length_append]
      exact ⟨Nat.lt_succ_self _, Nat.le_add_right ..⟩
  refine ⟨rooted.mono (fun p => (l.parallel p).mp) ?_ (fun p j hl => ?_) ?_, hlt.left⟩
  · rw [rooted_bodies]
    exact hlt.right
  · obtain hold | rfl := l.links p j hl
    · exact .inl hold
    · exact .inr hlt.left
  · rw [l.seats]
    exact fun _ hr => hr

theorem stopped (f : h.Housed n) (stops : Stops n path h h') : h'.Housed n := by
  obtain _ | ⟨located, _, _⟩ | ⟨_, arrives, _⟩ := stops
  case early  => exact f.rootMade
  case barred => exact (f.located located).left
  case unread => exact (f.located arrives.toLocated).left

-- A seat that is not ready is given up, and its body stays.
theorem settle (f : h.Housed n) (label : String) (o : StoreOptions)
    (hb : s.body < h.disk.bodies.length)
    (hr : h.disk.Reaches (Place.steps n.root)) : (h.settle label o s).2.Housed n := by
  rcases hp : (h.assemble label s).prepare o s.inMemory h.entropy with ⟨r, t, e⟩
  have installed := f.install label t e hb hr
  cases r
  case ok => rw [settle_of_ok hp]; exact installed
  case error =>
    rw [settle_of_error hp]
    have hlen : (h.install label s t e).disk.bodies.length = h.disk.bodies.length := by
      rw [install_sheds.bodies]
      exact List.length_set
    exact {
      links      := installed.links
      seated r m := hlen ▸ f.seated r m
      rooted r m := (f.rooted r m).mono fun p => (install_parallel p).mp }

theorem openNamed (f : h.Housed n) (label : String) (o : StoreOptions) (name key : String) :
    (h.openNamed label n o name key).2.Housed n := by
  cases hp : n.path name
  case error => simpa only [Host.openNamed, hp] using f
  case ok path =>
    obtain ⟨_, h', ho, stops⟩ | ⟨j, h₂, a, _, _, ho⟩ := openNamed_cases (h := h) label o key hp
    case inl => rw [ho]; exact f.stopped stops
    case inr =>
      obtain ⟨arrived, hb⟩ := f.located a.toLocated
      rw [ho]
      exact arrived.settle label o hb a.reaches

theorem request (f : h.Housed n) (q : Request) : (q.run n h).2.Housed n := by
  cases q
  case «open» label o name key => exact (f.close label).openNamed label o name key
  case close label             => exact f.close label
  case remove label            => exact f.remove label
  case discard name            => exact f.discard name
  case table label op          => exact f.table label op

theorem edit (f : h.Housed n) (name : String) (edits : List Edit) :
    (h.edit n name edits).2.Housed n := by
  have rooted := f.rootMade
  unfold Host.edit
  cases hp : n.path name
  case error => exact f
  case ok path =>
    rcases hm : h.disk.makePath n.root with ⟨_ | _, d⟩ <;> obtain rfl : h.rooted n = d :=
      congrArg Prod.snd hm
    case error => simpa only [hm] using rooted
    case ok =>
      simp only
      cases hl : locate path { h with disk := h.rooted n }
      case error => exact rooted
      case ok r =>
        obtain ⟨i, h₁⟩ := r
        have l := locate_located hm hl
        have housed₁ := (f.located l).left
        simp only
        split
        case h_1 => exact housed₁
        case h_2 h₂ ha =>
          have housed₂ : h₂.Housed n := by
            split at ha
            case isTrue => cases ha; exact housed₁
            case isFalse =>
              obtain ⟨_, hf, _⟩ | ⟨_, hok, a⟩ := adoptLog_cases l
              case inl => cases hf.symm.trans ha
              case inr => cases hok.symm.trans ha; exact (f.located a.toLocated).left
          exact housed₂.setBody ..

theorem makeDirectories (f : h.Housed n) (back : List String) :
    { h with disk := (h.disk.makeDirectories back).2 }.Housed n :=
  f.paved (Disk.makeDirectories_paved ..)

theorem writeFile (f : h.Housed n) (path : String) (bytes : Bytes) :
    (h.writeFile path bytes).2.Housed n := by
  have made := f.makeDirectories (parentSteps path).reverse
  unfold Host.writeFile
  rcases hm : h.disk.makeDirectories (parentSteps path).reverse with ⟨_ | _, d⟩ <;> rw [hm] at made
  case error => exact made
  case ok =>
    simp only
    cases ho : d.openFile path (.foreign bytes)
    case error => exact made
    case ok r  => exact (made.opened ho).setBody ..

theorem run (f : h.Housed n) (e : Event) : (e.run n h).Housed n := by
  cases e
  case request q            => exact f.request q
  case edit name edits      => exact f.edit name edits
  case writeFile path bytes => exact f.writeFile path bytes
  case makeDirectory path   => exact f.makeDirectories _

theorem runAll (f : h.Housed n) (es : List Event) : (Event.runAll n es h).Housed n := by
  induction es generalizing h
  case nil          => exact f
  case cons e es ih => exact ih (f.run e)

end Housed
end Host
end AccountCache
