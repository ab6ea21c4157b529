import AccountCache.Proofs.Host.Deleting
import AccountCache.Proofs.Isolation.Paths

namespace AccountCache

namespace Disk

variable {β : Type} {d d' : Disk β} {p q : Place} {steps : List String}
    {path root f x y : String} {i : Nat}
  {l : Link}

-- The path leads to a place, or would if the directories on its way were made.
def Settles (d : Disk β) (path : String) : Prop :=
  (∃ p, d.place path = .ok p) ∨ d.place path = .error .notFound

theorem find?_eq_some_iff : d.find? path = some l ↔
    ∃ p, d.place path = .ok p ∧ d.link? p = some l := by
  unfold find?
  cases d.place path <;> simp

-- The loss of files moves no path that is settled, for what is not there is not brought about.

theorem Loses.follow_of_notFound (loses : Loses d d') (h : d.follow p steps = .error .notFound) :
    d'.follow p steps = .error .notFound := by
  induction steps generalizing p
  case nil => cases h
  case cons step steps ih =>
    unfold follow at h ⊢
    rcases hl : d.link? p with _ | _ | i <;> simp only [hl] at h
    case none =>
      cases hl' : d'.link? p
      case none   => rfl
      case some l => cases hl.symm.trans (loses.within p l hl')
    case some.directory =>
      simp only [(loses.parallel p).mp hl]
      split at h
      case isTrue hs  => rw [if_pos hs]; exact ih h
      case isFalse hs =>
        rw [if_neg hs]
        split at h
        case isTrue     => cases h
        case isFalse ht => rw [if_neg ht]; exact ih h
    case some.file => cases h

theorem Loses.place (loses : Loses d d') (st : d.Settles path) : d'.place path = d.place path := by
  obtain ⟨p, hp⟩ | hp := st
  · rw [hp, place_mono (fun q => (loses.parallel q).mp) hp]
  · rw [hp, Disk.place, loses.follow_of_notFound hp]

theorem Loses.settles (loses : Loses d d') (st : d.Settles path) : d'.Settles path := by
  rw [Settles, loses.place st]
  exact st

theorem Loses.find?_eq_none (loses : Loses d d') (h : d.find? path = none) :
    d'.find? path = none := by
  cases hf : d'.find? path
  case none => rfl
  case some l =>
    obtain ⟨p, hp, hl⟩ := find?_eq_some_iff.mp hf
    have hp₀ : d.place path = .ok p := place_mono (fun q => (loses.parallel q).mpr) hp
    cases h.symm.trans (find?_eq_some_iff.mpr ⟨p, hp₀, loses.within p l hl⟩)

-- What becomes of an attempt to delete what is found at a settled path.

-- The file at the path has been deleted, and no other one.
structure Unlinks (path : String) (d d' : Disk β) : Prop where
  loses : Loses d d'
  gone  : d'.find? path = none
  link  : ∃ p i, d.place path = .ok p ∧ d.link? p = some (.file i) ∧ ∀ q, q ≠ p →
    d'.link? q = d.link? q

-- A file that the one path leads to is not what the other one leads to.
def Apart (d : Disk β) (x y : String) : Prop :=
  ∀ p i, d.place x = .ok p → d.link? p = some (.file i) → d.place y ≠ .ok p

theorem Loses.apart (loses : Loses d d') (hx : d.Settles x) (hy : d.Settles y) (a : d.Apart x y) :
    d'.Apart x y := by
  intro p i hp hl
  rw [loses.place hx] at hp
  rw [loses.place hy]
  exact a p i hp (loses.within p _ hl)

theorem Unlinks.find? (u : Unlinks x d d') (st : d.Settles y) (a : d.Apart x y) :
    d'.find? y = d.find? y := by
  obtain ⟨p, i, hp, hl, hq⟩ := u.link
  unfold Disk.find?
  rw [u.loses.place st]
  cases hy : d.place y
  case error => rfl
  case ok q  => exact hq q fun h => a p i hp hl (h ▸ hy)

-- The root is a directory or absent, and then no file or long name is in its place or on the way to
-- it.
structure Clears (d : Disk β) (root : String) : Prop where
  settles : d.Settles root
  noFile  : ∀ i, d.find? root ≠ some (.file i)

-- A short name without a slash leads to a place from a directory, and to none yet where there is
-- nothing.

theorem place_join_of_reaches (hr : d.Reaches (Place.steps root)) (hf : '/' ∉ f.toList)
    (hl : Place.isTooLong f = false) : ∃ p, d.place (Naming.join root f) = .ok p := by
  obtain ⟨r, hr, hlink⟩ := hr
  rw [Disk.place, Place.steps_join_of_notMem root hf, follow_append, hr]
  simp only [Except.bind]
  by_cases hstep : f ≠ "" ∧ f ≠ "."
  case neg => exact ⟨r, by simp [hstep, follow]⟩
  case pos =>
    rw [List.filter_cons_of_pos (by simpa using hstep), List.filter_nil]
    by_cases hdots : f = ".."
    case pos => exact ⟨r.dropLast, by simp [follow, hlink, hdots]⟩
    case neg => exact ⟨r ++ [f], by simp [follow, hlink, hdots, hl]⟩

theorem settles_join_of_free (hr : d.Free root) (hf : '/' ∉ f.toList) :
    d.Settles (Naming.join root f) := by
  obtain ⟨r, hr, hlink⟩ := hr
  rw [Disk.place] at hr
  rw [Settles, Disk.place, Place.steps_join_of_notMem root hf, follow_append, hr]
  simp only [Except.bind]
  by_cases hstep : f ≠ "" ∧ f ≠ "."
  case neg => exact .inl ⟨r, by simp [hstep, follow]⟩
  case pos =>
    rw [List.filter_cons_of_pos (by simpa using hstep), List.filter_nil]
    exact .inr (by simp only [follow, hlink])

theorem Clears.settles_join (c : d.Clears root) (hf : '/' ∉ f.toList)
    (hl : Place.isTooLong f = false) :
    d.Settles (Naming.join root f) := by
  obtain ⟨r, hr⟩ | hr := c.settles
  case inr =>
    right
    rw [Disk.place] at hr
    rw [Disk.place, Place.steps_join_of_notMem root hf, follow_append, hr]
    rfl
  case inl =>
    rcases hlink : d.link? r with _ | _ | i
    case none           => exact settles_join_of_free ⟨r, hr, hlink⟩ hf
    case some.directory => exact .inl (place_join_of_reaches ⟨r, hr, hlink⟩ hf hl)
    case some.file      => exact absurd (find?_eq_some_iff.mpr ⟨r, hr, hlink⟩) (c.noFile i)

end Disk

namespace Naming

variable {β : Type} {n : Naming} {name x : String} {d : Disk β}

-- The files of the store lie in the root, and their names are short enough.
structure Short (n : Naming) (name : String) : Prop where
  lead      : '/' ∉ n.lead.toList
  extension : '/' ∉ n.extension.toList
  lengths   : ∀ x ∈ endings, Place.isTooLong (n.fileName name ++ x) = false

namespace Short

theorem slash (sh : n.Short name) (ha : accepts name = true) : '/' ∉ (n.fileName name).toList :=
  slash_of_fileName sh.lead sh.extension ha

theorem settles (sh : n.Short name) (ha : accepts name = true) (c : d.Clears n.root)
    (hx : x ∈ Host.storeFiles (n.file name)) : d.Settles x := by
  have hf := sh.slash ha
  rw [storeFiles_eq_of_slash hf] at hx
  obtain ⟨e, he, rfl⟩ := List.mem_map.mp hx
  exact c.settles_join (Place.notMem_append hf (slash_of_endings he)) (sh.lengths e he)

theorem apart (sh : n.Short name) (ha : accepts name = true) :
    (Host.storeFiles (n.file name)).Pairwise d.Apart := by
  have beside {e : String} (he : '/' ∉ e.toList) (hl : 2 < e.length) :
      d.Apart (n.file name) (n.file name ++ e) := fun p i hp hf => Disk.place_suffix_ne he hl hp hf
  have hf := sh.slash ha
  have step {e : String} (he : e ∈ endings) (hl : 2 < e.length) :
      Place.IsStep (n.fileName name ++ e) := by
    refine Place.isStep_of_length (Place.notMem_append hf (slash_of_endings he)) ?_
    rw [String.length_append]
    omega
  have hwal := step (e := "-wal") (by decide) (by decide)
  have hshm := step (e := "-shm") (by decide) (by decide)
  have logs : d.Apart (walPath (n.file name)) (shmPath (n.file name)) := by
    intro p i hp _
    rw [walPath, file, Place.join_append n.root hf (by decide)] at hp
    rw [shmPath, file, Place.join_append n.root hf (by decide)]
    have hr : d.Reaches (Place.steps n.root) := by
      rw [Disk.place, Place.steps_join n.root hwal] at hp
      exact Disk.reaches_of_follow hp
    obtain ⟨r, hr⟩ := hr
    have folder : d.Folder n.root r := ⟨hr.left, hr.right⟩
    refine folder.place_ne ⟨_, hwal, rfl⟩ ⟨_, hshm, rfl⟩ (fun he => ?_) hp
    have := String.append_right_inj _ |>.mp (Place.join_injective n.root hshm hwal he)
    contradiction
  simp only [Host.storeFiles, List.pairwise_cons, List.forall_mem_cons, List.not_mem_nil,
    false_implies, implies_true, and_true, List.Pairwise.nil]
  exact ⟨⟨beside (by decide) (by decide), beside (by decide) (by decide)⟩, logs⟩

end Short

end Naming

namespace Host

variable {h h' : Host} {path label name : String} {paths done rest : List String}
    {n : Naming} {s : Seat}

-- The one paths have been deleted, and the first of the others is a directory, if there are any.
structure Sweeps (done rest : List String) (d d' : Disk Body) : Prop where
  loses  : d.Loses d'
  gone   : ∀ x ∈ done, d.find? x ≠ some .directory ∧ d'.find? x = none
  kept   : ∀ x ∈ rest, d'.find? x = d.find? x
  stop   : ∀ x ∈ rest.head?, d.find? x = some .directory
  others : ∀ q, (∀ x ∈ done, d.place x ≠ .ok q) → d'.link? q = d.link? q

namespace Sweeps

variable {d d₁ d' : Disk Body} {x : String}

-- The paths at which something has been done may begin with one at which nothing is.
theorem skip (sw : Sweeps done rest d d') (hx : d.find? x = none) :
    Sweeps (x :: done) rest d d' where
  loses := sw.loses
  gone  := List.forall_mem_cons.mpr ⟨⟨by simp [hx], sw.loses.find?_eq_none hx⟩, sw.gone⟩
  kept  := sw.kept
  stop  := sw.stop
  others q hq := sw.others q (List.forall_mem_cons.mp hq).right

-- They may begin with that of a file that is deleted first, if no other path leads to it.
theorem delete (u : Disk.Unlinks x d d₁) (sw : Sweeps done rest d₁ d')
    (hs : ∀ y ∈ done ++ rest, d.Settles y)
    (ha : ∀ y ∈ done ++ rest, d.Apart x y) : Sweeps (x :: done) rest d d' := by
  have same : ∀ y ∈ done ++ rest, d₁.find? y = d.find? y := fun y hy => u.find? (hs y hy) (ha y hy)
  have before {y : String} (hy : y ∈ done) := List.mem_append_left rest hy
  have behind {y : String} (hy : y ∈ rest) := List.mem_append_right done hy
  obtain ⟨p, i, hp, hl, hq⟩ := u.link
  refine ⟨u.loses.trans sw.loses, List.forall_mem_cons.mpr ⟨⟨?_, sw.loses.find?_eq_none u.gone⟩,
    fun y hy => ?_⟩, fun y hy => (sw.kept y hy).trans (same y (behind hy)), fun y hy => ?_,
    fun q hdone => ?_⟩
  · rw [Disk.find?_of_place hp, hl]
    simp
  · rw [← same y (before hy)]
    exact sw.gone y hy
  · rw [← same y (behind (List.mem_of_mem_head? hy))]
    exact sw.stop y hy
  · obtain ⟨hx, hdone⟩ := List.forall_mem_cons.mp hdone
    rw [sw.others q fun y hy => by rw [u.loses.place (hs y (before hy))]; exact hdone y hy]
    exact hq q fun h => hx (h ▸ hp)

end Sweeps

end Host
end AccountCache
