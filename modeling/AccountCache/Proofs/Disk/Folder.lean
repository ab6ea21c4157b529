import AccountCache.Naming
import AccountCache.Proofs.Disk.Files

namespace AccountCache

open Naming (join)

namespace Place

variable {f g path root : String} {p r : Place}

-- A step that leads from a directory to what is in it, or back.
structure IsStep (f : String) : Prop where
  slash : '/' ∉ f.toList
  empty : f ≠ ""
  dot   : f ≠ "."

theorem isStep_of_length (hs : '/' ∉ f.toList) (hl : 2 ≤ f.length) : IsStep f := by
  refine ⟨hs, ?_, ?_⟩ <;>
    · rintro rfl
      contradiction

theorem join_of_notMem (root : String) (hf : '/' ∉ f.toList) :
    join root f = if root = "" ∨ root.endsWith "/" then root ++ f else root ++ "/" ++ f := by
  have hs : f.startsWith "/" = false := by
    rw [String.startsWith_string_eq_false_iff]
    exact fun hp => hf (hp.subset (by decide))
  unfold join
  rw [hs, if_neg Bool.false_ne_true]

theorem join_of_isStep (root : String) (hf : IsStep f) :
    join root f = if root = "" ∨ root.endsWith "/" then root ++ f else root ++ "/" ++ f :=
  join_of_notMem root hf.slash

theorem join_injective (root : String) (hf : IsStep f) (hg : IsStep g)
    (h : join root f = join root g) : f = g := by
  rw [join_of_isStep root hf, join_of_isStep root hg] at h
  split at h <;> exact String.append_right_inj _ |>.mp h

theorem notMem_append {x : String} (hf : '/' ∉ f.toList) (hx : '/' ∉ x.toList) :
    '/' ∉ (f ++ x).toList := by
  rw [String.toList_append, List.mem_append, not_or]
  exact ⟨hf, hx⟩

theorem join_append {x : String} (root : String) (hf : '/' ∉ f.toList) (hx : '/' ∉ x.toList) :
    join root f ++ x = join root (f ++ x) := by
  rw [join_of_notMem root hf, join_of_notMem root (notMem_append hf hx)]
  split <;> simp only [String.append_assoc]

theorem split_of_notMem {cs : List Char} (h : '/' ∉ cs) : split cs = [cs] := by
  obtain ⟨init, seg, hs, hsx⟩ := Disk.split_append [] h
  obtain ⟨rfl, hseg⟩ := List.append_eq_singleton_iff.mp hs.symm |>.resolve_right (by simp)
  rw [← List.nil_append cs, hsx]
  simpa using hseg

theorem split_slash (a b : List Char) : split (a ++ '/' :: b) = split a ++ split b := by
  induction a
  case nil => rfl
  case cons c cs ih =>
    simp only [List.cons_append, split, ih]
    split
    case isTrue  => rfl
    case isFalse =>
      obtain ⟨init, seg, hs, _⟩ := Disk.split_append cs (List.not_mem_nil (a := '/'))
      rw [hs]
      cases init <;> rfl

-- A name without a slash is one step away from a directory, or none.
theorem steps_join_of_notMem (root : String) (hf : '/' ∉ f.toList) :
    steps (join root f) = steps root ++ [f].filter fun part => part ≠ "" ∧ part ≠ "." := by
  rw [join_of_notMem root hf]
  split
  case isTrue h =>
    obtain rfl | hslash := h
    case inl => simp [steps, split_of_notMem hf, split]
    case inr =>
      obtain ⟨a, ha⟩ := String.Slice.endsWith_string_iff.mp hslash
      have ha : root.toList = a ++ ['/'] := by simpa using ha.symm
      have hroot := split_slash a []
      have hfile := split_slash a f.toList
      simp only [steps, String.toList_append, ha, List.append_assoc, List.singleton_append,
        hroot, hfile, split_of_notMem hf, List.map_append, List.filter_append, List.map_cons,
        List.map_nil, String.ofList_toList]
      simp [split]
  case isFalse =>
    have hfile := split_slash root.toList f.toList
    have hone : "/".toList = ['/'] := rfl
    simp only [steps, String.toList_append, hone, List.append_assoc, List.singleton_append, hfile,
      split_of_notMem hf, List.map_append, List.filter_append, List.map_cons, List.map_nil,
      String.ofList_toList]

theorem steps_join (root : String) (hf : IsStep f) : steps (join root f) = steps root ++ [f] := by
  rw [steps_join_of_notMem root hf.slash]
  simp [hf.empty, hf.dot]

def next (r : Place) (f : String) : Except FileFault Place :=
  if f = ".." then .ok r.dropLast else if isTooLong f then .error .nameTooLong else .ok (r ++ [f])

theorem next_injective (hf : next r f = .ok p) (hg : next r g = .ok p) : f = g := by
  have back (x : String) : r.dropLast ≠ r ++ [x] := by
    intro h
    have hlen := congrArg List.length h
    rw [List.length_dropLast, List.length_append, List.length_singleton] at hlen
    omega
  unfold next at hf hg
  split at hf
  case isTrue hf' =>
    cases hf
    split at hg
    case isTrue hg' => rw [hf', hg']
    case isFalse =>
      split at hg
      · cases hg
      · exact absurd (Except.ok.inj hg).symm (back g)
  case isFalse =>
    split at hf
    case isTrue  => cases hf
    case isFalse =>
      cases hf
      split at hg
      case isTrue => exact absurd (Except.ok.inj hg) (back f)
      case isFalse =>
        split at hg
        · cases hg
        · simpa using (Except.ok.inj hg).symm

def InFolder (root path : String) : Prop := ∃ f, IsStep f ∧ path = join root f

end Place

namespace Disk

variable {β : Type} {d d' : Disk β} {root path f : String} {p r : Place} {i : Nat}
    {l : Option Link} {fresh : β}

structure Folder (root : String) (r : Place) (d : Disk β) : Prop where
  follow : d.follow [] (Place.steps root) = .ok r
  link   : d.link? r = some .directory

namespace Folder

theorem parallel (hd : d.Folder root r) (hp : Parallel d d') : d'.Folder root r where
  follow := follow_mono (fun p => (hp p).mp) hd.follow
  link   := (hp r).mp hd.link

theorem congr (hd : d.Folder root r) (hl : d'.links = d.links) : d'.Folder root r where
  follow := (follow_congr hl).trans hd.follow
  link   := (link?_congr hl r).trans hd.link

theorem place_join (hd : d.Folder root r) (hf : Place.IsStep f) :
    d.place (join root f) = Place.next r f := by
  rw [place, Place.steps_join root hf, follow_append, hd.follow]
  simp only [Except.bind, Disk.follow, hd.link, Place.next]

-- Where a path leads to is settled by the root.
theorem place_congr (hd : d.Folder root r) (hd' : d'.Folder root r)
    (hp : Place.InFolder root path) :
    d'.place path = d.place path := by
  obtain ⟨f, hf, rfl⟩ := hp
  rw [hd.place_join hf, hd'.place_join hf]

theorem place_ne {x : String} (hd : d.Folder root r) (hp : Place.InFolder root path)
    (hx : Place.InFolder root x)
    (hne : x ≠ path) (hpl : d.place path = .ok p) : d.place x ≠ .ok p := by
  obtain ⟨f, hf, rfl⟩ := hp
  obtain ⟨g, hg, rfl⟩ := hx
  rw [hd.place_join hf] at hpl
  rw [hd.place_join hg]
  intro h
  exact hne (congrArg (join root) (Place.next_injective h hpl))

end Folder

-- The path leads to the link, and the rest of the root is as it was.
structure Relinks (root path : String) (l : Option Link) (d d' : Disk β) : Prop where
  parallel : Parallel d d'
  found    : d'.find? path = l
  others   : ∀ x, Place.InFolder root x → x ≠ path → d'.find? x = d.find? x

theorem relinks_of_place (hd : d.Folder root r) (hp : Place.InFolder root path)
    (hpl : d.place path = .ok p)
    (par : Parallel d d') (hl : d'.link? p = l) (hq : ∀ q, q ≠ p → d'.link? q = d.link? q) :
    Relinks root path l d d' := by
  have place {x : String} (hx : Place.InFolder root x) := hd.place_congr (hd.parallel par) hx
  refine ⟨par, ?_, fun x hx hne => ?_⟩
  · rw [find?, place hp, hpl]
    exact hl
  · rw [find?, find?, place hx]
    cases hxp : d.place x
    case error => rfl
    case ok q  =>
      have hne' : q ≠ p := fun h => hd.place_ne hp hx hne hpl (h ▸ hxp)
      exact hq q hne'

theorem unlink_relinks (hd : d.Folder root r) (hp : Place.InFolder root path)
    (h : d.unlink path = .ok d') :
    Relinks root path none d d' := by
  obtain ⟨loses, _, _⟩ := unlink_spec h
  obtain ⟨_, hf⟩ | ⟨p, i, hpl, hl, hd₁⟩ := unlink_cases path d
  case inl => cases h.symm.trans hf
  case inr =>
    cases h.symm.trans hd₁
    have hq (q : Place) : (⟨d.links.filter (·.1 ≠ p), d.bodies⟩ : Disk β).link? q =
        if q = p then none else d.link? q :=
      link?_filter rfl (ne_nil_of_link?_eq_file hl)
    exact relinks_of_place hd hp hpl loses.parallel (by rw [hq, if_pos rfl]) fun q hne => by
      rw [hq, if_neg hne]

theorem find?_of_place (hpl : d.place path = .ok p) : d.find? path = d.link? p := by rw [find?, hpl]

structure Adds (root path : String) (fresh : β) (d d' : Disk β) : Prop
    extends Relinks root path (some (.file d.bodies.length)) d d' where
  bodies : d'.bodies = d.bodies ++ [fresh]

theorem openFile_adds (hd : d.Folder root r) (hp : Place.InFolder root path)
    (hpl : d.place path = .ok p) (hl : d.link? p = none) (fresh : β) :
    ∃ d', d.openFile path fresh = .ok (d.bodies.length, d') ∧ Adds root path fresh d d' := by
  have ho : d.openFile path fresh = .ok (d.bodies.length,
      ⟨(p, .file d.bodies.length) :: d.links, d.bodies ++ [fresh]⟩) := by
    simp only [openFile, hpl, bind, Except.bind, hl]
    rfl
  obtain ⟨hf, _⟩ | ⟨_, _, _, _, _, par⟩ := openFile_cases ho
  case inl => cases (file?_eq_none hpl hl).symm.trans hf
  case inr =>
    have hq (q : Place) :
        (⟨(p, .file d.bodies.length) :: d.links, d.bodies ++ [fresh]⟩ : Disk β).link? q =
        if q = p then some (.file d.bodies.length) else d.link? q :=
      link?_cons rfl (ne_nil_of_link?_eq_none hl)
    have relinks := relinks_of_place hd hp hpl par (by rw [hq, if_pos rfl]) fun q hne => by
      rw [hq, if_neg hne]
    exact ⟨_, ho, relinks, rfl⟩

structure Separate (d : Disk β) : Prop where
  bound  : ∀ p i, d.link? p = some (.file i) → i < d.bodies.length
  unique : ∀ p q i, d.link? p = some (.file i) → d.link? q = some (.file i) → p = q

theorem Separate.paved (s : d.Separate) (hp : Paved d d') : d'.Separate where
  bound p i h      := hp.bodies ▸ s.bound p i (hp.files p i h)
  unique p q i h k := s.unique p q i (hp.files p i h) (hp.files q i k)

def Free (d : Disk β) (path : String) : Prop := ∃ p, d.place path = .ok p ∧ d.link? p = none

theorem Free.unlink (h : d.Free path) : d.unlink path = .error .notFound := by
  obtain ⟨p, hp, hl⟩ := h
  simp only [Disk.unlink, hp, bind, Except.bind, hl]
  rfl

theorem Free.openFile (h : d.Free path) (fresh : β) :
    ∃ d', d.openFile path fresh = .ok (d.bodies.length, d') := by
  obtain ⟨p, hp, hl⟩ := h
  exact ⟨_, by simp only [Disk.openFile, hp, bind, Except.bind, hl]; rfl⟩

end Disk

-- What two paths lead to, where bodies stand for bodies.
inductive Link.Twin (T : Nat → Nat → Prop) : Option Link → Option Link → Prop
  | none : Twin T .none .none
  | directory : Twin T (some .directory) (some .directory)
  | file {i j : Nat} : T i j → Twin T (some (.file i)) (some (.file j))

namespace Disk

variable {β : Type} {d d' : Disk β} {T : Nat → Nat → Prop} {root path : String} {r : Place}

theorem unlink_twin (hpl : d'.place path = d.place path)
    (t : Link.Twin T (d.find? path) (d'.find? path)) :
    (∃ f, d.unlink path = .error f ∧ d'.unlink path = .error f) ∨
    ∃ d₁ d₁', d.unlink path = .ok d₁ ∧ d'.unlink path = .ok d₁' := by
  unfold unlink
  rw [hpl]
  cases hp : d.place path
  case error f => exact .inl ⟨f, rfl, rfl⟩
  case ok p =>
    rw [find?_of_place hp, find?_of_place (hpl.trans hp)] at t
    simp only [bind, Except.bind]
    generalize d.link? p = l at t
    generalize d'.link? p = l' at t
    cases t
    case none      => exact .inl ⟨_, rfl, rfl⟩
    case directory => exact .inl ⟨_, rfl, rfl⟩
    case file      => exact .inr ⟨_, _, rfl, rfl⟩

theorem openFile_twin (hd : d.Folder root r) (hd' : d'.Folder root r)
    (hp : Place.InFolder root path) (t : Link.Twin T (d.find? path) (d'.find? path)) (fresh : β) :
    (∃ f, d.openFile path fresh = .error f ∧ d'.openFile path fresh = .error f) ∨
    (∃ i j, T i j ∧ d.openFile path fresh = .ok (i, d) ∧ d'.openFile path fresh = .ok (j, d')) ∨
    ∃ d₁ d₁', d.openFile path fresh = .ok (d.bodies.length, d₁) ∧ Adds root path fresh d d₁ ∧
      d'.openFile path fresh = .ok (d'.bodies.length, d₁') ∧ Adds root path fresh d' d₁' := by
  have hpl := hd.place_congr hd' hp
  cases hplace : d.place path <;> rw [hplace] at hpl
  case error f => exact .inl ⟨f, by simp only [openFile, hplace, bind, Except.bind], by
    simp only [openFile, hpl, bind, Except.bind]⟩
  case ok p =>
    rw [find?_of_place hplace, find?_of_place hpl] at t
    generalize hl : d.link? p = l at t
    generalize hl' : d'.link? p = l' at t
    cases t
    case none =>
      obtain ⟨d₁, ho, adds⟩ := openFile_adds hd hp hplace hl fresh
      obtain ⟨d₁', ho', adds'⟩ := openFile_adds hd' hp hpl hl' fresh
      exact .inr (.inr ⟨d₁, d₁', ho, adds, ho', adds'⟩)
    case directory =>
      exact .inl ⟨.isDirectory, by simp only [openFile, hplace, bind, Except.bind, hl]; rfl, by
        simp only [openFile, hpl, bind, Except.bind, hl']; rfl⟩
    case file i j hij =>
      exact .inr (.inl ⟨i, j, hij, openFile_of_file? (file?_eq_some.mpr ⟨p, hplace, hl⟩),
        openFile_of_file? (file?_eq_some.mpr ⟨p, hpl, hl'⟩)⟩)

end Disk
end AccountCache
