import AccountCache.Proofs.Disk.Directories
import AccountCache.Naming

namespace AccountCache

namespace Disk

variable {β : Type} {d d' : Disk β} {p q : Place} {steps : List String} {path : String} {i : Nat}

theorem openFile_cases {fresh : β} (h : d.openFile path fresh = .ok (i, d')) :
    (d.file? path = some i ∧ d' = d) ∨
    (d.file? path = none ∧ i = d.bodies.length ∧ d'.file? path = some i ∧
      d'.bodies = d.bodies ++ [fresh] ∧ Within d d' ∧ Parallel d d') := by
  unfold openFile at h
  cases hp : d.place path <;> simp only [hp, bind, Except.bind] at h
  case error => contradiction
  case ok p =>
    cases hl : d.link? p <;> simp only [hl] at h
    case none =>
      cases h
      have hlinks : (⟨(p, .file d.bodies.length) :: d.links, d.bodies ++ [fresh]⟩ : Disk β).links =
        (p, .file d.bodies.length) :: d.links := rfl
      have hw := within_cons hlinks hl
      have hc q := link?_cons (p := q) hlinks (ne_nil_of_link?_eq_none hl)
      refine .inr ⟨file?_eq_none hp hl, rfl, ?_, rfl, hw, fun q => ⟨hw q _, fun hq => ?_⟩⟩
      · exact file?_eq_some.mpr ⟨p, place_mono (fun q => hw q _) hp, by rw [hc, if_pos rfl]⟩
      · rw [hc] at hq
        split at hq
        · cases hq
        · exact hq
    case some l =>
      cases l <;> simp only at h
      case directory => contradiction
      case file      => cases h; exact .inl ⟨file?_eq_some.mpr ⟨p, hp, hl⟩, rfl⟩

theorem openFile_links {fresh : β} {j : Nat} (h : d.openFile path fresh = .ok (i, d')) (p : Place)
    (hp : d'.link? p = some (.file j)) : d.link? p = some (.file j) ∨ j = d.bodies.length := by
  unfold openFile at h
  cases hq : d.place path <;> simp only [hq, bind, Except.bind] at h
  case error => contradiction
  case ok q =>
    rcases hl : d.link? q with _ | _ | _ <;> simp only [hl] at h <;> cases h
    case some.file.refl => exact .inl hp
    case none.refl =>
      rw [link?_cons rfl (ne_nil_of_link?_eq_none hl)] at hp
      split at hp
      · cases hp; exact .inr rfl
      · exact .inl hp

theorem openFile_of_file? {fresh : β} (h : d.file? path = some i) :
    d.openFile path fresh = .ok (i, d) := by
  have ⟨p, hp, hl⟩ := file?_eq_some.mp h
  simp only [openFile, hp, bind, Except.bind, hl]
  rfl

theorem unlink_cases (path : String) (d : Disk β) :
    (∃ f, d.unlink path = .error f) ∨
    ∃ p i, d.place path = .ok p ∧ d.link? p = some (.file i) ∧
      d.unlink path = .ok { d with links := d.links.filter (·.1 ≠ p) } := by
  unfold unlink
  cases hp : d.place path <;> simp only [bind, Except.bind]
  case error f => exact .inl ⟨f, rfl⟩
  case ok p =>
    cases hl : d.link? p
    case none => exact .inl ⟨_, rfl⟩
    case some l =>
      cases l
      case directory => exact .inl ⟨_, rfl⟩
      case file i    => exact .inr ⟨p, i, rfl, hl, rfl⟩

theorem link?_filter (h : d'.links = d.links.filter (·.1 ≠ p)) (hp : p ≠ []) :
    d'.link? q = if q = p then none else d.link? q := by
  by_cases hq : q = []
  case pos => simp [hq, link?, Ne.symm hp]
  case neg => rw [link?_eq_lookup hq, link?_eq_lookup hq, h, lookup_filter_ne]

theorem ne_nil_of_link?_eq_file (h : d.link? p = some (.file i)) : p ≠ [] := by
  rintro rfl
  simp [link?] at h

-- Only links to files are lost.
structure Loses (d d' : Disk β) : Prop where
  bodies   : d'.bodies = d.bodies
  parallel : Parallel d d'
  within   : Within d' d

protected theorem Loses.refl : Loses d d := ⟨rfl, fun _ => .rfl, .refl⟩

protected theorem Loses.trans (h : Loses d₁ d₂) (h' : Loses d₂ d₃) : Loses (β := β) d₁ d₃ where
  bodies   := h'.bodies.trans h.bodies
  parallel := h.parallel.trans h'.parallel
  within   := h'.within.trans h.within

theorem Loses.file?_eq_none (h : Loses d d') (hf : d.file? path = none) : d'.file? path = none := by
  cases hf' : d'.file? path
  case none   => rfl
  case some i => cases hf.symm.trans (h.within.file? hf')

theorem unlink_spec (h : d.unlink path = .ok d') :
    Loses d d' ∧ d'.file? path = none ∧
      ∃ p, d.place path = .ok p ∧ ∀ q, q ≠ p → d'.link? q = d.link? q := by
  obtain ⟨_, h'⟩ | ⟨p, i, hp, hl, h'⟩ := unlink_cases path d
  case inl => simp [h] at h'
  case inr =>
    cases h.symm.trans h'
    have hlinks : { d with links := d.links.filter (·.1 ≠ p) }.links =
      d.links.filter (·.1 ≠ p) := rfl
    have hf q := link?_filter (q := q) hlinks (ne_nil_of_link?_eq_file hl)
    have par : Parallel d { d with links := d.links.filter (·.1 ≠ p) } := by
      intro q
      rw [hf]
      split
      case isTrue hq => simp [hq, hl]
      case isFalse   => rfl
    have sub : Within { d with links := d.links.filter (·.1 ≠ p) } d := by
      intro q l hq
      rw [hf] at hq
      split at hq
      · cases hq
      · exact hq
    refine ⟨⟨rfl, par, sub⟩, ?_, p, hp, fun q hq => by rw [hf, if_neg hq]⟩
    exact file?_eq_none (place_mono (fun q => (par q).mp) hp) (by rw [hf, if_pos rfl])

theorem unlink_of_file? (h : d.file? path = some i) : ∃ d', d.unlink path = .ok d' := by
  have ⟨p, hp, hl⟩ := file?_eq_some.mp h
  exact ⟨_, by simp only [unlink, hp, bind, Except.bind, hl]; rfl⟩

theorem split_append {xs : List Char} (cs : List Char) (hx : '/' ∉ xs) :
    ∃ init seg, Place.split cs = init ++ [seg] ∧ Place.split (cs ++ xs) = init ++ [seg ++ xs] := by
  induction cs
  case nil =>
    refine ⟨[], [], rfl, ?_⟩
    induction xs
    case nil => rfl
    case cons x xs ih =>
      simp only [List.mem_cons, not_or] at hx
      have hs : Place.split xs = [xs] := ih hx.right
      simp [Place.split, Ne.symm hx.left, hs]
  case cons c cs ih =>
    obtain ⟨init, seg, hs, hsx⟩ := ih
    by_cases hc : c = '/'
    case pos =>
      exact ⟨[] :: init, seg, by simp [Place.split, hc, hs], by simp [Place.split, hc, hsx]⟩
    case neg =>
      cases init
      case nil            =>
        exact ⟨[], c :: seg, by simp [Place.split, hc, hs], by simp [Place.split, hc, hsx]⟩
      case cons part init =>
        exact ⟨(c :: part) :: init,
          seg, by simp [Place.split, hc, hs], by simp [Place.split, hc, hsx]⟩

-- The last step is longer, so it is neither left out nor a step back.
theorem steps_append {x : String} (path : String) (hx : '/' ∉ x.toList) (hl : 2 < x.length) :
    ∃ a seg, Place.steps path = a ++ [seg].filter (fun s => s ≠ "" ∧ s ≠ ".") ∧
      Place.steps (path ++ x) = a ++ [seg ++ x] := by
  obtain ⟨init, seg, hs, hsx⟩ := split_append path.toList hx
  have hn : String.ofList (seg ++ x.toList) = String.ofList seg ++ x := by
    rw [String.ofList_append, String.ofList_toList]
  have long : 2 < (String.ofList seg ++ x).length := by
    rw [String.length_append]; omega
  have kept : String.ofList seg ++ x ≠ "" ∧ String.ofList seg ++ x ≠ "." := by
    constructor <;> intro h <;> rw [h] at long <;> contradiction
  refine ⟨(init.map String.ofList).filter (fun s => s ≠ "" ∧ s ≠ "."), String.ofList seg, ?_, ?_⟩
  · simp [Place.steps, hs]
  · simp [Place.steps, hsx, hn, kept]

theorem append_ne_dots {seg x : String} (hl : 2 < x.length) : seg ++ x ≠ ".." := by
  intro h
  have hlen := congrArg String.length h
  have hdots : "..".length = 2 := rfl
  simp only [String.length_append] at hlen
  omega

theorem place_suffix_ne {x : String} (hx : '/' ∉ x.toList) (hl : 2 < x.length)
    (hp : d.place path = .ok p) (hf : d.link? p = some (.file i)) :
    d.place (path ++ x) ≠ .ok p := by
  intro hpx
  obtain ⟨a, seg, hs, hsx⟩ := steps_append path hx hl
  rw [place, hsx, follow_append] at hpx
  rw [place, hs, follow_append] at hp
  cases ha : d.follow [] a <;> rw [ha] at hp hpx
  case error => contradiction
  case ok q =>
    obtain ⟨hd, hq⟩ := follow_one (d := d) (p := q) (q := p) hpx
    rw [if_neg (append_ne_dots hl)] at hq
    by_cases hseg : seg ≠ "" ∧ seg ≠ "."
    case neg =>
      have hn : [seg].filter (fun s => s ≠ "" ∧ s ≠ ".") = [] := by simp [hseg]
      rw [hn] at hp
      cases hp
      simp [hd] at hf
    case pos =>
      have hn : [seg].filter (fun s => s ≠ "" ∧ s ≠ ".") = [seg] := by simp [hseg]
      rw [hn] at hp
      obtain ⟨_, hq'⟩ := follow_one (d := d) (p := q) (q := p) hp
      split at hq'
      case isTrue =>
        have := congrArg List.length (hq.symm.trans hq')
        simp at this
        omega
      case isFalse =>
        have he : seg ++ x = seg := by simpa using hq.symm.trans hq'
        have := congrArg String.length he
        simp only [String.length_append] at this
        omega

theorem isTooLong_of_append {s x : String} (h : Place.isTooLong (s ++ x) = false) :
    Place.isTooLong s = false := by
  simp only [Place.isTooLong, String.utf8ByteSize_append, decide_eq_false_iff_not] at h ⊢
  omega

theorem place_of_append {x : String} (hx : '/' ∉ x.toList) (hl : 2 < x.length)
    (h : d.place (path ++ x) = .ok q) : ∃ p, d.place path = .ok p := by
  obtain ⟨a, seg, hs, hsx⟩ := steps_append path hx hl
  rw [place, hsx, follow_append] at h
  rw [place, hs, follow_append]
  cases ha : d.follow [] a <;> rw [ha] at h
  case error => contradiction
  case ok r =>
    simp only [Except.bind] at h ⊢
    by_cases hseg : seg ≠ "" ∧ seg ≠ "."
    case neg => exact ⟨r, by simp [hseg, follow]⟩
    case pos =>
      have hn : [seg].filter (fun s => s ≠ "" ∧ s ≠ ".") = [seg] := by simp [hseg]
      obtain ⟨hd, _⟩ := follow_one h
      rw [hn]
      by_cases hdots : seg = ".."
      case pos => exact ⟨r.dropLast, by simp [follow, hd, hdots]⟩
      case neg =>
        have hshort : Place.isTooLong seg = false := by
          apply isTooLong_of_append (x := x)
          apply Bool.eq_false_iff.mpr
          intro hlong
          simp [follow, hd, append_ne_dots hl, hlong] at h
        exact ⟨r ++ [seg], by simp [follow, hd, hdots, hshort]⟩

-- There is no file at the path, nor would there be one with the directory made.
def Lacks (root path : String) (d : Disk β) : Prop := (d.makePath root).2.file? path = none

theorem Lacks.file? {root : String} (h : d.Lacks root path) : d.file? path = none := by
  cases hf : d.file? path
  case none   => rfl
  case some i => cases h.symm.trans ((makePath_paved root d).within.file? hf)

theorem lacks_of_reaches {root : String} (hr : d.Reaches (Place.steps root))
    (h : d.file? path = none) : d.Lacks root path := by
  rw [Lacks, makePath_of_reaches hr]
  exact h

theorem Lacks.congr {root : String} (hd : d'.links = d.links) (h : d.Lacks root path) :
    d'.Lacks root path := by
  have he : d' = { d with bodies := d'.bodies } := by rw [← hd]
  have hm := makeDirectories_with_bodies (d := d) (Place.steps root).reverse d'.bodies
  have hl : (d'.makePath root).2.links = (d.makePath root).2.links := by
    rw [he, Disk.makePath, hm]
    rfl
  exact (file?_congr hl).trans h

theorem Lacks.makePath {root : String} (h : d.Lacks root path) :
    (d.makePath root).2.Lacks root path := by
  rw [Lacks, makePath_again]
  exact h

-- What is beside it can be deleted without bringing it about.
theorem Lacks.unlink {root x : String} (hx : '/' ∉ x.toList) (hl : 2 < x.length)
    (hd : d.unlink (path ++ x) = .ok d') (h : d.Lacks root path) : d'.Lacks root path := by
  have ⟨loses, _, q, hq, _⟩ := unlink_spec hd
  have ⟨p, hp⟩ := place_of_append hx hl hq
  have paved := makePath_paved root d'
  have hp' : (d'.makePath root).2.place path = .ok p :=
    place_mono (fun r hr => paved.within r _ ((loses.parallel r).mp hr)) hp
  cases hf : (d'.makePath root).2.file? path
  case none   => exact hf
  case some i =>
    have ⟨p', hp'', hlink⟩ := file?_eq_some.mp hf
    cases hp'.symm.trans hp''
    have hfound : d.file? path = some i :=
      file?_eq_some.mpr ⟨p, hp, loses.within p _ (paved.files p i hlink)⟩
    cases h.file?.symm.trans hfound

end Disk
end AccountCache
