import AccountCache.Disk

namespace AccountCache

theorem lookup_filter_ne [BEq κ] [LawfulBEq κ] [DecidableEq κ] (j k : κ) (l : List (κ × α)) :
    (l.filter (·.1 ≠ j)).lookup k = if k = j then none else l.lookup k := by
  induction l
  case nil => simp
  case cons r rs ih =>
    by_cases hr : r.1 = j
    case pos =>
      rw [List.filter_cons_of_neg (by simp [hr]), ih]
      split
      case isTrue    => rfl
      case isFalse h => rw [List.lookup_cons, beq_false_of_ne (hr ▸ h)]
    case neg =>
      rw [List.filter_cons_of_pos (by simp [hr]), List.lookup_cons, List.lookup_cons, ih]
      by_cases hk : k = r.1
      · simp [hk, hr]
      · simp [beq_false_of_ne hk]

namespace Disk

variable {β : Type} {d d' : Disk β} {p q : Place} {steps : List String} {path : String} {i : Nat}

def Within (d d' : Disk β) : Prop := ∀ p l, d.link? p = some l → d'.link? p = some l

def Parallel (d d' : Disk β) : Prop :=
  ∀ p, d.link? p = some .directory ↔ d'.link? p = some .directory

theorem Within.refl : Within d d := fun _ _ h => h

theorem Within.trans (h : Within d₁ d₂) (h' : Within d₂ d₃) : Within (β := β) d₁ d₃ :=
  fun p l hl => h' p l (h p l hl)

theorem Parallel.symm (h : Parallel d d') : Parallel d' d := fun p => (h p).symm

theorem Parallel.trans (h : Parallel d₁ d₂) (h' : Parallel d₂ d₃) : Parallel (β := β) d₁ d₃ :=
  fun p => (h p).trans (h' p)

theorem follow_mono (h : ∀ p, d.link? p = some .directory → d'.link? p = some .directory)
    (hf : d.follow p steps = .ok q) : d'.follow p steps = .ok q := by
  induction steps generalizing p
  case nil => exact hf
  case cons step steps ih =>
    unfold follow at hf ⊢
    cases hl : d.link? p <;> simp only [hl] at hf
    case none => contradiction
    case some l =>
      cases l <;> simp only at hf
      case file => contradiction
      case directory =>
        simp only [h p hl]
        split at hf
        case isTrue hs  => rw [if_pos hs]; exact ih hf
        case isFalse hs =>
          rw [if_neg hs]
          split at hf
          case isTrue     => contradiction
          case isFalse ht => rw [if_neg ht]; exact ih hf

theorem place_mono (h : ∀ p, d.link? p = some .directory → d'.link? p = some .directory)
    (hp : d.place path = .ok p) : d'.place path = .ok p :=
  follow_mono h hp

theorem Within.file? (h : Within d d') (hf : d.file? path = some i) : d'.file? path = some i := by
  unfold Disk.file? find? at hf ⊢
  cases hp : d.place path <;> simp only [hp] at hf
  case error => contradiction
  case ok p =>
    rw [place_mono (fun p => h p _) hp]
    cases hl : d.link? p <;> simp only [hl] at hf
    case none   => contradiction
    case some l => simp only [h p l hl, hf]

theorem Parallel.find?_eq_directory (h : Parallel d d') :
    d.find? path = some .directory ↔ d'.find? path = some .directory := by
  have one {d d' : Disk β} (h : Parallel d d') (hf : d.find? path = some .directory) :
      d'.find? path = some .directory := by
    unfold find? at hf ⊢
    cases hp : d.place path <;> simp only [hp] at hf
    case error => contradiction
    case ok p =>
      rw [place_mono (fun p => (h p).mp) hp]
      exact (h p).mp hf
  exact ⟨one h, one h.symm⟩

theorem file?_eq_some : d.file? path = some i ↔
    ∃ p, d.place path = .ok p ∧ d.link? p = some (.file i) := by
  unfold file? find?
  cases d.place path
  case error => simp
  case ok p  =>
    cases hl : d.link? p
    case none   => simp [hl]
    case some l => cases l <;> simp [hl]

theorem file?_eq_none (hp : d.place path = .ok p) (hl : d.link? p = none) :
    d.file? path = none := by
  simp [file?, find?, hp, hl]

theorem link?_congr (h : d'.links = d.links) (p : Place) : d'.link? p = d.link? p := by
  cases p
  case nil  => rfl
  case cons => simp only [link?, h]

theorem Parallel.of_links (h : d'.links = d.links) : Parallel d d' :=
  fun p => by rw [link?_congr h]

theorem Within.of_links (h : d'.links = d.links) : Within d d' :=
  fun p _ hl => by rw [link?_congr h, hl]

theorem link?_eq_lookup (h : p ≠ []) : d.link? p = d.links.lookup p := by
  unfold link?
  split <;> simp_all

theorem link?_cons {l : Link} (h : d'.links = (q, l) :: d.links) (hq : q ≠ []) :
    d'.link? p = if p = q then some l else d.link? p := by
  by_cases hp : p = []
  case pos => simp [hp, link?, Ne.symm hq]
  case neg =>
    rw [link?_eq_lookup hp, link?_eq_lookup hp, h, List.lookup_cons]
    by_cases hpq : p = q
    · simp [hpq]
    · simp [hpq, beq_false_of_ne hpq]

theorem ne_nil_of_link?_eq_none (h : d.link? p = none) : p ≠ [] := by
  rintro rfl
  simp [link?] at h

theorem within_cons {l : Link} (h : d'.links = (q, l) :: d.links) (hq : d.link? q = none) :
    Within d d' := by
  intro p l' hp
  rw [link?_cons h (ne_nil_of_link?_eq_none hq), if_neg, hp]
  rintro rfl
  simp [hq] at hp

-- Only directories have been added.
structure Paved (d d' : Disk β) : Prop where
  within : Within d d'
  files  : ∀ p i, d'.link? p = some (.file i) → d.link? p = some (.file i)
  bodies : d'.bodies = d.bodies

protected theorem Paved.refl : Paved d d := ⟨.refl, fun _ _ h => h, rfl⟩

protected theorem Paved.trans (h : Paved d₁ d₂) (h' : Paved d₂ d₃) : Paved (β := β) d₁ d₃ where
  within := h.within.trans h'.within
  files p i hp := h.files p i (h'.files p i hp)
  bodies := h'.bodies.trans h.bodies

theorem makeDirectory_paved (steps : List String) (d : Disk β) :
    Paved d (makeDirectory steps d).2 := by
  unfold makeDirectory
  split
  case h_1 => exact .refl
  case h_2 p _ =>
    split
    case h_1 hl =>
      refine ⟨within_cons rfl hl, fun q i hq => ?_, rfl⟩
      rw [link?_cons rfl (ne_nil_of_link?_eq_none hl)] at hq
      split at hq
      · cases hq
      · exact hq
    case h_2 => exact .refl
    case h_3 => exact .refl

theorem makeDirectories_paved (back : List String) (d : Disk β) :
    Paved d (makeDirectories back d).2 := by
  induction back generalizing d
  case nil => exact .refl
  case cons step back ih =>
    have h₁ := makeDirectory_paved (step :: back).reverse d
    unfold makeDirectories
    split
    case h_1 d₁ hd₁ =>
      rw [hd₁] at h₁
      have h₂ := ih d₁
      split
      case h_1 hd₂ =>
        rw [hd₂] at h₂
        exact h₁.trans h₂
      case h_2 d₂ hd₂ =>
        rw [hd₂] at h₂
        exact h₁.trans (h₂.trans (makeDirectory_paved (step :: back).reverse d₂))
    case h_2 => exact h₁

theorem makePath_paved (path : String) (d : Disk β) : Paved d (d.makePath path).2 :=
  makeDirectories_paved _ d

def Reaches (d : Disk β) (steps : List String) : Prop :=
  ∃ p, d.follow [] steps = .ok p ∧ d.link? p = some .directory

theorem Reaches.mono (h : ∀ p, d.link? p = some .directory → d'.link? p = some .directory) :
    d.Reaches steps → d'.Reaches steps
  | ⟨p, hf, hl⟩ => ⟨p, follow_mono h hf, h p hl⟩

theorem reaches_of_makeDirectory (h : makeDirectory steps d = (.ok (), d')) : d'.Reaches steps := by
  unfold makeDirectory at h
  split at h
  case h_1 => simp at h
  case h_2 p hp =>
    split at h
    case h_1 hl =>
      cases h
      refine ⟨p, follow_mono (d := d) (fun q => within_cons rfl hl q _) hp, ?_⟩
      rw [link?_cons (d := d) rfl (ne_nil_of_link?_eq_none hl), if_pos rfl]
    case h_2 hl => cases h; exact ⟨p, hp, hl⟩
    case h_3    => simp at h

theorem makeDirectory_of_reaches (h : d.Reaches steps) : makeDirectory steps d = (.ok (), d) := by
  obtain ⟨p, hf, hl⟩ := h
  simp [makeDirectory, hf, hl]

theorem reaches_of_makeDirectories {back : List String}
    (h : makeDirectories back d = (.ok (), d')) :
    d'.Reaches back.reverse := by
  cases back
  case nil => exact ⟨[], rfl, rfl⟩
  case cons step back =>
    rw [makeDirectories] at h
    split at h
    case h_1 =>
      split at h
      case h_1 => simp at h
      case h_2 => exact reaches_of_makeDirectory h
    case h_2 => exact reaches_of_makeDirectory h

theorem makeDirectories_of_reaches {back : List String} (h : d.Reaches back.reverse) :
    makeDirectories back d = (.ok (), d) := by
  cases back
  case nil            => rfl
  case cons step back => rw [makeDirectories, makeDirectory_of_reaches h]

theorem reaches_of_makePath (h : d.makePath path = (.ok (), d')) :
    d'.Reaches (Place.steps path) := by
  have hr := reaches_of_makeDirectories h
  rwa [List.reverse_reverse] at hr

theorem makePath_of_reaches (h : d.Reaches (Place.steps path)) : d.makePath path = (.ok (), d) := by
  apply makeDirectories_of_reaches
  rwa [List.reverse_reverse]

-- To make what has been made, as far as it can be made, changes nothing.

theorem follow_append {a b : List String} :
    d.follow p (a ++ b) = (d.follow p a).bind fun q => d.follow q b := by
  induction a generalizing p
  case nil => rfl
  case cons step steps ih =>
    simp only [List.cons_append, follow]
    split
    case h_1 => rfl
    case h_2 => rfl
    case h_3 =>
      split
      · exact ih
      · split
        · rfl
        · exact ih

theorem follow_one {step : String} (h : d.follow p [step] = .ok q) :
    d.link? p = some .directory ∧ q = if step = ".." then p.dropLast else p ++ [step] := by
  unfold follow at h
  split at h
  case h_1 => contradiction
  case h_2 => contradiction
  case h_3 hl =>
    refine ⟨hl, ?_⟩
    split at h
    case isTrue hs  => simpa [follow, hs] using h.symm
    case isFalse hs =>
      split at h
      · contradiction
      · simpa [follow, hs] using h.symm

theorem makeDirectory_cases (steps : List String) (d : Disk β) :
    (∃ f, makeDirectory steps d = (.error f, d)) ∨
    ∃ d' p, makeDirectory steps d = (.ok (), d') ∧ d.follow [] steps = .ok p := by
  unfold makeDirectory
  cases hp : d.follow [] steps
  case error f => exact .inl ⟨f, rfl⟩
  case ok p =>
    simp only
    split
    case h_1 => exact .inr ⟨_, p, rfl, rfl⟩
    case h_2 => exact .inr ⟨_, p, rfl, rfl⟩
    case h_3 => exact .inl ⟨_, rfl⟩

theorem reaches_of_follow {step : String} (h : d.follow [] (steps ++ [step]) = .ok p) :
    d.Reaches steps := by
  rw [follow_append] at h
  cases hs : d.follow [] steps <;> rw [hs] at h
  case error => contradiction
  case ok q  => exact ⟨q, hs, (follow_one h).left⟩

theorem makeDirectories_cons_of_ne {step : String} {back : List String} {g : FileFault}
    (h : makeDirectory (step :: back).reverse d = (.error g, d')) (hg : g ≠ .notFound) :
    makeDirectories (step :: back) d = (.error g, d') := by
  rw [makeDirectories, h]
  cases g <;> first | rfl | contradiction

-- Where those before it need no making, a directory that cannot be made changes nothing.
theorem makeDirectories_fails_of {step : String} {back : List String} {g : FileFault}
    (h : makeDirectory (step :: back).reverse d = (.error g, d))
    (hb : (makeDirectories back d).2 = d) :
    ∃ g', makeDirectories (step :: back) d = (.error g', d) := by
  by_cases hg : g = .notFound
  case neg => exact ⟨g, makeDirectories_cons_of_ne h hg⟩
  case pos =>
    subst hg
    cases hr : makeDirectories back d
    case mk r d₁ =>
      rw [hr] at hb
      obtain rfl : d₁ = d := hb
      rw [makeDirectories, h]
      simp only [hr]
      cases r
      case error f => exact ⟨f, rfl⟩
      case ok      => exact ⟨.notFound, h⟩

theorem makeDirectories_fails_again {back : List String} {f : FileFault}
    (hd : makeDirectories back d = (.error f, d')) :
    ∃ g, makeDirectories back d' = (.error g, d') := by
  induction back generalizing d f
  case nil => simp [makeDirectories] at hd
  case cons step back ih =>
    obtain ⟨g, hm⟩ | ⟨d₁, p, hm, _⟩ := makeDirectory_cases (step :: back).reverse d
    case inr =>
      rw [makeDirectories, hm] at hd
      cases hd
    case inl =>
      by_cases hg : g = .notFound
      case neg =>
        have h := makeDirectories_cons_of_ne hm hg
        cases h.symm.trans hd
        exact ⟨_, h⟩
      case pos =>
        rw [makeDirectories, hm, hg] at hd
        simp only at hd
        cases hb : makeDirectories back d
        case mk r d₁ =>
          rw [hb] at hd
          cases r
          case error f₁ =>
            cases hd
            have ⟨g', hagain⟩ := ih hb
            obtain ⟨g'', hm'⟩ | ⟨_, p, _, hp⟩ := makeDirectory_cases (step :: back).reverse d'
            case inl => exact makeDirectories_fails_of hm' (by rw [hagain])
            case inr =>
              rw [List.reverse_cons] at hp
              cases (makeDirectories_of_reaches (reaches_of_follow hp)).symm.trans hagain
          case ok =>
            have hr := makeDirectories_of_reaches (reaches_of_makeDirectories hb)
            obtain ⟨g', hm'⟩ | ⟨_, _, hm', _⟩ := makeDirectory_cases (step :: back).reverse d₁ <;>
              cases hm'.symm.trans hd
            exact makeDirectories_fails_of hm' (by rw [hr])

theorem makePath_again (path : String) (d : Disk β) :
    ((d.makePath path).2.makePath path).2 = (d.makePath path).2 := by
  cases hd : d.makePath path
  case mk r d' =>
    cases r
    case ok => rw [makePath_of_reaches (reaches_of_makePath hd)]
    case error f =>
      have ⟨g, h⟩ := makeDirectories_fails_again hd
      exact congrArg (·.2) (show d'.makePath path = (.error g, d') from h)

theorem follow_congr (h : d'.links = d.links) : d'.follow p steps = d.follow p steps := by
  induction steps generalizing p
  case nil         => rfl
  case cons _ _ ih => simp only [follow, link?_congr h, ih]

theorem find?_congr (h : d'.links = d.links) : d'.find? path = d.find? path := by
  simp only [find?, place, follow_congr h, link?_congr h]

theorem find?_setBody (i : Nat) (b : β) (path : String) :
    (d.setBody i b).find? path = d.find? path := find?_congr rfl

theorem file?_congr (h : d'.links = d.links) : d'.file? path = d.file? path := by
  rw [file?, file?, find?_congr h]

theorem makeDirectory_with_bodies (steps : List String) (bodies : List β) :
    makeDirectory steps { d with bodies } =
      ((makeDirectory steps d).1, { (makeDirectory steps d).2 with bodies }) := by
  have hlinks : { d with bodies }.links = d.links := rfl
  have hf : { d with bodies }.follow [] steps = d.follow [] steps := follow_congr hlinks
  have hl := link?_congr hlinks
  unfold makeDirectory
  rw [hf]
  cases d.follow [] steps
  case error => rfl
  case ok p =>
    simp only [hl]
    cases d.link? p
    case none   => rfl
    case some l => cases l <;> rfl

theorem makeDirectories_with_bodies (back : List String) (bodies : List β) :
    makeDirectories back { d with bodies } =
      ((makeDirectories back d).1, { (makeDirectories back d).2 with bodies }) := by
  induction back generalizing d
  case nil => rfl
  case cons step back ih =>
    have hd := makeDirectory_with_bodies (d := d) (step :: back).reverse bodies
    unfold makeDirectories
    rw [hd]
    cases hm : makeDirectory (step :: back).reverse d
    case mk r d₁ =>
      cases r
      case ok => rfl
      case error f =>
        cases f <;> try rfl
        case notFound =>
          simp only [ih]
          cases makeDirectories back d₁
          case mk r d₂ =>
            cases r
            case error => rfl
            case ok    => exact makeDirectory_with_bodies ..

end Disk
end AccountCache
