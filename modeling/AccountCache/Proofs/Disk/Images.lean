import AccountCache.Proofs.Disk.Files

namespace AccountCache.Disk

variable {β : Type} {f : Nat → β → β} {d d' : Disk β} {path : String}

-- The same links, and for each body its image.
structure Images (f : Nat → β → β) (d d' : Disk β) : Prop where
  links  : d'.links = d.links
  bodies : ∀ i, d'.bodies[i]? = d.bodies[i]?.map (f i)

namespace Images

theorem place (h : Images f d d') (path : String) : d'.place path = d.place path :=
  follow_congr h.links

theorem link? (h : Images f d d') (p : Place) : d'.link? p = d.link? p :=
  link?_congr h.links p

theorem find? (h : Images f d d') (path : String) : d'.find? path = d.find? path := by
  simp only [Disk.find?, h.place, h.link?]

theorem file? (h : Images f d d') (path : String) : d'.file? path = d.file? path :=
  file?_congr h.links

theorem length (h : Images f d d') : d'.bodies.length = d.bodies.length := by
  apply Nat.le_antisymm
  · rw [← List.getElem?_eq_none_iff, h.bodies, List.getElem?_eq_none_iff.mpr Nat.le.refl]
    rfl
  · rw [← List.getElem?_eq_none_iff, ← Option.map_eq_none_iff (f := f _), ← h.bodies,
      List.getElem?_eq_none_iff.mpr Nat.le.refl]

theorem makePath (h : Images f d d') (path : String) :
    (d'.makePath path).1 = (d.makePath path).1 ∧
    Images f (d.makePath path).2 (d'.makePath path).2 := by
  obtain ⟨links, bodies⟩ := d'
  cases h.links
  have hm : ({ d with bodies } : Disk β).makePath path =
      ((d.makePath path).1, { (d.makePath path).2 with bodies }) :=
    makeDirectories_with_bodies ..
  rw [hm]
  exact ⟨rfl, rfl, (makePath_paved path d).bodies ▸ h.bodies⟩

theorem append (h : Images f d d') {links : List (Place × Link)} {fresh : β}
    (hf : ∀ i, f i fresh = fresh) :
    Images f ⟨links, d.bodies ++ [fresh]⟩ ⟨links, d'.bodies ++ [fresh]⟩ where
  links := rfl
  bodies i := by
    simp only [List.getElem?_append, h.length, h.bodies]
    split
    · rfl
    · cases hi : [fresh][i - d.bodies.length]?
      case none   => rfl
      case some b =>
        rw [Option.map_some, List.mem_singleton.mp (List.mem_of_getElem? hi), hf]

theorem addBody (h : Images f d d') (fresh : β) (hf : ∀ i, f i fresh = fresh) :
    (d'.addBody fresh).1 = (d.addBody fresh).1 ∧
    Images f (d.addBody fresh).2 (d'.addBody fresh).2 := by
  refine ⟨h.length, ?_⟩
  have happ : Images f ⟨d.links, d.bodies ++ [fresh]⟩ ⟨d.links, d'.bodies ++ [fresh]⟩ := h.append hf
  rw [Disk.addBody, Disk.addBody, h.links]
  exact happ

theorem openFile (h : Images f d d') (path : String) (fresh : β) (hf : ∀ i, f i fresh = fresh) :
    (∃ e, d.openFile path fresh = .error e ∧ d'.openFile path fresh = .error e) ∨
    ∃ i d₁ d₁', d.openFile path fresh = .ok (i, d₁) ∧ d'.openFile path fresh = .ok (i, d₁') ∧
      Images f d₁ d₁' := by
  unfold Disk.openFile
  simp only [h.place, h.link?, bind, Except.bind]
  cases d.place path
  case error e => exact .inl ⟨e, rfl, rfl⟩
  case ok p =>
    simp only
    rcases d.link? p with _ | _ | i
    case none      => exact .inr ⟨_, _, _, rfl, by rw [h.length, h.links]; rfl, h.append hf⟩
    case directory => exact .inl ⟨_, rfl, rfl⟩
    case file      => exact .inr ⟨i, d, d', rfl, rfl, h⟩

theorem unlink (h : Images f d d') (path : String) :
    (∃ e, d.unlink path = .error e ∧ d'.unlink path = .error e) ∨
    ∃ d₁ d₁', d.unlink path = .ok d₁ ∧ d'.unlink path = .ok d₁' ∧ Images f d₁ d₁' := by
  unfold Disk.unlink
  simp only [h.place, h.link?, bind, Except.bind]
  cases d.place path
  case error e => exact .inl ⟨e, rfl, rfl⟩
  case ok p =>
    simp only
    rcases d.link? p with _ | _ | i
    case none      => exact .inl ⟨_, rfl, rfl⟩
    case directory => exact .inl ⟨_, rfl, rfl⟩
    case file      => exact .inr ⟨_, _, rfl, rfl, by rw [h.links], h.bodies⟩

theorem setBody (h : Images f d d') (i : Nat) (b : β) :
    Images f (d.setBody i b) (d'.setBody i (f i b)) where
  links := h.links
  bodies j := by
    simp only [Disk.setBody, List.getElem?_set, h.length, h.bodies]
    split
    case isTrue hj =>
      subst hj
      split <;> rfl
    case isFalse => rfl

end Images

end AccountCache.Disk
