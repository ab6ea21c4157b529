import AccountCache.Host.Stores
import AccountCache.Proofs.Disk.Folder
import Mathlib.Data.List.Nodup

namespace AccountCache

namespace Naming

variable {n : Naming} {a b x y : String}

-- The files lie in the root itself, and a dot ends the name of a store.
structure Flat (n : Naming) : Prop where
  lead      : '/' ∉ n.lead.toList
  extension : '/' ∉ n.extension.toList
  dotted    : n.extension.startsWith "." = true

-- The file of the store `name`, with what may be beside it.
def file (n : Naming) (name : String) : String := join n.root (n.fileName name)

theorem path_eq_file (ha : accepts a = true) : n.path a = .ok (n.file a) :=
  path_eq_ok_iff.mpr ⟨ha, rfl⟩

def endings : List String := ["", "-wal", "-shm"]

theorem slash_of_accepts (ha : accepts a = true) : '/' ∉ a.toList := by
  simp only [accepts, Bool.and_eq_true, Bool.not_eq_true', List.any_eq_false] at ha
  exact fun hs => ha.left.right _ hs (by decide)

theorem ne_empty_of_accepts (ha : accepts a = true) : a ≠ "" := by
  simp only [accepts, Bool.and_eq_true, decide_eq_true_eq] at ha
  exact ha.left.left

theorem slash_of_fileName (hl : '/' ∉ n.lead.toList) (he : '/' ∉ n.extension.toList)
    (ha : accepts a = true) :
    '/' ∉ (n.fileName a).toList :=
  Place.notMem_append (Place.notMem_append hl (slash_of_accepts ha)) he

theorem slash_of_endings (hx : x ∈ endings) : '/' ∉ x.toList := by
  revert x
  decide

theorem storeFiles_eq_of_slash (hf : '/' ∉ (n.fileName a).toList) :
    Host.storeFiles (n.file a) = endings.map fun x => join n.root (n.fileName a ++ x) := by
  have hx {x : String} (hx : x ∈ endings) := Place.join_append n.root hf (slash_of_endings hx)
  simp only [Host.storeFiles, endings, List.map_cons, List.map_nil, String.append_empty, walPath,
    shmPath, file, hx (show "-wal" ∈ endings by decide), hx (show "-shm" ∈ endings by decide)]

namespace Flat

theorem head? (flat : n.Flat) : ∃ cs, n.extension.toList = '.' :: cs := by
  obtain ⟨cs, hcs⟩ := String.startsWith_string_iff.mp flat.dotted
  exact ⟨cs, hcs.symm⟩

theorem isStep (flat : n.Flat) (ha : accepts a = true) (hx : x ∈ endings) :
    Place.IsStep (n.fileName a ++ x) := by
  have hlen : 2 ≤ (n.fileName a ++ x).length := by
    obtain ⟨cs, hcs⟩ := flat.head?
    have ha' : 0 < a.length :=
      Nat.pos_of_ne_zero (mt String.length_eq_zero_iff.mp (ne_empty_of_accepts ha))
    have hext : 0 < n.extension.length := by simp [← String.length_toList, hcs]
    simp only [fileName, String.length_append]
    omega
  have hf := slash_of_fileName flat.lead flat.extension ha
  exact Place.isStep_of_length (Place.notMem_append hf (slash_of_endings hx)) hlen

-- An extension with its ending is not found again further on, for it starts with a dot and its
-- ending has none.
theorem eq_nil_of_shift {c e x y : List Char} (he : e.head? = some '.') (hx : '.' ∉ x)
    (hy : '.' ∉ y) (h : e ++ x = c ++ (e ++ y)) : c = [] := by
  have hcount := congrArg (List.count '.') h
  simp only [List.count_append, List.count_eq_zero.mpr hx, List.count_eq_zero.mpr hy] at hcount
  have hc : '.' ∉ c := List.count_eq_zero.mp (by omega)
  cases c
  case nil => rfl
  case cons ch cs =>
    have hhead := congrArg List.head? h
    rw [List.head?_append, he] at hhead
    cases hhead
    exact absurd (List.mem_cons_self ..) hc

-- The name of a store and the ending can be told from the name of the file.
theorem eq_of_fileName (flat : n.Flat) (hx : x ∈ endings) (hy : y ∈ endings)
    (h : n.fileName a ++ x = n.fileName b ++ y) : a = b ∧ x = y := by
  have undotted : ∀ x ∈ endings, '.' ∉ x.toList := by decide
  obtain ⟨cs, hcs⟩ := flat.head?
  have hdot : n.extension.toList.head? = some '.' := by rw [hcs]; rfl
  have hl := congrArg String.toList h
  simp only [fileName, String.toList_append, List.append_assoc, List.append_cancel_left_eq] at hl
  have heq : a.toList = b.toList ∧ n.extension.toList ++ x.toList = n.extension.toList ++
      y.toList := by
    obtain ⟨c, hb, hc⟩ | ⟨c, ha, hc⟩ := List.append_eq_append_iff.mp hl
    case inl =>
      obtain rfl := eq_nil_of_shift hdot (undotted x hx) (undotted y hy) hc
      exact ⟨by simpa using hb.symm, hc⟩
    case inr =>
      obtain rfl := eq_nil_of_shift hdot (undotted y hy) (undotted x hx) hc
      exact ⟨by simpa using ha, hc.symm⟩
  exact ⟨String.toList_inj.mp heq.left, String.toList_inj.mp (List.append_cancel_left heq.right)⟩

theorem storeFiles_eq (flat : n.Flat) (ha : accepts a = true) :
    Host.storeFiles (n.file a) = endings.map fun x => join n.root (n.fileName a ++ x) :=
  storeFiles_eq_of_slash <| slash_of_fileName flat.lead flat.extension ha

theorem inFolder (flat : n.Flat) (ha : accepts a = true) (hp : x ∈ Host.storeFiles (n.file a)) :
    Place.InFolder n.root x := by
  rw [flat.storeFiles_eq ha] at hp
  obtain ⟨y, hy, rfl⟩ := List.mem_map.mp hp
  exact ⟨_, flat.isStep ha hy, rfl⟩

theorem eq_of_join (flat : n.Flat) (ha : accepts a = true) (hb : accepts b = true)
    (hx : x ∈ endings)
    (hy : y ∈ endings) (h : join n.root (n.fileName a ++ x) = join n.root (n.fileName b ++ y)) :
    a = b ∧ x = y :=
  flat.eq_of_fileName hx hy (Place.join_injective n.root (flat.isStep ha hx) (flat.isStep hb hy) h)

theorem storeFiles_disjoint (flat : n.Flat) (ha : accepts a = true) (hb : accepts b = true)
    (hab : a ≠ b) :
    (Host.storeFiles (n.file a)).Disjoint (Host.storeFiles (n.file b)) := by
  rw [flat.storeFiles_eq ha, flat.storeFiles_eq hb]
  intro p hp hq
  obtain ⟨x, hx, rfl⟩ := List.mem_map.mp hp
  obtain ⟨y, hy, h⟩ := List.mem_map.mp hq
  exact hab (flat.eq_of_join hb ha hy hx h).left.symm

theorem file_ne_memoryPath (flat : n.Flat) (ha : accepts a = true) :
    n.file a ≠ Host.memoryPath := by
  obtain ⟨cs, hcs⟩ := flat.head?
  have hstep := flat.isStep ha (x := "") (by decide)
  rw [String.append_empty] at hstep
  have hdot : '.' ∈ (n.file a).toList := by
    rw [file, Place.join_of_isStep n.root hstep]
    split <;> simp [fileName, hcs]
  intro h
  rw [h] at hdot
  revert hdot
  decide

end Flat

end Naming
end AccountCache
