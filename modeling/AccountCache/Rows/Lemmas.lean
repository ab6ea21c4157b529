import AccountCache.Rows

namespace AccountCache.Rows

variable {α : Type}

theorem eq_of_key_eq {rs : List (Key × α)} (ho : rs.Pairwise (·.1 < ·.1)) {r s : Key × α}
    (hr : r ∈ rs) (hs : s ∈ rs) (h : r.1 = s.1) : r = s := by
  induction ho with
  | nil => cases hr
  | cons hlt _ ih =>
    cases hr with
    | head =>
      cases hs with
      | head => rfl
      | tail _ hs => exact absurd (hlt _ hs) (h ▸ Int64.lt_irrefl)
    | tail _ hr =>
      cases hs with
      | head => exact absurd (hlt _ hr) (h ▸ Int64.lt_irrefl)
      | tail _ hs => exact ih hr hs

theorem get?_eq_some_iff {rows : Rows α} {k : Key} {a : α} :
    rows.get? k = some a ↔ (k, a) ∈ rows.toList := by
  simp only [get?, Option.map_eq_some_iff]
  constructor
  · rintro ⟨r, hr, rfl⟩
    have hk : r.1 = k := by simpa using List.find?_some hr
    exact hk ▸ List.mem_of_find?_eq_some hr
  · intro h
    cases hf : rows.toList.find? (·.1 = k) with
    | none => simpa using List.find?_eq_none.1 hf _ h
    | some r =>
      have hk : r.1 = k := by simpa using List.find?_some hf
      have := eq_of_key_eq rows.ordered (List.mem_of_find?_eq_some hf) h hk
      exact ⟨r, rfl, by simp [this]⟩

theorem ext_get? {r₁ r₂ : Rows α} (h : ∀ k, r₁.get? k = r₂.get? k) : r₁ = r₂ := by
  have mem (r : Key × α) : r ∈ r₁.toList ↔ r ∈ r₂.toList := by
    constructor
    · exact fun hr => get?_eq_some_iff.1 (h r.1 ▸ get?_eq_some_iff.2 hr)
    · exact fun hr => get?_eq_some_iff.1 ((h r.1).symm ▸ get?_eq_some_iff.2 hr)
  have nodup {rows : Rows α} : rows.toList.Nodup :=
    List.Pairwise.imp (S := (· ≠ ·)) (fun hlt heq => Int64.lt_irrefl (heq ▸ hlt)) rows.ordered
  ext1
  refine ((List.perm_ext_iff_of_nodup nodup nodup).2 mem).eq_of_pairwise (fun a b _ _ h₁ h₂ => ?_)
    r₁.ordered r₂.ordered
  exact absurd (Int64.lt_trans h₁ h₂) Int64.lt_irrefl

@[simp]
theorem get?_empty (k : Key) : (empty : Rows α).get? k = none := rfl

theorem mem_insert_iff {k : Key} {a : α} {r : Key × α} {rs : List (Key × α)}
    (ho : rs.Pairwise (·.1 < ·.1)) : r ∈ insert k a rs ↔ r = (k, a) ∨ (r ∈ rs ∧ r.1 ≠ k) := by
  fun_induction insert k a rs with
  | case1 => simp
  | case2 s rs hk =>
    have : ∀ t ∈ s :: rs, t.1 ≠ k := by
      intro t ht h
      cases ht with
      | head => exact Int64.lt_irrefl (h ▸ hk)
      | tail _ ht =>
        exact Int64.lt_irrefl (h ▸ Int64.lt_trans hk ((List.pairwise_cons.1 ho).1 t ht))
    grind
  | case3 s rs _ hk =>
    have : ∀ t ∈ rs, t.1 ≠ k := by
      intro t ht h
      have := (List.pairwise_cons.1 ho).1 t ht
      exact Int64.lt_irrefl (hk ▸ h ▸ this)
    grind
  | case4 s rs hlt hne ih => have := ih (List.pairwise_cons.1 ho).2; grind

theorem get?_put (rows : Rows α) (k j : Key) (a : α) :
    (rows.put k a).get? j = if j = k then some a else rows.get? j := by
  apply Option.ext
  intro b
  rw [get?_eq_some_iff, put, mem_insert_iff rows.ordered, ← get?_eq_some_iff]
  split <;> simp_all [eq_comm]

theorem get?_erase (rows : Rows α) (k j : Key) :
    (rows.erase k).get? j = if j = k then none else rows.get? j := by
  apply Option.ext
  intro b
  rw [get?_eq_some_iff, erase, List.mem_filter, ← get?_eq_some_iff]
  split <;> simp_all

theorem next?_eq_some {rows : Rows α} {p : Key → α → Bool} {bound : Option Key} {k : Key} {a : α}
    (h : rows.next? p bound = some (k, a)) :
    rows.get? k = some a ∧ p k a ∧ isPast bound k ∧
      ∀ j b, rows.get? j = some b → p j b → isPast bound j → k ≤ j := by
  obtain ⟨hp, before, after, hl, hb⟩ := List.find?_eq_some_iff_append.1 h
  simp only [Bool.and_eq_true] at hp
  refine ⟨get?_eq_some_iff.2 (by simp [hl]), hp.2, hp.1, fun j b hj hpj hbj => ?_⟩
  have hm := get?_eq_some_iff.1 hj
  have ho := rows.ordered
  rw [hl] at hm ho
  simp only [List.mem_append, List.mem_cons] at hm
  rcases hm with hm | hm | hm
  · have := hb _ hm
    simp_all
  · simp_all
  · exact Int64.le_of_lt ((List.pairwise_cons.1 (List.pairwise_append.1 ho).2.1).1 _ hm)

theorem next?_eq_none_iff {rows : Rows α} {p : Key → α → Bool} {bound : Option Key} :
    rows.next? p bound = none ↔ ∀ k a, rows.get? k = some a → p k a → isPast bound k = false := by
  simp only [next?, List.find?_eq_none, get?_eq_some_iff]
  grind

end AccountCache.Rows
