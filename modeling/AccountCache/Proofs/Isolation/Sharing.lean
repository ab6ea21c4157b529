import AccountCache.Proofs.Isolation.Service

namespace AccountCache

variable {P Q : Tenant} {n : Naming} {r : Place} {T T' U : Nat → Nat → Prop}

namespace Tenant

-- Two stores whose tables have labels of their own and whose master keys are others.
structure Apart (P Q : Tenant) : Prop where
  name   : P.name ≠ Q.name
  labels : ∀ l, P.labels l = true → Q.labels l = false
  keys   : ∀ k, P.keys k = true → Q.keys k = false

theorem Apart.symm (h : P.Apart Q) : Q.Apart P where
  name := h.name.symm
  labels l hl := by
    by_contra hn
    cases hl.symm.trans (h.labels l (by simpa using hn))
  keys k hk := by
    by_contra hn
    cases hk.symm.trans (h.keys k (by simpa using hn))

def answers {α : Type} (P : Tenant) (rs : List Request) (as : List α) : List α :=
  ((rs.zip as).filter fun x => P.asks x.1).map (·.2)

end Tenant

namespace Host

variable {g g' h h' k : Host} {q : Request}

def Disjoint (T U : Nat → Nat → Prop) : Prop := ∀ i i' j, T i j → ¬U i' j

namespace Attends

theorem disjoint (a : Attends P n r T h T' g' h') (l : Lodges Q n r U k h) (hd : Disjoint T U) :
    Disjoint T' U := by
  intro i i' j hij hu
  obtain hij | hj := a.grown i j hij
  · exact hd i i' j hij hu
  · have := l.twins.lt hu
    omega

-- What is done for the one tenant leaves the other one where it was.
theorem bystander (a : Attends P n r T h T' g' h') (l : Lodges Q n r U k h) (apart : P.Apart Q)
    (hd : Disjoint T U) :
    Lodges Q n r U k h' where
  flat      := l.flat
  accepted  := l.accepted
  own       := l.own
  shared    := a.shared
  twins     := { l.twins with
    body i j hij := by
      rw [a.confined.body j (l.twins.lt hij) fun i' h => hd i' i j h hij]
      exact l.twins.body i j hij }
  files path hp := by
    have hn : path ∉ P.files n := fun h =>
      l.flat.storeFiles_disjoint a.accepted l.accepted apart.name h hp
    rw [a.confined.find path (l.attends.inFolder hp) hn]
    exact l.files path hp
  journal   := a.confined.parallel.find?_eq_directory.symm.trans l.journal
  seats     := by
    have ours (h : Host) : h.seats.filter (fun s => Q.labels s.1) =
        (h.seats.filter fun s => !P.labels s.1).filter fun s => Q.labels s.1 := by
      rw [List.filter_filter]
      refine List.filter_congr fun s _ => ?_
      cases hs : Q.labels s.1
      case false => rfl
      case true  => simp [apart.symm.labels _ hs]
    rw [ours, a.confined.seats, ← ours]
    exact l.seats
  others s hs hq := by
    cases hp : P.labels s.1
    case true =>
      obtain ⟨s₀, seat⟩ := a.seats.exists_of_mem (List.mem_filter.mpr ⟨hs, hp⟩)
      exact ⟨a.twins.lt seat.value.body, fun i hi => a.disjoint l hd _ _ _ seat.value.body hi⟩
    case false =>
      have hs' : s ∈ h'.seats.filter fun s => !P.labels s.1 :=
        List.mem_filter.mpr ⟨hs, by simp [hp]⟩
      rw [a.confined.seats] at hs'
      obtain ⟨hb, hn⟩ := l.others s (List.mem_filter.mp hs').left hq
      exact ⟨Nat.lt_of_lt_of_le hb a.confined.length, hn⟩
  keyholder x hx := by
    rw [a.confined.keyholder x (apart.symm.keys x hx)]
    exact l.keyholder x hx

end Attends

-- Both stores are on the host; the first one is there as it is on a host of its own.
def Shares (P Q : Tenant) (n : Naming) (r : Place) (g h : Host) : Prop :=
  ∃ T U k, Lodges P n r T g h ∧ Lodges Q n r U k h ∧ Disjoint T U

theorem Shares.served (s : Shares P Q n r g h) (apart : P.Apart Q) (hq : P.asks q = true)
    (hf : Foresees g h (q.run n h).2) :
    (q.run n g).1 = (q.run n h).1 ∧ Shares P Q n r (q.run n g).2 (q.run n h).2 ∧
      ∃ k, (q.run n h).2.entropy = h.entropy.skip k ∧ (q.run n g).2.entropy = g.entropy.skip k := by
  obtain ⟨T, U, k, left, right, hd⟩ := s
  obtain ⟨result, ⟨T', a⟩, drawn⟩ := Request.run_alike left.attends hq hf
  exact ⟨result, ⟨T', U, k, a.toLodges, a.bystander right apart hd, a.disjoint right hd⟩, drawn⟩

-- What the other store is asked does not matter.
theorem Shares.bystander (s : Shares P Q n r g h) (apart : P.Apart Q) (hq : Q.asks q = true) :
    Shares P Q n r g (q.run n h).2 := by
  obtain ⟨T, U, k, left, right, hd⟩ := s
  have start : Attends Q n r U h U { k with entropy := h.entropy } h :=
    right.attends.congr rfl rfl rfl rfl rfl rfl
  obtain ⟨_, ⟨U', a⟩, _⟩ := Request.run_alike start hq fun _ _ => rfl
  have hd' : Disjoint U T := fun i i' j hu ht => hd i' i j ht hu
  have hdisjoint := a.disjoint left hd'
  exact ⟨T, U', _, a.bystander left apart.symm hd', a.toLodges, fun i i' j ht hu =>
    hdisjoint i' i j hu ht⟩

end Host

open Host (Shares Foresees)

namespace Request

end Request
end AccountCache
