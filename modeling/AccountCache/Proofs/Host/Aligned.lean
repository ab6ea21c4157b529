import AccountCache.Proofs.Host.Seats
import Mathlib.Data.List.Forall2

namespace AccountCache

-- Two values under one name.
structure Namesakes (R : α → β → Prop) (r : String × α) (r' : String × β) : Prop where
  name  : r'.1 = r.1
  value : R r.2 r'.2

abbrev Aligned (R : α → β → Prop) : List (String × α) → List (String × β) → Prop :=
  List.Forall₂ (Namesakes R)

namespace Aligned

variable {α β : Type} {R : α → β → Prop} {l : List (String × α)} {l' : List (String × β)}
    {a : α} {b : β}

theorem lookup (h : Aligned R l l') (name : String) :
    (l.lookup name = none ∧ l'.lookup name = none) ∨
    ∃ a b, l.lookup name = some a ∧ l'.lookup name = some b ∧ R a b := by
  induction h
  case nil => exact .inl ⟨rfl, rfl⟩
  case cons r r' _ _ hr _ ih =>
    rw [List.lookup_cons, List.lookup_cons, hr.name]
    cases name == r.1
    case true  => exact .inr ⟨_, _, rfl, rfl, hr.value⟩
    case false => exact ih

theorem exists_of_mem {r' : String × β} (h : Aligned R l l') (hr : r' ∈ l') :
    ∃ r, Namesakes R r r' := by
  induction h
  case nil => cases hr
  case cons r _ _ _ hr₁ _ ih =>
    obtain rfl | hr := List.mem_cons.mp hr
    · exact ⟨r, hr₁⟩
    · exact ih hr

theorem filter {p : String × α → Bool} {q : String × β → Bool}
    (hp : ∀ r r', Namesakes R r r' → p r = q r')
    (h : Aligned R l l') : Aligned R (l.filter p) (l'.filter q) :=
  List.rel_filter (fun r r' hr => Bool.eq_iff_iff.mp (hp r r' hr)) h

theorem without (h : Aligned R l l') (name : String) :
    Aligned R (l.filter (·.1 ≠ name)) (l'.filter (·.1 ≠ name)) :=
  h.filter fun _ _ hr => by rw [hr.name]

theorem assign (h : Aligned R l l') (name : String) (hab : R a b) :
    Aligned R (Host.assign name a l) (Host.assign name b l') :=
  .cons ⟨rfl, hab⟩ (h.without name)

end Aligned

-- To the others, a table shows no more of its phase than this.
structure Phase.Shows (p p' : Phase) : Prop where
  reading : p'.isReading = p.isReading
  writing : p'.isWriting = p.isWriting
  pending : p'.isPending = p.isPending

theorem Peers.ofPhases_congr {l l' : List Phase} (h : List.Forall₂ Phase.Shows l l') :
    Peers.ofPhases l' = Peers.ofPhases l := by
  induction h
  case nil => rfl
  case cons hp _ ih =>
    simp only [Peers.ofPhases, Peers.mk.injEq, List.any_cons] at ih ⊢
    exact ⟨rfl, congrArg₂ or hp.reading ih.right.left, congrArg₂ or hp.writing ih.right.right.left,
      congrArg₂ or hp.pending ih.right.right.right⟩

end AccountCache
