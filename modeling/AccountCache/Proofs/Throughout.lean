import AccountCache.Proofs.Follows

open Relation (ReflTransGen)

namespace AccountCache

def Phase.held? : Phase → Option Content
  | reading seen _ => some seen
  | writing draft _ => some draft
  | _ => none

structure Content.Lasts (P : Content → Prop) : Prop where
  update {u : Content → Except QueryFault Content} {c c' : Content} : Update u →
    u c = .ok c' → P c → P c'
  clear {name : TableName} {c c' : Content} : clear name c = .ok c' → P c → P c'

namespace Connection

-- What is in the file has the property, and so has what the transaction holds.
structure Throughout (P : Content → Prop) (c : Connection) : Prop where
  body : ∀ s, c.body.store? = .ok s → P s.content
  held : ∀ content, c.phase.held? = some content → P content

variable {P : Content → Prop} {c c' : Connection} {u : Content → Except QueryFault Content}

namespace Throughout

theorem content? {content : Content} (h : c.Throughout P) (hc : c.content? = some content) :
    P content := by
  unfold Connection.content? at hc
  split at hc
  case h_1 hp => exact h.held content (by rw [hp]; exact hc)
  case h_2 hp => exact h.held content (by rw [hp]; exact hc)
  case h_3 =>
    cases hs : c.body.store? <;> rw [hs] at hc <;> cases hc
    exact h.body _ hs

-- A transaction that has not looked, or is over, holds nothing.
theorem release {phase : Phase} (h : c.Throughout P) (hp : phase.held? = none) :
    ({ c with phase } : Connection).Throughout P where
  body := h.body
  held content hc := by cases hp.symm.trans hc

theorem read {α : Type} (q : Content → Except QueryFault α) (h : c.Throughout P) :
    (c.read q).2.Throughout P := by
  obtain he | ⟨s, _, hs, he⟩ := read_eq_or_look c q <;> rw [he]
  case inl => exact h
  case inr => exact ⟨h.body, fun content hc => by cases hc; exact h.body s hs⟩

theorem write (hu : ∀ {before after}, u before = .ok after → P before → P after)
    (h : c.Throughout P) :
    (c.write u).2.Throughout P := by
  obtain ⟨_, he⟩ | ⟨_, _, _, hb, ha, _, he⟩ | ⟨s, after, hs, ha, _, he⟩ :=
    write_cases c u <;> rw [he]
  case inl => exact h
  case inr.inl =>
    have hafter := hu ha (h.content? hb)
    exact ⟨h.body, fun content hc => by cases hc; exact hafter⟩
  case inr.inr =>
    have hafter := hu ha (h.body s hs)
    exact ⟨fun s' hs' => by cases hs'; exact hafter, h.held⟩

theorem commit (h : c.Throughout P) : c.commit.2.Throughout P := by
  obtain ⟨_, he⟩ | ⟨_, _, hp, _, he⟩ | ⟨draft, _, hp, _, he⟩ | ⟨_, _, he⟩ :=
    commit_cases c <;> rw [he]
  case inl         => exact h
  case inr.inl     => exact ⟨h.body, fun content hc => h.held content (by rw [hp]; exact hc)⟩
  case inr.inr.inr => exact h.release rfl
  case inr.inr.inl =>
    refine ⟨fun s hs => ?_, nofun⟩
    cases hb : c.body.store?
    case error => simp only [Body.update_of_error hb, hb] at hs; cases hs
    case ok =>
      rw [Body.update_of_ok hb] at hs
      cases hs
      exact h.held draft (by rw [hp]; rfl)

theorem move (l : Content.Lasts P) (m : Move c c') (h : c.Throughout P) : c'.Throughout P := by
  cases m
  case abort  => exact h.release rfl
  case commit => exact h.commit
  case begin =>
    obtain ⟨_, he⟩ | ⟨_, he⟩ := begin_cases c <;> rw [he]
    · exact h
    · exact h.release rfl
  case work w =>
    cases w
    case clear name => exact h.write l.clear
    case statement s =>
      cases s
      case read q     => exact h.read q
      case write u hu => exact h.write (l.update hu)

end Throughout

theorem moves_throughout (l : Content.Lasts P) (m : ReflTransGen Move c c') (h : c.Throughout P) :
    c'.Throughout P := by
  induction m
  case refl        => exact h
  case tail _ m ih => exact ih.move l m

end Connection
end AccountCache
