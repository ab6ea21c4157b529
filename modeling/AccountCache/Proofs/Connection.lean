import AccountCache.Connection
import Mathlib.Logic.Relation

namespace AccountCache

namespace Body

variable {b : Body} {s : Store} {fault : QueryFault}

theorem update_of_ok (h : b.store? = .ok s) (f : Store → Store) : b.update f = .store (f s) := by
  simp only [update, h]

theorem update_of_error (h : b.store? = .error fault) (f : Store → Store) : b.update f = b := by
  simp only [update, h]

end Body

-- The content that the next statement works on.
def Connection.content? (c : Connection) : Option Content :=
  match c.phase with
  | .reading seen _ => some seen
  | .writing draft _ => some draft
  | _ => c.body.store?.toOption.map (·.content)

-- The content that is left when the connection is dropped.
def Connection.committed? (c : Connection) : Option Content :=
  c.body.store?.toOption.map (·.content)

namespace Connection

variable {c : Connection} {α : Type} {q : Content → Except QueryFault α}
  {u : Content → Except QueryFault Content}

theorem content?_of_not_inTransaction (h : c.inTransaction = false) :
    c.content? = c.committed? := by
  have hp : c.phase = .idle := by simpa [inTransaction] using h
  simp [content?, committed?, hp]

theorem read_eq_or_look (c : Connection) (q : Content → Except QueryFault α) :
    (c.read q).2 = c ∨ ∃ s, c.phase = .begun ∧ c.body.store? = .ok s ∧
      (c.read q).2 = { c with phase := .reading s.content s.version } := by
  unfold read
  split
  case h_1 => exact .inl rfl
  case h_2 => exact .inl rfl
  case h_3 =>
    split
    case h_1 => exact .inl rfl
    case h_2 s hs =>
      split
      · exact .inl rfl
      · split
        case isTrue h => exact .inr ⟨s, h.left, hs, rfl⟩
        case isFalse  => exact .inl rfl

theorem read_body : (c.read q).2.body = c.body := by
  cases read_eq_or_look c q
  case inl h => rw [h]
  case inr h => obtain ⟨_, _, _, h⟩ := h; rw [h]

theorem read_peers : (c.read q).2.peers = c.peers := by
  cases read_eq_or_look c q
  case inl h => rw [h]
  case inr h => obtain ⟨_, _, _, h⟩ := h; rw [h]

theorem read_obstacle : (c.read q).2.obstacle = c.obstacle := by
  cases read_eq_or_look c q
  case inl h => rw [h]
  case inr h => obtain ⟨_, _, _, h⟩ := h; rw [h]

theorem read_inTransaction : (c.read q).2.inTransaction = c.inTransaction := by
  cases read_eq_or_look c q
  case inl h => rw [h]
  case inr h => obtain ⟨_, hp, _, h⟩ := h; simp [h, inTransaction, hp]

theorem read_content? : (c.read q).2.content? = c.content? := by
  cases read_eq_or_look c q
  case inl h => rw [h]
  case inr h =>
    obtain ⟨s, hp, hs, h⟩ := h
    simp [h, content?, hp, hs, Except.toOption]

theorem eq_ok_of_read {a : α} (h : (c.read q).1 = .ok a) :
    ∃ content, c.content? = some content ∧ q content = .ok a := by
  unfold read at h
  split at h
  case h_1 seen version hp => exact ⟨seen, by simp [content?, hp], h⟩
  case h_2 draft pending hp => exact ⟨draft, by simp [content?, hp], h⟩
  case h_3 hr hw =>
    split at h
    case h_1 => contradiction
    case h_2 s hs =>
      have hc : c.content? = some s.content := by
        unfold content?
        split <;> simp_all [Except.toOption]
      refine ⟨s.content, hc, ?_⟩
      split at h
      case isTrue => contradiction
      case isFalse => split at h <;> exact h

-- Reads look at the content, and nothing keeps them out.
structure Sees (c : Connection) (content : Content) : Prop where
  content : c.content? = some content
  free    : c.phase.isReading = true ∨ c.peers.pending = false

theorem read_of_not_reading {s : Store} (hp : c.phase.isReading = false)
    (hs : c.body.store? = .ok s)
    (hn : c.peers.pending = false) (q : Content → Except QueryFault α) :
    (c.read q).1 = q s.content := by
  cases h : c.phase <;> rw [h] at hp <;> try contradiction
  all_goals
    simp only [read, h, hs, hn]
    split <;> first | contradiction | (split <;> rfl)

theorem Sees.read {content : Content} (h : c.Sees content) (q : Content → Except QueryFault α) :
    (c.read q).1 = q content ∧ (c.read q).2.Sees content := by
  have hc := h.content
  cases hr : c.phase.isReading
  case true =>
    cases hp : c.phase <;> rw [hp] at hr <;> try contradiction
    all_goals
      have he : c.read q = (q content, c) := by simp_all [Connection.read, content?]
      exact he ▸ ⟨rfl, h⟩
  case false =>
    have hn : c.peers.pending = false := by simpa [hr] using h.free
    obtain ⟨s, hs, rfl⟩ : ∃ s, c.body.store? = .ok s ∧ s.content = content := by
      cases hb : c.body.store? <;> cases hp : c.phase
        <;> simp_all [content?, Except.toOption, Phase.isReading]
    exact ⟨read_of_not_reading hr hs hn q, read_content?.trans hc, .inr (read_peers.symm ▸ hn)⟩

theorem write_of_idle (hp : c.phase = .idle) (u : Content → Except QueryFault Content) :
    (∃ f, c.write u = (.error f, c)) ∨ ∃ s after, c.body.store? = .ok s ∧ u s.content = .ok after ∧
      c.write u = (.ok (), { c with body := .store (s.commit after) }) := by
  simp only [write, hp, reduceCtorEq, if_false]
  cases hs : c.body.store?
  case error f => exact .inl ⟨f, rfl⟩
  case ok s =>
    cases hu : u s.content
    case error f => exact .inl ⟨f, by simp only [hu]⟩
    case ok after =>
      simp only [hu]
      split
      case isTrue => exact .inl ⟨_, rfl⟩
      case isFalse =>
        cases c.journalFault? s s.content after
        case some f => exact .inl ⟨f, rfl⟩
        case none =>
          simp only
          split
          case isTrue  => exact .inl ⟨_, rfl⟩
          case isFalse => exact .inr ⟨s, after, rfl, hu, rfl⟩

theorem write_of_begun (hp : c.phase = .begun) (u : Content → Except QueryFault Content) :
    (∃ f, c.write u = (.error f, c)) ∨ ∃ s after, c.body.store? = .ok s ∧ u s.content = .ok after ∧
      c.write u = (.ok (), { c with phase := .writing after false }) := by
  simp only [write, hp, if_true]
  cases hs : c.body.store?
  case error f => exact .inl ⟨f, rfl⟩
  case ok s =>
    cases hu : u s.content
    case error f => exact .inl ⟨f, by simp only [hu]⟩
    case ok after =>
      simp only [hu]
      split
      case isTrue => exact .inl ⟨_, rfl⟩
      case isFalse =>
        cases c.journalFault? s s.content after
        case some f => exact .inl ⟨f, rfl⟩
        case none   => exact .inr ⟨s, after, rfl, hu, rfl⟩

theorem write_of_reading {seen : Content} {version : Nat} (hp : c.phase = .reading seen version)
    (u : Content → Except QueryFault Content) :
    (∃ f, c.write u = (.error f, c)) ∨ ∃ after, u seen = .ok after ∧
      c.write u = (.ok (), { c with phase := .writing after false }) := by
  simp only [write, hp]
  cases u seen
  case error f => exact .inl ⟨f, rfl⟩
  case ok after =>
    cases c.body.store?
    case error f => exact .inl ⟨f, rfl⟩
    case ok s =>
      simp only
      split
      case isTrue => exact .inl ⟨_, rfl⟩
      case isFalse =>
        cases c.journalFault? s seen after
        case some f => exact .inl ⟨f, rfl⟩
        case none   => exact .inr ⟨after, rfl, rfl⟩

theorem write_of_writing {draft : Content} {pending : Bool} (hp : c.phase = .writing draft pending)
    (u : Content → Except QueryFault Content) :
    (∃ f, c.write u = (.error f, c)) ∨ ∃ after, u draft = .ok after ∧
      c.write u = (.ok (), { c with phase := .writing after pending }) := by
  simp only [write, hp]
  cases u draft
  case error f => exact .inl ⟨f, rfl⟩
  case ok after =>
    simp only
    cases c.draftFault? draft after
    case some f => exact .inl ⟨f, rfl⟩
    case none   => exact .inr ⟨after, rfl, rfl⟩

-- A write fails and changes nothing, or it leaves a draft in a transaction and a commit outside.
theorem write_cases (c : Connection) (u : Content → Except QueryFault Content) :
    (∃ f, c.write u = (.error f, c)) ∨
    (∃ before after pending, c.content? = some before ∧ u before = .ok after ∧
      c.inTransaction = true ∧ c.write u = (.ok (), { c with phase := .writing after pending })) ∨
    (∃ s after, c.body.store? = .ok s ∧ u s.content = .ok after ∧
      c.inTransaction = false ∧
        c.write u = (.ok (), { c with body := .store (s.commit after) })) := by
  cases hp : c.phase
  case idle =>
    obtain h | ⟨s, after, hs, hu, h⟩ := write_of_idle hp u
    case inl => exact .inl h
    case inr => exact .inr (.inr ⟨s, after, hs, hu, by simp [inTransaction, hp], by rw [h, hp]⟩)
  case begun =>
    obtain h | ⟨s, after, hs, hu, h⟩ := write_of_begun hp u
    case inl => exact .inl h
    case inr =>
      have hc : c.content? = some s.content := by simp [content?, hp, hs, Except.toOption]
      exact .inr (.inl ⟨_, after, false, hc, hu, by simp [inTransaction, hp], h⟩)
  case reading seen version =>
    obtain h | ⟨after, hu, h⟩ := write_of_reading hp u
    case inl => exact .inl h
    case inr =>
      have hc : c.content? = some seen := by simp [content?, hp]
      exact .inr (.inl ⟨_, after, false, hc, hu, by simp [inTransaction, hp], h⟩)
  case writing draft pending =>
    obtain h | ⟨after, hu, h⟩ := write_of_writing hp u
    case inl => exact .inl h
    case inr =>
      have hc : c.content? = some draft := by simp [content?, hp]
      exact .inr (.inl ⟨_, after, pending, hc, hu, by simp [inTransaction, hp], h⟩)

end Connection
end AccountCache
