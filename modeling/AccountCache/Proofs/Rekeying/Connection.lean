import AccountCache.Proofs.Rekeying.Content

namespace AccountCache

variable {π : Rekeying}

def Store.rekey (π : Rekeying) (s : Store) : Store := { s with content := s.content.rekey π }

def Body.rekey (π : Rekeying) : Body → Body
  | store s => store (s.rekey π)
  | foreign bytes => foreign bytes

def Phase.rekey (π : Rekeying) : Phase → Phase
  | reading seen version => reading (seen.rekey π) version
  | writing draft pending => writing (draft.rekey π) pending
  | phase => phase

def Connection.rekey (π : Rekeying) (c : Connection) : Connection :=
  { c with body := c.body.rekey π, phase := c.phase.rekey π }

theorem Store.rekey_commit (s : Store) (c : Content) :
    (s.rekey π).commit (c.rekey π) = (s.commit c).rekey π := by
  simp only [commit, rekey, Content.rekey_inj]

namespace Body

theorem rekey_store? (b : Body) : (b.rekey π).store? = b.store?.map (·.rekey π) := by
  cases b
  case store => rfl
  case foreign => simp only [rekey, store?]; split <;> rfl

theorem rekey_isBlank (b : Body) : (b.rekey π).isBlank = b.isBlank := by
  cases b <;> rfl

theorem rekey_eq_foreign {b : Body} {bytes : Bytes} : b.rekey π = .foreign bytes ↔
    b = .foreign bytes := by
  cases b <;> simp [rekey]

theorem rekey_update {f g : Store → Store} (h : ∀ s, g (s.rekey π) = (f s).rekey π) (b : Body) :
    (b.rekey π).update g = (b.update f).rekey π := by
  simp only [update, rekey_store?]
  cases b.store?
  case error => rfl
  case ok s  => exact congrArg Body.store (h s)

end Body

namespace Phase

variable {p : Phase}

theorem rekey_isWriting : (p.rekey π).isWriting = p.isWriting := by
  cases p <;> rfl

theorem rekey_isReading : (p.rekey π).isReading = p.isReading := by
  cases p <;> rfl

theorem rekey_isPending : (p.rekey π).isPending = p.isPending := by
  cases p <;> rfl

end Phase

namespace Connection

variable {c c' : Connection} {α β : Type}

theorem reachedRows_map {r : Except QueryFault α} (f : α → β) :
    reachedRows (r.map f) = reachedRows r := by
  cases r <;> rfl

theorem rekey_inTransaction : (c.rekey π).inTransaction = c.inTransaction := by
  cases h : c.phase <;> simp [inTransaction, rekey, Phase.rekey, h]

theorem rekey_read {q : Content → Except QueryFault α}
    {q' : Content → Except QueryFault β} {f : α → β}
    (h : ∀ content : Content, q' (content.rekey π) = (q content).map f) (c : Connection) :
    (c.rekey π).read q' = ((c.read q).1.map f, (c.read q).2.rekey π) := by
  obtain ⟨body, phase, peers, obstacle⟩ := c
  cases phase
  case reading seen _  => exact Prod.ext (h seen) rfl
  case writing draft _ => exact Prod.ext (h draft) rfl
  all_goals
    simp only [rekey, Phase.rekey, read, Body.rekey_store?]
    cases body.store?
    case error => rfl
    case ok s  =>
      have hs : q' (s.rekey π).content = (q s.content).map f := h s.content
      rw [Except.map]
      simp only [hs, reachedRows_map, reduceCtorEq, false_and, true_and, if_false]
      cases peers.pending <;> cases reachedRows (q s.content) <;> rfl

theorem rekey_journalFault? (c : Connection) (s : Store) (before after : Content) :
    (c.rekey π).journalFault? (s.rekey π) (before.rekey π) (after.rekey π) =
      c.journalFault? s before after := by
  simp only [journalFault?, Store.rekey, Content.rekey_inj]
  rfl

theorem rekey_draftFault? (c : Connection) (draft next : Content) :
    (c.rekey π).draftFault? (draft.rekey π) (next.rekey π) = c.draftFault? draft next := by
  unfold draftFault?
  rw [show (c.rekey π).body = c.body.rekey π from rfl, Body.rekey_store?]
  cases c.body.store?
  case error => rfl
  case ok s  =>
    simp only [Except.map, rekey_journalFault?]
    simp only [Store.rekey, Content.rekey_inj]

theorem rekey_write {u u' : Content → Except QueryFault Content}
    (h : ∀ content : Content, u' (content.rekey π) = (u content).map (·.rekey π)) (c : Connection) :
    (c.rekey π).write u' = ((c.write u).1, (c.write u).2.rekey π) := by
  have hfault := rekey_journalFault? (π := π) c
  have hdraft := rekey_draftFault? (π := π) c
  obtain ⟨body, phase, peers, obstacle⟩ := c
  cases phase
  case writing draft pending =>
    simp only [rekey, Phase.rekey, write, h] at hdraft ⊢
    cases u draft
    case error => rfl
    case ok next =>
      simp only [Except.map, hdraft]
      split <;> rfl
  case reading seen version =>
    simp only [rekey, Phase.rekey, write, h, Body.rekey_store?] at hfault ⊢
    cases u seen
    case error => rfl
    case ok draft =>
      cases body.store?
      case error => rfl
      case ok s =>
        simp only [Except.map, hfault, show (s.rekey π).version = s.version from rfl]
        by_cases hb : peers.writing ∨ s.version ≠ version
        case pos => rw [if_pos hb, if_pos hb]
        case neg =>
          rw [if_neg hb, if_neg hb]
          split <;> rfl
  all_goals
    simp only [rekey, Phase.rekey, write, Body.rekey_store?] at hfault ⊢
    cases body.store?
    case error => rfl
    case ok s =>
      have hs : u' (s.rekey π).content = (u s.content).map (·.rekey π) := h s.content
      rw [Except.map]
      simp only [hs]
      cases u s.content
      case error => rfl
      case ok draft =>
        have hj := hfault s s.content draft
        have hc := s.rekey_commit (π := π) draft
        have hr : (!(s.rekey π).wal) = true ∧ peers.reading = true ↔
            (!s.wal) = true ∧ peers.reading = true := .rfl
        simp only [Except.map, show (s.rekey π).content = s.content.rekey π from rfl, hj, hc, hr,
          reduceCtorEq, if_true, if_false]
        split
        · rfl
        · split
          · rfl
          · cases s.wal <;> cases peers.reading <;> rfl

theorem rekey_mustWait (c : Connection) : (c.rekey π).mustWait = c.mustWait := by
  unfold mustWait
  rw [show (c.rekey π).body = c.body.rekey π from rfl, Body.rekey_store?]
  cases c.body.store? <;> rfl

theorem rekey_commit (c : Connection) : (c.rekey π).commit = (c.commit.1, c.commit.2.rekey π) := by
  have hwait := rekey_mustWait (π := π) c
  obtain ⟨body, phase, peers, obstacle⟩ := c
  cases phase
  case writing draft pending =>
    have hbody : (body.rekey π).update (·.commit (draft.rekey π)) =
        (body.update (·.commit draft)).rekey π :=
      Body.rekey_update (fun s => s.rekey_commit draft) body
    simp only [rekey, Phase.rekey, commit, hbody] at hwait ⊢
    rw [hwait]
    split <;> rfl
  all_goals rfl

theorem rekey_begin (c : Connection) : (c.rekey π).begin = (c.begin.1, c.begin.2.rekey π) := by
  unfold begin
  rw [rekey_inTransaction]
  split <;> rfl

-- The second connection is the first one with other handle keys.
def Rekeyed (π : Rekeying) (c c' : Connection) : Prop := c' = c.rekey π

namespace Rekeyed

theorem concur {x y : Except QueryFault α × Connection} (h : y = (x.1, x.2.rekey π)) :
    Concur (Rekeyed π) x y where
  result := (congrArg Prod.fst h).symm
  states := congrArg Prod.snd h

theorem read {q : Content → Except QueryFault α}
    (hq : ∀ content : Content, q (content.rekey π) = q content)
    (h : Rekeyed π c c') : Concur (Rekeyed π) (c.read q) (c'.read q) := by
  cases h
  have hr := rekey_read (π := π) (f := id) fun content =>
    (hq content).trans (congrFun Except.map_id _).symm
  exact concur (by rw [hr, Except.map_id]; rfl)

theorem write {u u' : Content → Except QueryFault Content}
    (hu : ∀ content : Content, u' (content.rekey π) = (u content).map (·.rekey π))
    (h : Rekeyed π c c') :
    Concur (Rekeyed π) (c.write u) (c'.write u') := by
  cases h
  exact concur (rekey_write hu _)

theorem commit (h : Rekeyed π c c') : Concur (Rekeyed π) c.commit c'.commit := by
  cases h
  exact concur (rekey_commit _)

end Rekeyed

theorem rekeyed_lockstep : Lockstep (Rekeyed π) where
  inTransaction h := h ▸ rekey_inTransaction.symm
  read hq h    := h.read fun _ => hq.rekey
  write hu h   := h.write fun _ => hu.rekey
  clear name h := h.write fun _ => Content.clear_rekey name
  commit h     := h.commit
  begin h      := by
    cases h
    exact Rekeyed.concur (rekey_begin _)
  abort h      := by
    cases h
    rfl

end Connection

end AccountCache
