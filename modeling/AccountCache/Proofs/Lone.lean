import AccountCache.Proofs.Quiet

open Relation (ReflTransGen)

namespace AccountCache

namespace Connection

variable {c c' : Connection} {u : Content → Except QueryFault Content} {before after : Content}

-- No other table is on the store, a journal can be made, and a snapshot is up to date.
structure Lone (c : Connection) : Prop extends Standard c where
  peers    : c.peers = .ofPhases []
  obstacle : c.obstacle = none
  reading  : ∀ seen version s, c.phase = .reading seen version → c.body = .store s →
    seen = s.content ∧ version = s.version

theorem lone_of_idle {s : Store} (hi : c.phase = .idle) (hb : c.body = .store s)
    (hs : s.content.IsStandard) (hp : c.peers = .ofPhases []) (ho : c.obstacle = none) :
    c.Lone where
  body     := ⟨s, hb, hs⟩
  peers    := hp
  obstacle := ho
  seen content h := by
    simp only [content?, hi, hb, Body.store?, Except.toOption, Option.map_some,
      Option.some.injEq] at h
    exact h ▸ hs
  reading _ _ _ hr := by cases hi.symm.trans hr

theorem Lone.write_reading (hc : c.Lone) {seen : Content} {version : Nat} {s : Store}
    (hp : (c.write u).2.phase = .reading seen version) (hs : (c.write u).2.body = .store s) :
    seen = s.content ∧ version = s.version := by
  obtain ⟨_, h⟩ | ⟨_, _, _, _, _, _, h⟩ | ⟨_, _, _, _, hi, h⟩ := write_cases c u
  case inl     => rw [h] at hp hs; exact hc.reading seen version s hp hs
  case inr.inl => rw [h] at hp; cases hp
  case inr.inr =>
    rw [h] at hp
    have hidle : c.phase = .idle := by simpa [inTransaction] using hi
    cases hidle.symm.trans hp

theorem Lone.write (hu : ∀ {before after}, u before = .ok after → before.IsStandard →
      after.IsStandard)
    (hc : c.Lone) : (c.write u).2.Lone where
  toStandard := hc.toStandard.write hu
  peers      := (write_frame c u).left.trans hc.peers
  obstacle   := (write_frame c u).right.left.trans hc.obstacle
  reading _ _ _ hp hs := hc.write_reading hp hs

theorem Work.reading (hc : c.Lone) (w : Work c c') {seen : Content} {version : Nat} {s : Store}
    (hp : c'.phase = .reading seen version) (hs : c'.body = .store s) :
    seen = s.content ∧ version = s.version :=
  match w with
  | .clear _              => hc.write_reading hp hs
  | .statement (.write _) => hc.write_reading hp hs
  | .statement (.read (q := q)) => by
    obtain h | ⟨s', _, hs', h⟩ := read_eq_or_look c q <;> rw [h] at hp hs
    case inl => exact hc.reading seen version s hp hs
    case inr =>
      cases hp
      have hstore : c.body.store? = .ok s := by rw [show c.body = .store s from hs]; rfl
      cases hs'.symm.trans hstore
      exact ⟨rfl, rfl⟩

theorem Move.reading (hc : c.Lone) (m : Move c c') {seen : Content} {version : Nat} {s : Store}
    (hp : c'.phase = .reading seen version) (hs : c'.body = .store s) :
    seen = s.content ∧ version = s.version :=
  match m with
  | .work w => w.reading hc hp hs
  | .begin  => by
    obtain ⟨_, h⟩ | ⟨_, h⟩ := begin_cases c <;> rw [h] at hp hs
    · exact hc.reading seen version s hp hs
    · cases hp
  | .commit => by
    obtain ⟨_, h⟩ | ⟨_, _, _, _, h⟩ | ⟨_, _, _, _, h⟩ | ⟨_, _, h⟩ := commit_cases c <;>
      rw [h] at hp hs
    · exact hc.reading seen version s hp hs
    all_goals cases hp
  | .abort  => by cases hp

theorem Move.lone (m : Move c c') (hc : c.Lone) : c'.Lone where
  toStandard := m.standard hc.toStandard
  peers      := m.frame.left.trans hc.peers
  obstacle   := m.frame.right.trans hc.obstacle
  reading _ _ _ hp hs := m.reading hc hp hs

theorem moves_lone (m : ReflTransGen Move c c') (hc : c.Lone) : c'.Lone := by
  induction m
  case refl => exact hc
  case tail m ih => exact m.lone ih

theorem Lone.quiet {content : Content} (hl : c.Lone) (h : c.content? = some content) :
    ∃ s, c.Quiet s content := by
  obtain ⟨s, hs, _⟩ := hl.body
  exact ⟨s, {
    body     := hs
    sees     := h
    current  := fun seen version hp => hl.reading seen version s hp hs
    drafting := .inr (.inl hl.obstacle)
    reading  := .inr (by rw [hl.peers]; rfl)
    writing  := by rw [hl.peers]; rfl
    pending  := by rw [hl.peers]; rfl }⟩

theorem write_ok_of_lone (hc : c.Lone) (hb : c.content? = some before) (hu : u before = .ok after) :
    (c.write u).1 = .ok () := by
  obtain ⟨s, hq⟩ := hc.quiet hb
  obtain ⟨f, ha, _⟩ | ⟨_, _, _, _, hw, _⟩ := hq.write u
  case inl => rw [hc.obstacle, attempt_free, hu] at ha; contradiction
  case inr => rw [hw]

theorem write_lone (hc : c.Lone) (hb : c.content? = some before) (hu : u before = .ok after) :
    ∃ c', c.write u = (.ok (), c') ∧ c'.content? = some after ∧
      c'.committed? = if c.inTransaction then c.committed? else some after := by
  have hok := write_ok_of_lone hc hb hu
  obtain ⟨f, h⟩ | ⟨before', after', pending, hb', hu', hi, h⟩ | ⟨s, after', hs, hu', hi, h⟩ :=
    write_cases c u
  case inl => simp [h] at hok
  case inr.inl =>
    cases hb.symm.trans hb'
    cases hu.symm.trans hu'
    exact ⟨_, h, rfl, by simp [hi, committed?]⟩
  case inr.inr =>
    rw [content?_of_not_inTransaction hi] at hb
    obtain ⟨s', hs', hcontent⟩ := committed?_eq_some.mp hb
    cases hs.symm.trans hs'
    subst hcontent
    cases hu.symm.trans hu'
    refine ⟨_, h, ?_, by simp [hi, committed?, Body.store?, Except.toOption, Store.commit]⟩
    rw [content?_of_not_inTransaction (by exact hi)]
    rfl

theorem commit_lone (hc : c.Lone) (hi : c.inTransaction = true) :
    ∃ c', c.commit = (.ok (), c') ∧ c'.committed? = c.content? ∧ c'.inTransaction = false := by
  obtain ⟨content, hcontent⟩ := hc.content?_eq_some
  obtain ⟨s, hq⟩ := hc.quiet hcontent
  obtain ⟨c', _, h, _, hq', hi', _⟩ := hq.commit hi
  exact ⟨c', h, (content?_of_not_inTransaction hi').symm.trans <| hq'.sees.trans hcontent.symm, hi'⟩

end Connection
end AccountCache
