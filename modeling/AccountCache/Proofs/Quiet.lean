import AccountCache.Proofs.Standard

namespace AccountCache

def Content.empty : Content := ⟨.table .empty, .table .empty, .table .empty, .table .empty⟩

namespace Connection

variable {c : Connection} {wal : Bool} {content next : Content} {s : Store}
  {u : Content → Except QueryFault Content}

-- What keeps a change from being made where no other table is in the way: a store without a log
-- needs a journal for it.
def hindrance? (wal : Bool) (obstacle : Option QueryFault) (before after : Content) :
    Option QueryFault :=
  if wal ∨ before = after then none else obstacle

-- What a write makes of a content where no other table is in the way.
def attempt (wal : Bool) (obstacle : Option QueryFault) (u : Content → Except QueryFault Content)
    (content : Content) : Except QueryFault Content :=
  match u content with
  | .error f => .error f
  | .ok next =>
    match hindrance? wal obstacle content next with
    | some f => .error f
    | none   => .ok next

-- The connection works on the content, and no other table is in its way. A draft differs from what
-- is in the file only if changes can be made.
structure Quiet (c : Connection) (s : Store) (content : Content) : Prop where
  body     : c.body = .store s
  sees     : c.content? = some content
  current  : ∀ seen version, c.phase = .reading seen version → seen = s.content ∧
    version = s.version
  drafting : s.wal = true ∨ c.obstacle = none ∨ content = s.content
  reading  : s.wal = true ∨ c.peers.reading = false
  writing  : c.peers.writing = false
  pending  : c.peers.pending = false

namespace Quiet

theorem store? (h : c.Quiet s content) : c.body.store? = .ok s := by
  rw [h.body]
  rfl

-- A transaction that has not written sees what is in the file.
theorem eq_of_not_isWriting (h : c.Quiet s content) (hw : c.phase.isWriting = false) :
    content = s.content := by
  have hc := h.sees
  cases hp : c.phase
  case writing => rw [hp] at hw; contradiction
  case reading seen version =>
    obtain rfl : seen = content := by simpa [content?, hp] using hc
    exact h.current _ _ hp |>.left
  all_goals
    simp only [content?, hp, h.store?, Except.toOption, Option.map_some, Option.some.injEq] at hc
    exact hc.symm

theorem journalFault?_eq (before after : Content) :
    c.journalFault? s before after = hindrance? s.wal c.obstacle before after := rfl

theorem draftFault?_eq (h : c.Quiet s content) :
    c.draftFault? content next = hindrance? s.wal c.obstacle content next := by
  simp only [draftFault?, h.store?]
  split
  case isTrue => rfl
  case isFalse hne =>
    -- The draft could be changed before, and can be changed again.
    unfold hindrance?
    split
    · rfl
    · obtain hw | ho | he := h.drafting
      · simp_all
      · exact ho.symm
      · contradiction

end Quiet

def landed (c : Connection) (s : Store) (next : Content) : Connection :=
  match c.phase with
  | .idle              => { c with body := .store (s.commit next) }
  | .writing _ pending => { c with phase := .writing next pending }
  | _                  => { c with phase := .writing next false }

theorem Quiet.write_eq (h : c.Quiet s content) (u : Content → Except QueryFault Content) :
    c.write u =
      match attempt s.wal c.obstacle u content with
      | .error f => (.error f, c)
      | .ok next => (.ok (), c.landed s next) := by
  have hs := h.store?
  have hp := h.pending
  have hw := h.writing
  unfold attempt landed write
  cases hphase : c.phase
  case writing draft pending =>
    obtain rfl : draft = content := by simpa [content?, hphase] using h.sees
    simp only
    cases u draft
    case error f => rfl
    case ok next =>
      simp only [h.draftFault?_eq]
      cases hindrance? s.wal c.obstacle draft next <;> rfl
  case reading seen version =>
    obtain rfl := h.eq_of_not_isWriting (by rw [hphase]; rfl)
    obtain ⟨rfl, rfl⟩ := h.current _ _ hphase
    cases hu : u s.content
    case error f => simp only [hu]
    case ok next =>
      simp only [hu, hs, hw, Quiet.journalFault?_eq]
      cases hindrance? s.wal c.obstacle s.content next <;> simp
  all_goals
    obtain rfl := h.eq_of_not_isWriting (by rw [hphase]; rfl)
    simp only [hs]
    cases u s.content
    case error f => rfl
    case ok next =>
      have hr : ¬((!s.wal) = true ∧ c.peers.reading = true) := by
        rintro ⟨hwal, hreading⟩
        cases h.reading <;> simp_all
      simp only [hw, hp, hr, Quiet.journalFault?_eq]
      cases hindrance? s.wal c.obstacle s.content next <;> simp

theorem attempt_free (wal : Bool) (u : Content → Except QueryFault Content) (content : Content) :
    attempt wal none u content = u content := by
  unfold attempt hindrance?
  cases u content <;> simp only [ite_self]

theorem hindrance?_eq_none {wal : Bool} {obstacle : Option QueryFault} {before after : Content}
    (h : hindrance? wal obstacle before after = none) : wal = true ∨ obstacle = none ∨
    before = after := by
  unfold hindrance? at h
  split at h
  case isTrue hw => exact hw.imp_right .inr
  case isFalse   => exact .inr (.inl h)

theorem attempt_eq_ok {wal : Bool} {obstacle : Option QueryFault}
    (h : attempt wal obstacle u content = .ok next) :
    u content = .ok next ∧ (wal = true ∨ obstacle = none ∨ content = next) := by
  unfold attempt at h
  cases hu : u content <;> simp only [hu] at h
  case error => contradiction
  case ok after =>
    cases hh : hindrance? wal obstacle content after <;> simp only [hh] at h
    case some => contradiction
    case none =>
      cases h
      exact ⟨rfl, hindrance?_eq_none hh⟩

theorem Quiet.landed (h : c.Quiet s content) (hn : attempt s.wal c.obstacle u content = .ok next) :
    ∃ s', s'.wal = s.wal ∧ (c.inTransaction = true → s' = s) ∧ (c.landed s next).Quiet s' next := by
  have hfree := attempt_eq_ok hn |>.right
  have hdraft : s.wal = true ∨ c.obstacle = none ∨ next = s.content := by
    obtain hw | ho | rfl := hfree
    · exact .inl hw
    · exact .inr (.inl ho)
    · exact h.drafting
  unfold Connection.landed
  cases hp : c.phase
  case idle =>
    refine ⟨s.commit next, rfl, by simp [inTransaction, hp],
      { h with body := rfl, drafting := .inr (.inr rfl), sees := ?_, current := by simp }⟩
    simp [content?, Body.store?, Except.toOption, Store.commit]
  all_goals exact ⟨s, rfl, fun _ => rfl,
    { h with sees := rfl, current := by simp, drafting := hdraft }⟩

theorem Quiet.write (h : c.Quiet s content) (u : Content → Except QueryFault Content) :
    (∃ f, attempt s.wal c.obstacle u content = .error f ∧ c.write u = (.error f, c)) ∨
    (∃ next c' s', attempt s.wal c.obstacle u content = .ok next ∧ c.write u = (.ok (), c') ∧
      s'.wal = s.wal ∧ (c.inTransaction = true → s' = s) ∧ c'.Quiet s' next) := by
  have hw := h.write_eq u
  cases hn : attempt s.wal c.obstacle u content <;> simp only [hn] at hw
  case error f => exact .inl ⟨f, rfl, hw⟩
  case ok next =>
    obtain ⟨s', hwal, hs, hq⟩ := h.landed hn
    exact .inr ⟨next, _, s', rfl, hw, hwal, hs, hq⟩

theorem Quiet.read {α : Type} (h : c.Quiet s content) (q : Content → Except QueryFault α) :
    (c.read q).1 = q content ∧ (c.read q).2.Quiet s content := by
  have hsees : c.Sees content := ⟨h.sees, .inr h.pending⟩
  refine ⟨hsees.read q |>.left, ?_⟩
  have hseen := hsees.read q |>.right |>.content
  obtain he | ⟨s', hp, hs', he⟩ := read_eq_or_look c q
  case inl => exact he.symm ▸ h
  case inr =>
    cases h.store?.symm.trans hs'
    rw [he] at hseen ⊢
    exact { h with sees := hseen, current := fun _ _ hr => by cases hr; exact ⟨rfl, rfl⟩ }

theorem Quiet.begin (h : c.Quiet s content) (hi : c.inTransaction = false) :
    ({ c with phase := .begun } : Connection).Quiet s content where
  body     := h.body
  sees     := by
    have hc := h.sees
    rwa [content?_of_not_inTransaction hi] at hc
  current  := by simp
  drafting := h.drafting
  reading  := h.reading
  writing  := h.writing
  pending  := h.pending

theorem Quiet.abort (h : c.Quiet s content) : c.abort.Quiet s s.content where
  body     := h.body
  sees     := by simp [content?, Connection.abort, h.body, Body.store?, Except.toOption]
  current  := by simp [Connection.abort]
  drafting := .inr (.inr rfl)
  reading  := h.reading
  writing  := h.writing
  pending  := h.pending

theorem Quiet.commit (h : c.Quiet s content) (hi : c.inTransaction = true) :
    ∃ c' s', c.commit = (.ok (), c') ∧ s'.wal = s.wal ∧ c'.Quiet s' content ∧
      c'.inTransaction = false ∧ c'.obstacle = c.obstacle := by
  have hwait : c.mustWait = false := by
    have hr := h.reading
    simp only [mustWait, h.store?]
    cases hw : s.wal <;> simp_all
  obtain ⟨hn, _⟩ | ⟨_, _, _, hw, _⟩ | ⟨draft, _, hp, _, he⟩ | ⟨_, hw, he⟩ := commit_cases c
  case inl     => simp [hi] at hn
  case inr.inl => simp [hwait] at hw
  case inr.inr.inl =>
    obtain rfl : draft = content := by simpa [content?, hp] using h.sees
    have hbody : c.body.update (·.commit draft) = .store (s.commit draft) := by
      simp only [Body.update, h.store?]
    rw [hbody] at he
    refine ⟨_, s.commit draft, he, rfl, ?_, rfl, rfl⟩
    exact { h with
      body     := rfl
      sees     := by simp [content?, Body.store?, Except.toOption, Store.commit]
      current  := by simp
      drafting := .inr (.inr rfl) }
  case inr.inr.inr =>
    obtain rfl := h.eq_of_not_isWriting hw
    exact ⟨_, s, he, rfl, h.abort, rfl, rfl⟩

end Connection

namespace Table

open Connection (attempt)

variable {t : Table} {s : Store} {content next : Content} {wal : Bool}
    {obstacle : Option QueryFault}

def wipe (wal : Bool) (obstacle : Option QueryFault) :
    List TableName → Content → Except QueryFault Content
  | [], content => .ok content
  | name :: names, content =>
    match attempt wal obstacle (Content.clear name) content with
    | .error f => .error f
    | .ok next => wipe wal obstacle names next

theorem attempt_clear_of_error {name : TableName} {f : QueryFault} (hs : content.IsStandard)
    (h : attempt wal obstacle (Content.clear name) content = .error f) :
    wal = false ∧ obstacle ≠ none := by
  unfold attempt at h
  rw [Content.clear_of_standard name hs] at h
  simp only at h
  split at h
  case h_1 g hg =>
    unfold Connection.hindrance? at hg
    split at hg <;> simp_all
  case h_2 => contradiction

theorem wipe_of_error {names : List TableName} {f : QueryFault} (hs : content.IsStandard)
    (h : wipe wal obstacle names content = .error f) : wal = false ∧ obstacle ≠ none := by
  induction names generalizing content
  case nil => contradiction
  case cons name names ih =>
    unfold wipe at h
    cases hn : attempt wal obstacle (Content.clear name) content <;> simp only [hn] at h
    case error => exact attempt_clear_of_error hs hn
    case ok next =>
      exact ih (Content.clear_isStandard (Connection.attempt_eq_ok hn |>.left) hs) h

theorem wipe_isStandard {names : List TableName} (hs : content.IsStandard)
    (h : wipe wal obstacle names content = .ok next) : next.IsStandard := by
  induction names generalizing content
  case nil => cases h; exact hs
  case cons name names ih =>
    unfold wipe at h
    cases hn : attempt wal obstacle (Content.clear name) content <;> simp only [hn] at h
    case error => contradiction
    case ok after =>
      exact ih (Content.clear_isStandard (Connection.attempt_eq_ok hn |>.left) hs) h

theorem clear_of_quiet (names : List TableName) (h : t.conn.Quiet s content)
    (hi : t.inTransaction = true) :
    ∃ conn content', conn.Quiet s content' ∧ conn.obstacle = t.conn.obstacle ∧
    conn.inTransaction = true ∧
      ((∃ f, wipe s.wal t.conn.obstacle names content = .error f ∧
          clear names t = (.error (.query f), { t with conn })) ∨
        (wipe s.wal t.conn.obstacle names content = .ok content' ∧
          clear names t = (.ok (), { t with conn }))) := by
  induction names generalizing t content
  case nil => exact ⟨t.conn, content, h, rfl, hi, .inr ⟨rfl, rfl⟩⟩
  case cons name names ih =>
    unfold wipe clear write
    obtain ⟨f, ha, hw⟩ | ⟨next, conn, s', ha, hw, _, hs', hq⟩ := h.write (Content.clear name)
    case inl =>
      rw [onConnection_of_error hw, ha]
      exact ⟨t.conn, content, h, rfl, hi, .inl ⟨f, rfl, rfl⟩⟩
    case inr =>
      obtain rfl := hs' hi
      have hf := Connection.write_frame t.conn (Content.clear name)
      rw [hw] at hf
      rw [onConnection_of_ok hw, ha, ← hf.right.left]
      exact ih (t := { t with conn }) hq (hf.right.right.trans hi)

-- What an emptying that fails leaves: nothing could be changed before it either.
theorem eq_of_wipe_error {names : List TableName} {f : QueryFault} {conn : Connection}
    {content' : Content}
    (hs : content.IsStandard) (hw : wipe s.wal obstacle names content = .error f)
    (h : conn.Quiet s content') (ho : conn.obstacle = obstacle) : content' = s.content := by
  obtain ⟨hwal, hobstacle⟩ := wipe_of_error hs hw
  obtain hw | hn | he := h.drafting
  case inl      => simp [hwal] at hw
  case inr.inl  => exact absurd (ho.symm.trans hn) hobstacle
  case inr.inr  => exact he

-- Emptying the table comes to the same in a transaction and outside any.
theorem truncate_of_quiet (h : t.conn.Quiet s content) (hs : content.IsStandard) :
    ∃ conn log s', (truncate t).2 = { t with conn, log } ∧ s'.wal = s.wal ∧
      conn.obstacle = t.conn.obstacle ∧ conn.inTransaction = t.inTransaction ∧
      ((∃ f, wipe s.wal t.conn.obstacle TableName.all content = .error f ∧
          (truncate t).1 = .error (.query f) ∧ conn.Quiet s' content) ∨
        (∃ next, wipe s.wal t.conn.obstacle TableName.all content = .ok next ∧
          (truncate t).1 = .ok () ∧ conn.Quiet s' next)) := by
  cases hi : t.inTransaction
  case true =>
    obtain ⟨conn, content', hq, ho, hin, ⟨f, hw, hc⟩ | ⟨hw, hc⟩⟩ :=
      clear_of_quiet TableName.all h hi
    all_goals simp only [truncate, hi, if_true, hc]
    case inl =>
      obtain rfl := eq_of_wipe_error hs hw hq ho
      obtain rfl := eq_of_wipe_error hs hw h rfl
      exact ⟨conn, t.log, s, rfl, rfl, ho, hin, .inl ⟨f, hw, rfl, hq⟩⟩
    case inr => exact ⟨conn, t.log, s, rfl, rfl, ho, hin, .inr ⟨content', hw, trivial, hq⟩⟩
  case false =>
    let begun : Table := { t with conn := { t.conn with phase := .begun } }
    obtain ⟨conn, content', hq, ho, hin, ⟨f, hw, hc⟩ | ⟨hw, hc⟩⟩ :=
      clear_of_quiet (t := begun) TableName.all (h.begin hi) rfl
    all_goals simp only [truncate, hi, Bool.false_eq_true, if_false, begun] at hc ⊢
    case inl =>
      obtain rfl := eq_of_wipe_error hs hw h rfl
      simp only [hc]
      exact ⟨conn.abort, t.log, s, rfl, rfl, ho, rfl, .inl ⟨f, hw, rfl, hq.abort⟩⟩
    case inr =>
      obtain ⟨conn', s', hcommit, hwal, hq', hidle, ho'⟩ := hq.commit hin
      simp only [hc, commit, onConnection_of_ok (t := { t with conn }) hcommit]
      exact ⟨conn', _, s', rfl, hwal, ho'.trans ho, hidle, .inr ⟨content', hw, trivial, hq'⟩⟩

theorem wipe_all (wal : Bool) (hc : c.IsStandard) : wipe wal none TableName.all c = .ok .empty := by
  have one {c : Content} (name : TableName) (hc : c.IsStandard) :
      attempt wal none (Content.clear name) c = .ok (c.emptied name) :=
    (Connection.attempt_free wal _ c).trans (Content.clear_of_standard name hc)
  have standard {c : Content} (name : TableName) (hc : c.IsStandard) :
      (c.emptied name).IsStandard :=
    Content.clear_isStandard (Content.clear_of_standard name hc) hc
  have h₁ := standard .init hc
  have h₂ := standard .nodes h₁
  have h₃ := standard .users h₂
  simp only [wipe, TableName.all, one .init hc, one .nodes h₁, one .users h₂, one .pcrs h₃]
  rfl

end Table
end AccountCache
