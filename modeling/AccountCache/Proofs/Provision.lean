import AccountCache.Proofs.Schema

namespace AccountCache

namespace Keyholder

def sealNew (k : Keyholder) (kind : HandleKeyKind) (e : Entropy) : Except Report Bytes :=
  k.key.wrap (k.wraps + 1) ((e.draw handleKeyLength).2.draw k.key.nonceLength).1 kind.associated
    (Text.Base64Url.encode (e.draw handleKeyLength).1)

def counted (k : Keyholder) (kind : HandleKeyKind) (e : Entropy) : Keyholder :=
  { k with
    calls := k.calls ++
      [.wrap kind.associated (Text.Base64Url.encode (e.draw handleKeyLength).1).length] }

end Keyholder

-- What is left for the next key, whose nonces have the length.
def Entropy.afterKey (e : Entropy) (nonceLength : Nat) : Entropy :=
  ((e.draw handleKeyLength).2.draw nonceLength).2

namespace Failure

def isProvisioning (f : Failure) : Bool := f.kind = Title.keyProvisioning.name

end Failure

namespace Table

variable {t : Table} {s : Store} {kind : HandleKeyKind} {e : Entropy}

theorem provisionKey_eq (kind : HandleKeyKind) (e : Entropy) (t : Table) :
    provisionKey kind e t =
      match t.key.sealNew kind e with
      | .error reason =>
        (.error (.sealing reason), { t with key := t.key.counted kind e },
          e.afterKey t.key.key.nonceLength)
      | .ok sealed =>
        ((t.conn.write (Content.putScalar (.handleKey kind) sealed)).1.mapError .storing,
          { t with
            key  := t.key.counted kind e
            conn := (t.conn.write (Content.putScalar (.handleKey kind) sealed)).2 },
          e.afterKey t.key.key.nonceLength) := by
  simp only [provisionKey, Keyholder.sealNew, Keyholder.wrap]
  cases t.key.key.wrap _ _ _ _ <;> rfl

-- In a transaction a key is stored in the draft or not at all.
theorem provisionKey_cases (kind : HandleKeyKind) (e : Entropy) (hi : t.conn.inTransaction = true) :
    (∃ f, provisionKey kind e t =
        (.error f, { t with key := t.key.counted kind e }, e.afterKey t.key.key.nonceLength) ∧
      f.isProvisioning = true) ∨
    (∃ sealed before after pending, t.key.sealNew kind e = .ok sealed ∧
      t.conn.content? = some before ∧
      Content.putScalar (.handleKey kind) sealed before = .ok after ∧
      provisionKey kind e t =
        (.ok (), { t with
            key  := t.key.counted kind e
            conn := { t.conn with phase := .writing after pending } },
          e.afterKey t.key.key.nonceLength)) := by
  rw [provisionKey_eq]
  cases hs : t.key.sealNew kind e
  case error reason => exact .inl ⟨.sealing reason, rfl, rfl⟩
  case ok sealed =>
    simp only
    obtain ⟨f, hw⟩ | ⟨before, after, pending, hb, hu, _, hw⟩ | ⟨_, _, _, _, hn, _⟩ :=
      t.conn.write_cases (Content.putScalar (.handleKey kind) sealed)
    case inl     => rw [hw]; exact .inl ⟨.storing f, rfl, rfl⟩
    case inr.inl => rw [hw]; exact .inr ⟨sealed, before, after, pending, rfl, hb, hu, rfl⟩
    case inr.inr => simp [hi] at hn

def storeKeys (node parent : Bytes) (c : Content) : Except QueryFault Content := do
  Content.putScalar (.handleKey .parent) parent (← Content.putScalar (.handleKey .node) node c)

theorem commit_of_writing {c : Connection} {draft : Content} {pending : Bool}
    (hp : c.phase = .writing draft pending) (hs : c.body.store? = .ok s) :
    c.commit = (.error .locked, { c with phase := .writing draft true }) ∨
    c.commit = (.ok (), { c with body := .store (s.commit draft), phase := .idle }) := by
  cases hw : c.mustWait
  case true  => exact .inl (by simp [Connection.commit, hp, hw])
  case false => exact .inr (by simp [Connection.commit, hp, hw, Body.update, hs])

theorem provision_cases (e : Entropy) (hi : t.conn.phase = .idle)
    (hs : t.conn.body.store? = .ok s) :
    (provision e t).2.1.path = t.path ∧ (provision e t).2.1.cursor = t.cursor ∧
    ((∃ f, (provision e t).1 = .error f ∧ f.isProvisioning = true ∧
        (provision e t).2.1.conn = t.conn) ∨
      (∃ node parent after, storeKeys node parent s.content = .ok after ∧
        (provision e t).1 = .ok () ∧
        (provision e t).2.1.conn = { t.conn with body := .store (s.commit after) })) := by
  have hundo : { t.conn with phase := .idle } = t.conn := by rw [← hi]
  unfold provision HandleKeyKind.all
  obtain ⟨f, h₁, hf⟩ | ⟨node, _, c₁, p₁, _, hc₁, hu₁, h₁⟩ := provisionKey_cases
    (t := { t with conn := { t.conn with phase := .begun } }) .node e
      (by simp [Connection.inTransaction])
  case inl =>
    simp only [provisionKeys, h₁]
    exact ⟨rfl, rfl, .inl ⟨f, rfl, hf, hundo⟩⟩
  case inr =>
    obtain ⟨f, h₂, hf⟩ | ⟨parent, _, c₂, p₂, _, hc₂, hu₂, h₂⟩ := provisionKey_cases
      (t := { t with
        key  := t.key.counted .node e
        conn := { t.conn with phase := .writing c₁ p₁ } }) .parent
      (e.afterKey t.key.key.nonceLength) (by simp [Connection.inTransaction])
    case inl =>
      simp only [provisionKeys, h₁, h₂]
      exact ⟨rfl, rfl, .inl ⟨f, rfl, hf, hundo⟩⟩
    case inr =>
      simp only [Connection.content?, hs, Except.toOption, Option.map_some,
        Option.some.injEq] at hc₁ hc₂
      subst hc₁ hc₂
      have hboth : storeKeys node parent s.content = .ok c₂ := by
        simp only [storeKeys, hu₁, bind, Except.bind, hu₂]
      simp only [provisionKeys, h₁, h₂]
      obtain hc | hc := commit_of_writing (s := s)
        (c := { t.conn with phase := .writing c₂ p₂ }) rfl hs
      case inl =>
        simp only [hc]
        exact ⟨rfl, rfl, .inl ⟨.provisioning .locked, rfl, rfl, hundo⟩⟩
      case inr =>
        simp only [hc]
        exact ⟨rfl, rfl, .inr ⟨node, parent, c₂, hboth, trivial, by rw [← hi]; rfl⟩⟩

-- What becomes of a connection that is made ready, once its tables have been seen to.

section Prepare

variable {o : StoreOptions} {inMemory : Bool} {conn : Connection}

theorem prepare_of_failure {f : QueryFault}
    (h : (applyJournal o.journal inMemory t).conn.ensureSchema = (.error f, conn)) :
    t.prepare o inMemory e =
    (.error (.schema f), { applyJournal o.journal inMemory t with conn }, e) := by
  simp only [prepare, h]

theorem prepare_of_old
    (h : (applyJournal o.journal inMemory t).conn.ensureSchema = (.ok false, conn)) :
    ∃ log, t.prepare o inMemory e =
    (.ok (), { applyJournal o.journal inMemory t with conn, log }, e) := by
  simp only [prepare, h, Bool.false_eq_true, if_false]
  exact ⟨_, rfl⟩

theorem prepare_of_new
    (h : (applyJournal o.journal inMemory t).conn.ensureSchema = (.ok true, conn)) :
    let r := provision e { applyJournal o.journal inMemory t with conn }
    ∃ log, t.prepare o inMemory e = (r.1, { r.2.1 with log }, r.2.2) := by
  simp only [prepare, h, if_true]
  cases provision e { applyJournal o.journal inMemory t with conn }
  case mk r te => cases r <;> exact ⟨_, rfl⟩

end Prepare

-- With the journal set and all tables made, keys are needed only if `init` was no table before.
theorem prepare_cases (o : StoreOptions) (inMemory : Bool) (e : Entropy) (hi : t.conn.phase = .idle)
    (hs : t.conn.body.store? = .ok s) :
    ∃ t₁ : Table, t₁.path = t.path ∧ t₁.cursor = t.cursor ∧ t₁.key = t.key ∧
      t.conn.Extends t₁.conn ∧
      ((∃ f, t.prepare o inMemory e = (.error (.schema f), t₁, e)) ∨
        ∃ s₁, t₁.conn.body = .store s₁ ∧ s.content.Grows s₁.content ∧
          (∀ name, s₁.content.has name = true) ∧
          (s.content.init.isTable = true →
            ∃ log, t.prepare o inMemory e = (.ok (), { t₁ with log }, e)) ∧
          (s.content.init.isTable = false →
            ∃ log, t.prepare o inMemory e =
              ((provision e t₁).1, { (provision e t₁).2.1 with log }, (provision e t₁).2.2))) := by
  have ⟨conn, log, hj, ext, same⟩ := applyJournal_extends o.journal inMemory t
  have ⟨s₀, hs₀, hc₀⟩ := Connection.committed?_eq_some.mp
    (same.trans (Connection.committed?_eq_some.mpr ⟨s, hs, rfl⟩))
  have ⟨ext', hr⟩ := Connection.ensureSchema_cases (ext.phase.trans hi) hs₀
  have he : (applyJournal o.journal inMemory t).conn.ensureSchema = conn.ensureSchema := by rw [hj]
  cases hc : conn.ensureSchema
  case mk r conn' =>
    rw [hc] at ext' hr he
    refine ⟨{ t with conn := conn', log }, rfl, rfl, rfl, ext.trans ext', ?_⟩
    obtain ⟨f, hf⟩ | ⟨hf, s₁, hb₁, g, hall⟩ := hr
    case inl =>
      cases hf
      exact .inl ⟨f, by rw [prepare_of_failure he, hj]⟩
    case inr =>
      cases hf
      rw [hc₀] at he g
      refine .inr ⟨s₁, hb₁, g, hall, fun hinit => ?_, fun hinit => ?_⟩
      · rw [hinit] at he
        obtain ⟨log, h⟩ := prepare_of_old (e := e) he
        exact ⟨log, by rw [h, hj]⟩
      · rw [hinit] at he
        obtain ⟨log, h⟩ := prepare_of_new (e := e) he
        exact ⟨log, by rw [h, hj]⟩

theorem prepare_idle (o : StoreOptions) (inMemory : Bool) (e : Entropy) (hi : t.conn.phase = .idle)
    (hs : t.conn.body.store? = .ok s) (hr : (t.prepare o inMemory e).1 = .ok ()) :
    (t.prepare o inMemory e).2.1.conn.phase = .idle ∧
      (t.prepare o inMemory e).2.1.cursor = t.cursor := by
  obtain ⟨t₁, _, hcursor, _, ext, hrest⟩ := prepare_cases o inMemory e hi hs
  have hi₁ : t₁.conn.phase = .idle := ext.phase.trans hi
  obtain ⟨f, hf⟩ | ⟨s₁, hb₁, _, _, hold, hnew⟩ := hrest
  case inl => simp [hf] at hr
  case inr =>
    cases hinit : s.content.init.isTable
    case true =>
      have ⟨log, h⟩ := hold hinit
      rw [h]
      exact ⟨hi₁, hcursor⟩
    case false =>
      have ⟨log, h⟩ := hnew hinit
      have hs₁ : t₁.conn.body.store? = .ok s₁ := by rw [hb₁]; rfl
      have ⟨_, hcursor', hcases⟩ := provision_cases e hi₁ hs₁
      rw [h] at hr ⊢
      obtain ⟨f, hf, _⟩ | ⟨_, _, _, _, _, hconn⟩ := hcases
      case inl => simp [hf] at hr
      case inr => exact ⟨by rw [hconn]; exact hi₁, hcursor'.trans hcursor⟩

end Table
end AccountCache
