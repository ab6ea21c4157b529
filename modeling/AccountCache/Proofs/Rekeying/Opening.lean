import AccountCache.Proofs.Host.Freshness
import AccountCache.Proofs.Rekeying.Table

namespace AccountCache

variable {π : Rekeying}

-- The master key has not refused to seal a key.
def Granted {α : Type} (r : Except Failure α) : Prop := ∀ reason, r ≠ .error (.sealing reason)

namespace Birth

variable {b b' : Birth} {kind : HandleKeyKind} {sealed sealed' : Bytes}

-- What the one key has sealed for what the other has.
def exchange (b b' : Birth) : Rekeying := fun kind =>
  match b.sealed kind, b'.sealed kind with
  | .ok sealed, .ok sealed' => Equiv.swap sealed sealed'
  | _, _ => Equiv.refl _

theorem exchange_sealed (h : b.sealed kind = .ok sealed) (h' : b'.sealed kind = .ok sealed') :
    b.exchange b' kind sealed = sealed' := by
  simp only [exchange, h, h', Equiv.swap_apply_left]

end Birth

namespace Content

variable {c c' : Content}

theorem no_keys_of_grows (hinit : c.init.isTable = false) (g : c.Grows c') (kind : HandleKeyKind) :
    c'.keySlots kind = none := by
  have hg := g.init
  unfold keySlots
  generalize c.init = r at hinit hg
  generalize c'.init = r' at hg
  cases hg
  case made => exact Rows.get?_empty ..
  case same => cases r <;> first | rfl | cases hinit

theorem Opens.init_isTable (o : c.Opens c') (hm : c.init = .missing) : c'.init.isTable = true := by
  cases o
  case old hn => exact absurd hm hn
  case new    => rfl

theorem Paired.of_init (hi : c'.init = c.init) (h : c.Paired) : c'.Paired := by
  refine h.congr ?_
  funext kind
  rw [keySlots, hi, keySlots]

theorem Paired.grows (h : c.Paired) (g : c.Grows c') : c'.Paired := by
  cases hi : c.init.isTable
  case true  => exact h.of_init (g.init.eq_of_isTable hi)
  case false => exact paired_of_no_keys (no_keys_of_grows hi g)

theorem Paired.made (h : c.Paired) : c.made.Paired := by
  cases hi : c.init
  case missing =>
    have hempty : c.made.init = .table .empty := by rw [Content.made, hi]; rfl
    exact paired_of_no_keys fun kind => by rw [keySlots_of_empty hempty]
  all_goals exact h.of_init (by rw [Content.made, hi]; rfl)

theorem Paired.opens (h : c.Paired) (o : c.Opens c') : c'.Paired := by
  cases o
  case old => exact h.made
  case new node parent _ =>
    intro hp
    have hparent : (Rows.empty.put (Slot.handleKey .node).key (Value.blob node) |>.put
        (Slot.handleKey .parent).key
        (.blob parent)).get? (Slot.handleKey .parent).key = some (.blob parent) := by
      rw [Rows.get?_put, if_pos rfl]
    cases hparent.symm.trans hp

end Content

theorem Body.rekey_of_no_keys {b : Body}
    (h : ∀ s, b.store? = .ok s → ∀ kind, s.content.keySlots kind = none) :
    b.rekey π = b := by
  cases b
  case foreign => rfl
  case store s => simp only [rekey, Store.rekey, Content.rekey_of_no_keys (h s rfl)]

namespace Connection

variable {c c' : Connection}

theorem rekey_of_no_keys (hi : c.phase = .idle)
    (h : ∀ s, c.body.store? = .ok s → ∀ kind, s.content.keySlots kind = none) : c.rekey π = c := by
  have hp : c.phase.rekey π = c.phase := by rw [hi]; rfl
  simp only [rekey, Body.rekey_of_no_keys h, hp]

namespace Rekeyed

theorem setJournal (mode : JournalMode) (h : Rekeyed π c c') :
    Concur (Rekeyed π) (c.setJournal mode) (c'.setJournal mode) := by
  cases h
  have hrefuse : (c.rekey π).journalRefusal? mode = c.journalRefusal? mode := by
    unfold journalRefusal?
    rw [show (c.rekey π).body = c.body.rekey π from rfl, Body.rekey_store?]
    cases c.body.store? <;> rfl
  have hupdate (wal : Bool) : (c.body.rekey π).update (fun s => { s with wal }) =
      (c.body.update fun s => { s with wal }).rekey π :=
    Body.rekey_update (f := fun s => { s with wal }) (fun _ => rfl) c.body
  have hblank : (c.rekey π).body.isBlank = c.body.isBlank := Body.rekey_isBlank c.body
  unfold Connection.setJournal
  rw [hrefuse, hblank]
  split
  · exact ⟨rfl, rfl⟩
  · split
    · exact ⟨rfl, by simp only [Rekeyed, rekey, hupdate]⟩
    · split
      · exact ⟨rfl, rfl⟩
      · exact ⟨rfl, by simp only [Rekeyed, rekey, hupdate]⟩

theorem establish (name : TableName) (h : Rekeyed π c c') :
    Concur (Rekeyed π) (c.establish name) (c'.establish name) := by
  have hlook : Concur (Rekeyed π) (c.read fun content => .ok (content.has name)) _ :=
    h.read fun _ => congrArg Except.ok (Content.rekey_has name)
  obtain ⟨r, c₁, c₁', hr, hr', h₁⟩ := hlook.eq
  unfold Connection.establish
  rw [hr, hr']
  rcases r with _ | _ | _
  case error    => exact ⟨rfl, h₁⟩
  case ok.false => exact h₁.write fun _ => Content.create_rekey name
  case ok.true  => exact ⟨rfl, h₁⟩

theorem establishAll (names : List TableName) (h : Rekeyed π c c') :
    Concur (Rekeyed π) (c.establishAll names) (c'.establishAll names) := by
  induction names generalizing c c'
  case nil => exact ⟨rfl, h⟩
  case cons name names ih =>
    obtain ⟨r, c₁, c₁', hr, hr', h₁⟩ := (h.establish name).eq
    unfold Connection.establishAll
    rw [hr, hr']
    cases r
    case error => exact ⟨rfl, h₁⟩
    case ok    => exact ih h₁

theorem ensureSchema (h : Rekeyed π c c') : Concur (Rekeyed π) c.ensureSchema c'.ensureSchema := by
  have hlook : Concur (Rekeyed π) (c.read fun content => .ok content.init.isTable) _ :=
    h.read fun _ => congrArg Except.ok Relation.rekey_isTable
  obtain ⟨r, c₁, c₁', hr, hr', h₁⟩ := hlook.eq
  unfold Connection.ensureSchema
  rw [hr, hr']
  cases r
  case error => exact ⟨rfl, h₁⟩
  case ok    => exact (h₁.establishAll TableName.all).map _

end Rekeyed

end Connection

namespace Table

open Connection (rekeyed_lockstep)

variable {t t' : Table} {e e' : Entropy} {s : Store} {kind : HandleKeyKind} {sealed : Bytes}

namespace Beside

theorem applyJournal (mode : JournalMode) (inMemory : Bool)
    (b : Beside (Connection.Rekeyed π) t t') :
    Beside (Connection.Rekeyed π) (applyJournal mode inMemory t)
      (Table.applyJournal mode inMemory t') := by
  unfold Table.applyJournal
  split
  case isTrue  => exact { b with }
  case isFalse =>
    obtain ⟨r, c, c', hr, hr', hconn⟩ := (b.conn.setJournal mode).eq
    rw [hr, hr']
    cases r <;> exact { b with conn := hconn }

end Beside

-- The same outcome, and tables side by side, whatever was drawn for them.
structure Twin (π : Rekeying) (x y : Except Failure Unit × Table × Entropy) : Prop where
  result : x.1 = y.1
  tables : Beside (Connection.Rekeyed π) x.2.1 y.2.1

-- A key that both masters seal is stored for either, or for neither.
theorem Beside.provisionKey (b : Beside (Connection.Rekeyed π) t t')
    (hs : t.key.sealNew kind e = .ok sealed) (hs' : t'.key.sealNew kind e' = .ok (π kind sealed)) :
    Twin π (Table.provisionKey kind e t) (Table.provisionKey kind e' t') := by
  have hput (content : Content) : Content.putScalar (.handleKey kind) (π kind sealed)
      (content.rekey π) =
      (Content.putScalar (.handleKey kind) sealed content).map (·.rekey π) :=
    Content.putScalar_rekey (Rekeying.value_handleKey kind)
  have hw := b.conn.write hput
  rw [provisionKey_eq, provisionKey_eq, hs, hs']
  exact ⟨congrArg (·.mapError Failure.storing) hw.result, { b with conn := hw.states }⟩

theorem sealed_of_granted {kinds : List HandleKeyKind}
    (hg : Granted (provisionKeys (kind :: kinds) e t).1) :
    ∃ sealed, t.key.sealNew kind e = .ok sealed := by
  cases hs : t.key.sealNew kind e
  case ok sealed => exact ⟨sealed, rfl⟩
  case error reason =>
    simp only [provisionKeys, provisionKey_eq, hs] at hg
    exact absurd rfl (hg reason)

theorem provisionKey_spent (kind : HandleKeyKind) (e : Entropy) (t : Table) :
    (provisionKey kind e t).2.1.key = t.key.asked [kind] ∧
      (provisionKey kind e t).2.2 = e.afterKey t.key.key.nonceLength := by
  rw [provisionKey_eq, Keyholder.counted_eq_asked]
  split <;> exact ⟨rfl, rfl⟩

theorem Beside.provisionKeys_cons {kinds : List HandleKeyKind}
    (b : Beside (Connection.Rekeyed π) t t')
    (hg : Granted (provisionKeys (kind :: kinds) e t).1)
    (hg' : Granted (provisionKeys (kind :: kinds) e' t').1)
    (hx : ∀ sealed sealed', t.key.sealNew kind e = .ok sealed →
      t'.key.sealNew kind e' = .ok sealed' →
      π kind sealed = sealed')
    (rest : ∀ t₁ t₁', t₁.key = t.key.asked [kind] → t₁'.key = t'.key.asked [kind] →
      Beside (Connection.Rekeyed π) t₁ t₁' →
      Granted (provisionKeys kinds (e.afterKey t.key.key.nonceLength) t₁).1 →
      Granted (provisionKeys kinds (e'.afterKey t'.key.key.nonceLength) t₁').1 →
      Twin π (provisionKeys kinds (e.afterKey t.key.key.nonceLength) t₁)
        (provisionKeys kinds (e'.afterKey t'.key.key.nonceLength) t₁')) :
    Twin π (provisionKeys (kind :: kinds) e t) (provisionKeys (kind :: kinds) e' t') := by
  obtain ⟨sealed, hs⟩ := sealed_of_granted hg
  obtain ⟨sealed', hs'⟩ := sealed_of_granted hg'
  obtain ⟨hresult, b₁⟩ := b.provisionKey hs (hx _ _ hs hs' ▸ hs')
  obtain ⟨hkey, he⟩ := provisionKey_spent kind e t
  obtain ⟨hkey', he'⟩ := provisionKey_spent kind e' t'
  unfold provisionKeys at hg hg' ⊢
  rcases hk : Table.provisionKey kind e t with ⟨r, t₁, e₁⟩
  rcases hk' : Table.provisionKey kind e' t' with ⟨r', t₁', e₁'⟩
  rw [hk] at hg hresult b₁ hkey he
  rw [hk'] at hg' hresult b₁ hkey' he'
  cases hresult
  cases he
  cases he'
  cases r
  case error => exact ⟨rfl, b₁⟩
  case ok    => exact rest t₁ t₁' hkey hkey' b₁ hg hg'

theorem Beside.provisionKeys
    (b : Beside (Connection.Rekeyed ((Birth.mk t.key e).exchange ⟨t'.key, e'⟩)) t t')
    (hg : Granted (provisionKeys HandleKeyKind.all e t).1)
    (hg' : Granted (Table.provisionKeys HandleKeyKind.all e' t').1) :
    Twin ((Birth.mk t.key e).exchange ⟨t'.key, e'⟩) (Table.provisionKeys HandleKeyKind.all e t)
      (Table.provisionKeys HandleKeyKind.all e' t') := by
  refine b.provisionKeys_cons hg hg' (fun _ _ hs hs' => Birth.exchange_sealed hs hs') ?_
  intro t₁ t₁' hkey hkey' b₁ hg₁ hg₁'
  refine b₁.provisionKeys_cons hg₁ hg₁' (fun _ _ hs hs' => ?_) fun _ _ _ _ b₂ _ _ => ⟨rfl, b₂⟩
  rw [hkey] at hs
  rw [hkey'] at hs'
  exact Birth.exchange_sealed hs hs'

theorem granted_of_provision (hg : Granted (provision e t).1) :
    Granted (provisionKeys HandleKeyKind.all e
      { t with conn := { t.conn with phase := .begun } }).1 := by
  intro reason hr
  unfold provision at hg
  rcases hk : provisionKeys HandleKeyKind.all e
    { t with conn := { t.conn with phase := .begun } } with ⟨r, te⟩
  rw [hk] at hg hr
  cases hr
  exact hg reason rfl

theorem Beside.provision
    (b : Beside (Connection.Rekeyed ((Birth.mk t.key e).exchange ⟨t'.key, e'⟩)) t t')
    (hg : Granted (provision e t).1) (hg' : Granted (Table.provision e' t').1) :
    Twin ((Birth.mk t.key e).exchange ⟨t'.key, e'⟩) (Table.provision e t)
      (Table.provision e' t') := by
  have hconn := b.conn
  have begun : Beside (Connection.Rekeyed ((Birth.mk t.key e).exchange ⟨t'.key, e'⟩))
      { t with conn := { t.conn with phase := .begun } }
        { t' with conn := { t'.conn with phase := .begun } } :=
    { b with conn := by rw [hconn]; rfl }
  have keys := begun.provisionKeys (granted_of_provision hg) (granted_of_provision hg')
  unfold Table.provision
  rcases hk : Table.provisionKeys HandleKeyKind.all e
    { t with conn := { t.conn with phase := .begun } }
    with ⟨r, t₁, e₁⟩
  rcases hk' : Table.provisionKeys HandleKeyKind.all e'
    { t' with conn := { t'.conn with phase := .begun } }
    with ⟨r', t₁', e₁'⟩
  rw [hk, hk'] at keys
  obtain ⟨hresult, b₁⟩ := keys
  cases hresult
  cases r
  case error => exact ⟨rfl, (b₁.abort rekeyed_lockstep).states⟩
  case ok =>
    obtain ⟨r, c, c', hr, hr', h₂⟩ := b₁.conn.commit.eq
    simp only [hr, hr']
    cases r
    case error => exact ⟨rfl, { b₁ with conn := (rekeyed_lockstep.abort h₂) }⟩
    case ok    => exact ⟨rfl, { b₁ with conn := h₂ }⟩

-- Where a store is new, it is the new keys that are exchanged from then on.
theorem Beside.prepare (o : StoreOptions) (inMemory : Bool) (b : Beside (Connection.Rekeyed π) t t')
    (hi : t.conn.phase = .idle) (hs : t.conn.body.store? = .ok s)
    (hg : Granted (prepare o inMemory e t).1) (hg' : Granted (Table.prepare o inMemory e' t').1) :
    ∃ π', (s.content.init.isTable = true → π' = π) ∧
      Twin π' (Table.prepare o inMemory e t) (Table.prepare o inMemory e' t') := by
  have b₁ := b.applyJournal o.journal inMemory
  obtain ⟨conn, log, hj, ext, same⟩ := applyJournal_extends o.journal inMemory t
  obtain rfl : (Table.applyJournal o.journal inMemory t).conn = conn := by rw [hj]
  obtain ⟨s₁, hs₁, hc₁⟩ := Connection.committed?_eq_some.mp
    (same.trans (Connection.committed?_eq_some.mpr ⟨s, hs, rfl⟩))
  obtain ⟨ext₁, hschema⟩ := Connection.ensureSchema_cases (ext.phase.trans hi) hs₁
  obtain ⟨r, c, c', hr, hr', h₂⟩ := b₁.conn.ensureSchema.eq
  rw [hr] at hschema ext₁
  have b₂ : Beside (Connection.Rekeyed π) { Table.applyJournal o.journal inMemory t with conn := c }
      { Table.applyJournal o.journal inMemory t' with conn := c' } :=
    { b₁ with conn := h₂ }
  cases r
  case error =>
    rw [prepare_of_failure hr, prepare_of_failure hr']
    exact ⟨π, fun _ => rfl, rfl, b₂⟩
  case ok fresh =>
    cases fresh
    case false =>
      obtain ⟨log, hold⟩ := prepare_of_old (e := e) hr
      obtain ⟨log', hold'⟩ := prepare_of_old (e := e') hr'
      rw [hold, hold']
      exact ⟨π, fun _ => rfl, rfl, { b₂ with }⟩
    case true =>
      obtain ⟨log, hnew⟩ := prepare_of_new (e := e) hr
      obtain ⟨log', hnew'⟩ := prepare_of_new (e := e') hr'
      rw [hnew] at hg ⊢
      rw [hnew'] at hg' ⊢
      obtain ⟨_, hf⟩ | ⟨hfresh, s₂, hs₂, grows, _⟩ := hschema
      case inl => cases hf
      case inr =>
        have hinit : s.content.init.isTable = false := by simpa [hc₁] using hfresh
        -- No keys are stored yet, so that up to here any exchange will do.
        have hblank (π : Rekeying) : c.rekey π = c := by
          refine Connection.rekey_of_no_keys (ext₁.phase.trans (ext.phase.trans hi)) fun s hs => ?_
          rw [hs₂] at hs
          cases hs
          exact Content.no_keys_of_grows (hc₁ ▸ hinit) grows
        have hsame : c' = c := h₂.trans (hblank π)
        have any (π' : Rekeying) : Connection.Rekeyed π' c c' := hsame.trans (hblank π').symm
        have keys := Beside.provision ⟨any _, b₂.path, b₂.cursor⟩ hg hg'
        exact ⟨_, fun h => absurd h (by simp [hinit]), keys.result, { keys.tables with }⟩

-- A single connection that is made ready. There is no node key without a parent key afterwards,
-- either.

theorem prepare_keeps (o : StoreOptions) (inMemory : Bool) (e : Entropy) (hi : t.conn.phase = .idle)
    (hs : t.conn.body.store? = .ok s) (hp : s.content.Paired) (s' : Store)
    (hs' : (prepare o inMemory e t).2.1.conn.body.store? = .ok s') :
    s'.content.Paired ∧ (s.content.init.isTable = true → s'.content.init.isTable = true) := by
  obtain ⟨_, _, grows⟩ | ⟨s₁, hb, _, ⟨_, _, _, hmade⟩ | ⟨_, opens⟩⟩ :=
    prepare_content o inMemory e hi hs
  case inl =>
    obtain ⟨s₁, hs₁, g⟩ := grows.store? hs
    cases hs₁.symm.trans hs'
    exact ⟨hp.grows g, fun hinit => (g.init.eq_of_isTable hinit).symm ▸ hinit⟩
  all_goals
    rw [hb] at hs'
    cases hs'
  case inr.inl =>
    rw [hmade]
    exact ⟨hp.made, fun hinit => (Content.keeps_made.init hinit).symm ▸ hinit⟩
  case inr.inr => exact ⟨hp.opens opens, fun hinit => (opens.keeps.init hinit).symm ▸ hinit⟩

theorem prepare_founded (o : StoreOptions) (inMemory : Bool) (e : Entropy)
    (hi : t.conn.phase = .idle)
    (hs : t.conn.body.store? = .ok s) (hp : s.content.Paired)
    (hr : (prepare o inMemory e t).1 = .ok ()) :
    (prepare o inMemory e t).2.1.conn.Throughout Content.Founded := by
  have hidle := (prepare_idle o inMemory e hi hs hr).left
  refine ⟨fun s' hs' => ⟨?_, (prepare_keeps o inMemory e hi hs hp s' hs').left⟩,
    fun content hc => ?_⟩
  case refine_2 => rw [hidle] at hc; cases hc
  case refine_1 =>
    obtain ⟨_, hf, _⟩ | ⟨s₁, hb, _, ⟨_, hf, _⟩ | ⟨_, opens⟩⟩ := prepare_content o inMemory e hi hs
    case inl     => cases hr.symm.trans hf
    case inr.inl => cases hr.symm.trans hf
    case inr.inr =>
      rw [hb] at hs'
      cases hs'
      cases hinit : s.content.init.isTable
      case true  => rw [opens.keeps.init hinit, hinit]
      case false =>
        exact opens.init_isTable (missing_of_prepare hi hs hr hinit)

end Table

end AccountCache
