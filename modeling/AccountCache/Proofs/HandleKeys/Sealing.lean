import AccountCache.Proofs.HandleKeys.Wiping
import AccountCache.Proofs.Provision
import AccountCache.Proofs.Text.Base64Url

namespace AccountCache

structure Birth where
  holder  : Keyholder
  entropy : Entropy

-- The holder once it has been asked to seal keys: sixteen bytes are twenty-two symbols.
def Keyholder.asked (kinds : List HandleKeyKind) (k : Keyholder) : Keyholder :=
  { k with calls := k.calls ++ kinds.map fun kind => .wrap kind.associated 22 }

namespace Birth

-- What has been used up when it is the turn of a key.
def turn (b : Birth) : HandleKeyKind → Keyholder × Entropy
  | .node   => (b.holder, b.entropy)
  | .parent => (b.holder.asked [.node], b.entropy.afterKey b.holder.key.nonceLength)

def drawn (b : Birth) (kind : HandleKeyKind) : Bytes := ((b.turn kind).2.draw handleKeyLength).1

def sealed (b : Birth) (kind : HandleKeyKind) : Except Report Bytes :=
  (b.turn kind).1.sealNew kind (b.turn kind).2

def stored (b : Birth) (kind : HandleKeyKind) : Option Value := (b.sealed kind).toOption.map .blob

-- The first refusal is the last call, and both keys are stored once both have been sealed.
inductive Asks (b : Birth) : Except Failure Unit → Keyholder → Prop
  | noNode {reason : Report} : b.sealed .node = .error reason →
    Asks b (.error (.sealing reason)) (b.holder.asked [.node])
  | noParent {node : Bytes} {reason : Report} : b.sealed .node = .ok node →
    b.sealed .parent = .error reason →
    Asks b (.error (.sealing reason)) (b.holder.asked [.node, .parent])
  | both {node parent : Bytes} : b.sealed .node = .ok node → b.sealed .parent = .ok parent →
    Asks b (.ok ()) (b.holder.asked [.node, .parent])

variable {b : Birth} {kind : HandleKeyKind} {sealed : Bytes}

theorem stored_of_sealed (h : b.sealed kind = .ok sealed) :
    b.stored kind = some (.blob sealed) := by
  simp [stored, h, Except.toOption]

theorem Asks.isProvisioning {f : Failure} {k : Keyholder} (a : b.Asks (.error f) k) :
    f.isProvisioning = true := by
  cases a <;> rfl

theorem Asks.exists_sealed {k : Keyholder} (a : b.Asks (.ok ()) k) (kind : HandleKeyKind) :
    ∃ sealed, b.sealed kind = .ok sealed := by
  cases a
  case both hnode hparent =>
    cases kind
    case node   => exact ⟨_, hnode⟩
    case parent => exact ⟨_, hparent⟩

theorem asked_node_parent (k : Keyholder) :
    (k.asked [.node]).asked [.parent] = k.asked [.node, .parent] := by
  simp [Keyholder.asked]

end Birth

theorem Keyholder.counted_eq_asked (k : Keyholder) (kind : HandleKeyKind) (e : Entropy) :
    k.counted kind e = k.asked [kind] := by
  have hl : (Text.Base64Url.encode (e.draw handleKeyLength).1).length = 22 := by
    rw [Text.Base64Url.length_encode, Entropy.draw_length]
    rfl
  simp only [counted, hl, asked, List.map_cons, List.map_nil]

namespace Content

variable {c c' : Content} {kind : HandleKeyKind} {bytes : Bytes}

theorem putScalar_ok (hc : c.IsStandard) (s : Slot) (bytes : Bytes) :
    ∃ c', putScalar s bytes c = .ok c' := by
  have hi := hc.init
  cases h : c.init <;> rw [h] at hi <;> try contradiction
  case table rows => exact ⟨_, by rw [putScalar, h]; rfl⟩

theorem putScalar_isStandard {s : Slot} (h : putScalar s bytes c = .ok c') (hc : c.IsStandard) :
    c'.IsStandard := by
  obtain ⟨r, hr, rfl⟩ := map_eq_ok h
  exact { hc with init := Relation.change_isTable hr }

theorem keySlots_putScalar (h : putScalar (.handleKey kind) bytes c = .ok c')
    (other : HandleKeyKind) :
    c'.keySlots other = if other = kind then some (.blob bytes) else c.keySlots other := by
  obtain ⟨r, hr, rfl⟩ := map_eq_ok h
  cases hi : c.init <;> rw [hi] at hr <;> cases hr
  case table rows =>
    have hk : (Slot.handleKey other).key = (Slot.handleKey kind).key ↔ other = kind :=
      ⟨fun h => by simpa using Slot.key_injective h, fun h => by rw [h]⟩
    simp only [keySlots, hi, Rows.get?_put, hk]

end Content

namespace Table

variable {t : Table} {c : Content} {sealed : Bytes}

theorem provisionKey_of_lone (kind : HandleKeyKind) (e : Entropy) (hl : t.conn.Lone)
    (hi : t.conn.inTransaction = true) (hc : t.conn.content? = some c)
    (hs : t.key.sealNew kind e = .ok sealed) :
    ∃ c' conn, Content.putScalar (.handleKey kind) sealed c = .ok c' ∧
      provisionKey kind e t = (.ok (), { t with key := t.key.asked [kind], conn },
        e.afterKey t.key.key.nonceLength) ∧
      conn.Lone ∧ conn.inTransaction = true ∧ conn.content? = some c' := by
  have ⟨c', hu⟩ := Content.putScalar_ok (hl.seen c hc) (.handleKey kind) sealed
  have ⟨conn, hw, hseen, _⟩ := Connection.write_lone hl hc hu
  have hl' := hl.write (u := Content.putScalar (.handleKey kind) sealed)
    Content.putScalar_isStandard
  have hi' :=
    (Connection.write_frame t.conn (Content.putScalar (.handleKey kind) sealed)).right.right
  rw [hw] at hl' hi'
  refine ⟨c', conn, hu, ?_, hl', hi'.trans hi, hseen⟩
  simp only [provisionKey_eq, hs, hw, Keyholder.counted_eq_asked]
  rfl

theorem provisionKey_of_refusal {reason : Report} (kind : HandleKeyKind) (e : Entropy)
    (hs : t.key.sealNew kind e = .error reason) :
    provisionKey kind e t = (.error (.sealing reason), { t with key := t.key.asked [kind] },
      e.afterKey t.key.key.nonceLength) := by
  simp only [provisionKey_eq, hs, Keyholder.counted_eq_asked]

theorem provisionKeys_of_lone (e : Entropy) (hl : t.conn.Lone) (hi : t.conn.inTransaction = true) :
    let b : Birth := ⟨t.key, e⟩
    let r := provisionKeys HandleKeyKind.all e t
    b.Asks r.1 r.2.1.key ∧
    (r.1 = .ok () → r.2.1.conn.Lone ∧ r.2.1.conn.inTransaction = true ∧
      ∀ content, r.2.1.conn.content? = some content → content.keySlots = b.stored) := by
  intro b r
  obtain ⟨c₀, hc₀⟩ := hl.content?_eq_some
  cases hnode : b.sealed .node
  case error reason =>
    have h := provisionKey_of_refusal (t := t) .node e hnode
    simp only [r, HandleKeyKind.all, provisionKeys, h]
    exact ⟨.noNode hnode, fun h => by cases h⟩
  case ok node =>
    obtain ⟨c₁, conn₁, hu₁, h₁, hl₁, hi₁, hc₁⟩ := provisionKey_of_lone (t := t) .node e
      hl hi hc₀ hnode
    cases hparent : b.sealed .parent
    case error reason =>
      have h₂ := provisionKey_of_refusal (t := { t with key := t.key.asked [.node], conn := conn₁ })
        .parent (e.afterKey t.key.key.nonceLength) hparent
      simp only [r, HandleKeyKind.all, provisionKeys, h₁, h₂]
      exact ⟨Birth.asked_node_parent t.key ▸ .noParent hnode hparent, fun h => by cases h⟩
    case ok parent =>
      obtain ⟨c₂, conn₂, hu₂, h₂, hl₂, hi₂, hc₂⟩ := provisionKey_of_lone
        (t := { t with key := t.key.asked [.node], conn := conn₁ }) .parent
        (e.afterKey t.key.key.nonceLength) hl₁ hi₁ hc₁ hparent
      simp only [r, HandleKeyKind.all, provisionKeys, h₁, h₂]
      refine ⟨Birth.asked_node_parent t.key ▸ .both hnode hparent, fun _ =>
        ⟨hl₂, hi₂, fun content h => ?_⟩⟩
      cases hc₂.symm.trans h
      funext kind
      rw [Content.keySlots_putScalar hu₂, Content.keySlots_putScalar hu₁]
      cases kind
      case node   => exact (Birth.stored_of_sealed hnode).symm
      case parent => exact (Birth.stored_of_sealed hparent).symm

theorem provision_of_lone (e : Entropy) (hl : t.conn.Lone) (hi : t.conn.phase = .idle) :
    let b : Birth := ⟨t.key, e⟩
    b.Asks (provision e t).1 (provision e t).2.1.key ∧
    ((provision e t).1 = .ok () → (provision e t).2.1.conn.Lone ∧
      (provision e t).2.1.conn.Tracks b.stored .none) := by
  intro b
  have hl₀ : { t.conn with phase := .begun }.Lone := by
    have m := Connection.Move.begin.lone hl
    simpa [Connection.begin, Connection.inTransaction, hi] using m
  have keys := provisionKeys_of_lone
    (t := { t with conn := { t.conn with phase := .begun } }) e hl₀ rfl
  unfold provision
  cases hp : provisionKeys HandleKeyKind.all e { t with conn := { t.conn with phase := .begun } }
  case mk r te =>
    obtain ⟨t', e'⟩ := te
    rw [hp] at keys
    cases r
    case error f => exact ⟨keys.left, fun h => by cases h⟩
    case ok =>
      obtain ⟨hl', hi', hslots⟩ := keys.right rfl
      obtain ⟨conn, hcommit, hleft, hn⟩ := Connection.commit_lone hl' hi'
      have hl : conn.Lone := by
        have m := Connection.Move.commit.lone hl'
        rwa [hcommit] at m
      have tracks : conn.Tracks b.stored .none :=
        .settled hn (fun content h => hslots content (hleft ▸ h)) rfl
      simp only [hcommit]
      exact ⟨keys.left, fun _ => ⟨hl, tracks⟩⟩

end Table

namespace Connection

variable {c : Connection} {s : Store} {before after : Content} {f : QueryFault}

theorem establish_new (name : TableName) (hi : c.phase = .idle) (hs : c.body.store? = .ok s)
    (hp : c.peers = .ofPhases []) (ho : c.obstacle = none) (hc : s.content = before)
    (hl : before.has name = false) (hu : Content.create name before = .ok after) :
    ∃ s', c.establish name = (.ok (), { c with body := .store s' }) ∧ s'.content = after := by
  subst hc
  have hpend : c.peers.pending = false := by rw [hp]; rfl
  refine ⟨s.commit after, ?_, rfl⟩
  rw [establish_eq name hi hs hpend, hl, hu]
  simp only [Bool.false_eq_true, if_false, barrier?_of_alone hp, ho, ite_self]

theorem ensureSchema_of_blank (hi : c.phase = .idle) (hs : c.body.store? = .ok s)
    (hc : s.content = .blank) (hp : c.peers = .ofPhases []) (ho : c.obstacle = none) :
    ∃ s', c.ensureSchema = (.ok true, { c with body := .store s' }) ∧ s'.content = .empty := by
  have hpend : c.peers.pending = false := by rw [hp]; rfl
  have ⟨s₁, h₁, hc₁⟩ := establish_new .init hi hs hp ho hc rfl rfl
  have ⟨s₂, h₂, hc₂⟩ := establish_new (c := { c with body := .store s₁ }) .nodes
    hi rfl hp ho hc₁ rfl rfl
  have ⟨s₃, h₃, hc₃⟩ := establish_new (c := { c with body := .store s₂ }) .users
    hi rfl hp ho hc₂ rfl rfl
  have ⟨s₄, h₄, hc₄⟩ := establish_new (c := { c with body := .store s₃ }) .pcrs
    hi rfl hp ho hc₃ rfl rfl
  refine ⟨s₄, ?_, hc₄⟩
  simp only [ensureSchema, read_idle_of_not_pending hi hs hpend, TableName.all,
    establishAll, h₁, h₂, h₃, h₄, hc]
  rfl

end Connection

namespace Table

variable {t : Table}

-- A blank file is given all tables and both keys, or it has no place for a journal and stays blank.
theorem prepare_of_blank (o : StoreOptions) (e : Entropy) (hi : t.conn.phase = .idle)
    (hb : t.conn.body = .foreign []) (hp : t.conn.peers = .ofPhases []) :
    let b : Birth := ⟨t.key, e⟩
    let r := t.prepare o false e
    (∃ f, t.conn.obstacle = some f ∧ r.1 = .error (.schema f) ∧ r.2.1.conn = t.conn ∧
      r.2.1.key = t.key) ∨
    (t.conn.obstacle = none ∧ b.Asks r.1 r.2.1.key ∧
      (r.1 = .ok () → r.2.1.conn.Lone ∧ r.2.1.conn.Tracks b.stored .none)) := by
  intro b r
  cases ho : t.conn.obstacle
  case some f =>
    obtain ⟨log, hprep⟩ := prepare_of_obstacle o e hi (by rw [hb]; rfl) (by rw [hp]; rfl) ho
    refine .inl ⟨f, rfl, ?_⟩
    simp only [r, hprep, hp]
    exact ⟨rfl, trivial, trivial⟩
  case none =>
    obtain ⟨conn, log, hj, ext, same⟩ := applyJournal_extends o.journal false t
    obtain ⟨s, hs, hc⟩ := Connection.committed?_eq_some.mp
      (same.trans (Connection.committed?_eq_some.mpr ⟨.blank, by rw [hb]; rfl, rfl⟩))
    have hi' : conn.phase = .idle := ext.phase.trans hi
    have hp' : conn.peers = .ofPhases [] := by rw [ext.rest]; exact hp
    have ho' : conn.obstacle = none := by rw [ext.rest]; exact ho
    obtain ⟨s', he, hs'⟩ := Connection.ensureSchema_of_blank hi' hs hc hp' ho'
    have hl := Connection.lone_of_idle (c := { conn with body := .store s' }) hi' rfl
      (hs' ▸ ⟨rfl, rfl, rfl, rfl⟩) hp' ho'
    have keys := provision_of_lone
      (t := { t with conn := { conn with body := .store s' }, log }) e hl hi'
    refine .inr ⟨rfl, ?_⟩
    simp only [r, prepare, hj, he, if_true]
    cases hk : provision e { t with conn := { conn with body := .store s' }, log }
    case mk result te =>
      rw [hk] at keys
      cases result <;> exact keys

end Table
end AccountCache
