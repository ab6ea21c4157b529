import AccountCache.Proofs.Preservation
import AccountCache.Proofs.Standard
import Mathlib.Control.Monad.Basic

namespace AccountCache

-- A table other than `init` could not be made.
def QueryFault.isLate : QueryFault → Bool
  | indexNamed t => t ≠ .init
  | _            => false

namespace Content

variable {c c' : Content} {name : TableName} {f : QueryFault}

-- The failure comes after an `init` table has been made in the place of none.
def Spends (f : QueryFault) (c : Content) : Prop := c.init = .missing ∧ f.isLate = true

instance : Decidable (Spends f c) := inferInstanceAs (Decidable (_ ∧ _))

def initAfter (f : QueryFault) (c : Content) : Relation Value :=
  if c.Spends f then .table .empty else c.init

theorem initAfter_of_ne (h : c.init ≠ .missing) : c.initAfter f = c.init :=
  if_neg fun spends => h spends.left

theorem initAfter_of_not_isLate (h : f.isLate = false) : c.initAfter f = c.init :=
  if_neg fun spends => Bool.false_ne_true (h.symm.trans spends.right)

theorem indexNamed_of_create (h : create name c = .error f) : f = .indexNamed name := by
  have one {α : Type} {r : Relation α} {g : Relation α → Content}
      (hr : (r.create name).map g = .error f) : f = .indexNamed name := by
    cases r <;> cases hr
    rfl
  cases name <;> exact one h

theorem init_of_create (hn : name ≠ .init) (h : create name c = .ok c') : c'.init = c.init := by
  cases name
  case init => contradiction
  all_goals
    obtain ⟨_, _, he⟩ := map_eq_ok h
    rw [← he]

theorem create_init (hl : c.has .init = false) (h : create .init c = .ok c') :
    c.init = .missing ∧ c'.init = .table .empty := by
  obtain ⟨r, hr, he⟩ := map_eq_ok h
  rw [← he]
  cases hi : c.init <;> rw [hi] at hr <;> cases hr
  case missing => exact ⟨rfl, rfl⟩
  all_goals simp [has, hi, Relation.isListed] at hl

end Content

namespace Connection

variable {c : Connection} {s : Store} {names : List TableName} {f : QueryFault}

-- The other tables leave `init` alone. Where changes can be made, only an index is in their way.
theorem establishAll_init (hn : .init ∉ names) (hi : c.phase = .idle) (hs : c.body.store? = .ok s)
    (hp : c.peers.pending = false) :
    ∃ s', (establishAll names c).2.body.store? = .ok s' ∧ s'.content.init = s.content.init ∧
      (c.barrier? s.wal = none → ∀ f, (establishAll names c).1 = .error f → f.isLate = true) := by
  induction names generalizing c s
  case nil => exact ⟨s, hs, rfl, fun _ f h => by cases h⟩
  case cons name names ih =>
    simp only [List.mem_cons, not_or] at hn
    simp only [establishAll, establish_eq name hi hs hp]
    cases s.content.has name
    case true => exact ih hn.right hi hs hp
    case false =>
      simp only [Bool.false_eq_true, if_false]
      cases hu : Content.create name s.content
      case error f =>
        refine ⟨s, hs, rfl, fun _ f' h => ?_⟩
        cases h
        simpa [Content.indexNamed_of_create hu, QueryFault.isLate] using Ne.symm hn.left
      case ok next =>
        cases hb : c.barrier? s.wal
        case some => exact ⟨s, hs, rfl, fun h => by contradiction⟩
        case none =>
          obtain ⟨s', hs', hinit, hlate⟩ := ih (c := { c with body := .store (s.commit next) })
            (s := s.commit next) hn.right hi rfl hp
          exact ⟨s', hs', hinit.trans (Content.init_of_create (Ne.symm hn.left) hu),
            fun _ => hlate hb⟩

theorem isLate_of_barrier? {wal : Bool} (ho : ∀ t, c.obstacle ≠ some (.indexNamed t))
    (h : c.barrier? wal = some f) : f.isLate = false := by
  cases f
  case indexNamed t =>
    have hn := ho t
    simp only [barrier?] at h
    split at h <;> simp_all
  all_goals rfl

theorem establishAll_error (hi : c.phase = .idle) (hs : c.body.store? = .ok s)
    (hp : c.peers.pending = false) (ho : ∀ t, c.obstacle ≠ some (.indexNamed t))
    (h : (establishAll TableName.all c).1 = .error f) :
    ∃ s', (establishAll TableName.all c).2.body.store? = .ok s' ∧
    s'.content.init = s.content.initAfter f := by
  have hrest : TableName.init ∉ [.nodes, .users, .pcrs] := by decide
  simp only [TableName.all, establishAll, establish_eq .init hi hs hp] at h ⊢
  cases hl : s.content.has .init
  case true =>
    simp only [hl, if_true] at h ⊢
    obtain ⟨s', hs', hinit, _⟩ := establishAll_init hrest hi hs hp
    refine ⟨s', hs', hinit.trans (Content.initAfter_of_ne fun hm => ?_).symm⟩
    simp [Content.has, hm, Relation.isListed] at hl
  case false =>
    simp only [hl, Bool.false_eq_true, if_false] at h ⊢
    cases hu : Content.create .init s.content <;> simp only [hu] at h ⊢
    case error g =>
      cases h
      refine ⟨s, hs, (Content.initAfter_of_not_isLate ?_).symm⟩
      rw [Content.indexNamed_of_create hu]
      rfl
    case ok next =>
      obtain ⟨hm, hmade⟩ := Content.create_init hl hu
      cases hb : c.barrier? s.wal <;> simp only [hb] at h ⊢
      case some g =>
        cases h
        exact ⟨s, hs, (Content.initAfter_of_not_isLate <| isLate_of_barrier? ho hb).symm⟩
      case none =>
        obtain ⟨s', hs', hinit, hlate⟩ :=
          establishAll_init (c := { c with body := .store (s.commit next) })
          (s := s.commit next) hrest hi rfl hp
        exact ⟨s', hs', hinit.trans (hmade.trans (if_pos ⟨hm, hlate hb f h⟩).symm)⟩

theorem ensureSchema_error (hi : c.phase = .idle) (hs : c.body.store? = .ok s)
    (hp : c.peers.pending = false) (ho : ∀ t, c.obstacle ≠ some (.indexNamed t))
    (h : c.ensureSchema.1 = .error f) :
    ∃ s', c.ensureSchema.2.body.store? = .ok s' ∧ s'.content.init = s.content.initAfter f := by
  simp only [ensureSchema, read_idle_of_not_pending hi hs hp] at h ⊢
  cases hr : (establishAll TableName.all c).1 <;> rw [hr] at h <;> cases h
  exact establishAll_error hi hs hp ho hr

end Connection

namespace Table

variable {t : Table} {s : Store} {f : QueryFault} {o : StoreOptions} {inMemory : Bool} {e : Entropy}

theorem provision_ne_schema (e : Entropy) (f : QueryFault) (hi : t.conn.phase = .idle)
    (hs : t.conn.body.store? = .ok s) : (provision e t).1 ≠ .error (.schema f) := by
  obtain ⟨_, _, ⟨g, hg, hkind, _⟩ | ⟨_, _, _, _, hok, _⟩⟩ := provision_cases e hi hs
  case inl =>
    rw [hg]
    rintro ⟨⟩
    contradiction
  case inr => simp [hok]

theorem prepare_schema (hi : t.conn.phase = .idle) (hs : t.conn.body.store? = .ok s)
    (hp : t.conn.peers.pending = false) (ho : ∀ name, t.conn.obstacle ≠ some (.indexNamed name))
    (h : (t.prepare o inMemory e).1 = .error (.schema f)) :
    ∃ s', (t.prepare o inMemory e).2.1.conn.body.store? = .ok s' ∧
      s'.content.init = s.content.initAfter f := by
  obtain ⟨conn, log, hj, ext, same⟩ := applyJournal_extends o.journal inMemory t
  obtain ⟨s₀, hs₀, hc₀⟩ := Connection.committed?_eq_some.mp
    (same.trans (Connection.committed?_eq_some.mpr ⟨s, hs, rfl⟩))
  have hi₀ := ext.phase.trans hi
  have hp₀ : conn.peers.pending = false := by rw [ext.rest]; exact hp
  have ho₀ : ∀ name, conn.obstacle ≠ some (.indexNamed name) := by rw [ext.rest]; exact ho
  cases he : conn.ensureSchema
  case mk r conn' =>
    cases r
    case error g =>
      have hprep : t.prepare o inMemory e =
          (.error (.schema g), { t with conn := conn', log }, e) := by
        simp only [prepare, hj, he]
      rw [hprep] at h ⊢
      cases h
      obtain ⟨s', hs', hinit⟩ :=
        Connection.ensureSchema_error hi₀ hs₀ hp₀ ho₀ (congrArg Prod.fst he)
      rw [he] at hs'
      exact ⟨s', hs', hc₀ ▸ hinit⟩
    case ok fresh =>
      have ext' := (Connection.ensureSchema_cases hi₀ hs₀).left
      obtain ⟨s', hs', _⟩ := ext'.body.store? hs₀
      rw [he] at ext' hs'
      have hn := provision_ne_schema (t := { t with conn := conn', log }) e f
        (ext'.phase.trans hi₀) hs'
      simp only [prepare, hj, he] at h
      cases fresh
      case false => contradiction
      case true =>
        cases hv : provision e { t with conn := conn', log }
        case mk r te =>
          rw [hv] at hn
          simp only [hv, if_true] at h
          cases r
          case error => exact absurd h hn
          case ok    => contradiction

theorem missing_of_prepare (hi : t.conn.phase = .idle) (hs : t.conn.body.store? = .ok s)
    (hr : (t.prepare o inMemory e).1 = .ok ()) (hinit : s.content.init.isTable = false) :
    s.content.init = .missing := by
  obtain ⟨t₁, _, _, _, ext, ⟨f, hf⟩ | ⟨s₁, hb₁, g, hall, _, hnew⟩⟩ :=
    prepare_cases o inMemory e hi hs
  case inl => simp [hf] at hr
  case inr =>
    obtain ⟨log, h⟩ := hnew hinit
    obtain ⟨_, _, ⟨f, hf, _⟩ | ⟨node, parent, after, hkeys, _⟩⟩ :=
      provision_cases e (ext.phase.trans hi) (show t₁.conn.body.store? = .ok s₁ by rw [hb₁]; rfl)
    case inl => simp [h, hf] at hr
    case inr =>
      rw [g.eq_made hall] at hkeys
      exact (storeKeys_made hinit hkeys).left

end Table

namespace Content

variable {c : Content}

theorem scalar_of_empty (h : c.init = .table .empty) (s : Slot) : c.scalar s = .ok none := by
  rw [scalar, h]
  rfl

theorem scalar_of_keyTable {node parent : Bytes} (h : c.init = keyTable node parent)
    (kind : HandleKeyKind) :
    ∃ bytes, c.scalar (.handleKey kind) = .ok (some bytes) := by
  rw [scalar, h]
  cases kind
  case node   => exact ⟨node, rfl⟩
  case parent => exact ⟨parent, rfl⟩

end Content

namespace Table

variable {t : Table} {c : Content} {kind : HandleKeyKind} {bytes : Bytes}

theorem readHandleKeys_of_empty (hs : t.conn.Sees c) (h : c.init = .table .empty) :
    (readHandleKeys t).1 = .error (.missingHandleKey (.handleKey .node)) := by
  simp only [readHandleKeys, readHandleKey, scalar, read_of_sees hs (Content.scalar_of_empty h _)]

theorem readHandleKey_ne_missing (hc : t.conn.content? = some c)
    (hq : c.scalar (.handleKey kind) = .ok (some bytes)) (slot : Slot) :
    (readHandleKey kind t).1 ≠ .error (.missingHandleKey slot) := by
  unfold readHandleKey scalar read
  cases hr : t.conn.read (Content.scalar (.handleKey kind))
  case mk r conn =>
    cases r
    case error f => simp [onConnection_of_error hr]
    case ok found =>
      obtain ⟨c', hc', hq'⟩ := Connection.eq_ok_of_read (congrArg Prod.fst hr)
      cases hc.symm.trans hc'
      cases hq.symm.trans hq'
      simp only [onConnection_of_ok hr]
      cases (t.key.unwrap kind.associated bytes).1
      case error   => rintro ⟨⟩
      case ok text => dsimp only; cases decodeHandleKey text <;> rintro ⟨⟩

theorem readHandleKeys_ne_missing {node parent : Bytes} (hc : t.conn.content? = some c)
    (h : c.init = Content.keyTable node parent) (slot : Slot) :
    (readHandleKeys t).1 ≠ .error (.missingHandleKey slot) := by
  obtain ⟨_, hnode⟩ := Content.scalar_of_keyTable h .node
  obtain ⟨_, hparent⟩ := Content.scalar_of_keyTable h .parent
  have hn := readHandleKey_ne_missing hc hnode slot
  have hconn := readHandleKey_conn (t := t) .node
  unfold readHandleKeys
  split
  case h_1 hr =>
    rintro ⟨⟩
    exact hn (congrArg Prod.fst hr)
  case h_2 node' t' hr =>
    rw [hr] at hconn
    have hc' : t'.conn.content? = some c := by rw [hconn, Connection.read_content?, hc]
    have hp := readHandleKey_ne_missing hc' hparent slot
    split
    case h_1 hr' =>
      rintro ⟨⟩
      exact hp (congrArg Prod.fst hr')
    case h_2 => rintro ⟨⟩

end Table

-- An `init` table is as it was, and where there was none there is none.
def Content.KeepsInit (c c' : Content) : Prop :=
  if c.init.isTable then c'.init = c.init else c'.init.isTable = false

namespace Host

variable {h : Host} {n : Naming} {path name : String} {b : Body} {s : Store}
    {f : QueryFault} {i : Nat}
  {o : StoreOptions} {label key : String}

-- What a failure to make the tables comes to for the handle keys of the store, whenever it is
-- opened again with the `init` table as it was left.
structure Aftermath (n : Naming) (path name : String) (f : QueryFault)
    (before after : Content) : Prop where
  init  : after.init = if before.Spends f then .table .empty else before.init
  later : before.init.isTable = false →
    ∀ (h : Host) (label : String) (o : StoreOptions) (key : String) (b : Body) (s : Store),
      Finds n path h.disk b → b.store? = .ok s → after.KeepsInit s.content →
      (h.open label n o name key).1 = .ok () →
      ∃ t, (h.open label n o name key).2.table? label = some t ∧
        ((∃ slot, t.readHandleKeys.1 = .error (.missingHandleKey slot)) ↔ before.Spends f)

theorem obstacle_ne_indexNamed (t : TableName) : h.obstacle path i ≠ some (.indexNamed t) := by
  unfold obstacle
  split
  · simp
  · split <;> simp

theorem Arrives.store? {h₂ : Host} (a : Arrives n path h i h₂) (hb : Finds n path h.disk b)
    (hs : b.store? = .ok s) :
    (h₂.assemble label (newSeat path key i)).conn.body.store? = .ok s := by
  rw [← hs, ← a.body_eq hb]
  rfl

theorem settle_schema {h₂ : Host} (a : Arrives n path h i h₂) (hm : path ≠ memoryPath)
    (hb : Finds n path h.disk b) (hs : b.store? = .ok s) (hp : (h₂.peers label i).pending = false)
    (hf : (h₂.settle label o (newSeat path key i)).1 = .error (.schema f)) :
    ∃ b' s', stored? path (h₂.settle label o (newSeat path key i)).2.disk = some b' ∧
      b'.store? = .ok s' ∧ s'.content.init = s.content.initAfter f := by
  obtain ⟨hr, hdisk, _⟩ := settle_eq label o (newSeat path key i) h₂
  have ho (name : TableName) :
      (h₂.assemble label (newSeat path key i)).conn.obstacle ≠ some (.indexNamed name) := by
    simp only [assemble]
    split
    · simp
    · exact obstacle_ne_indexNamed name
  obtain ⟨s', hs', hinit⟩ := Table.prepare_schema rfl (a.store? hb hs) hp ho (hr.symm.trans hf)
  refine ⟨_, s', ?_, hs', hinit⟩
  rw [hdisk]
  exact install_stored? (s := newSeat path key i) (a.file hm) (a.lt hb)

theorem settle_sees {h₂ : Host} (a : Arrives n path h i h₂)
    (hb : Finds n path h.disk b) (hs : b.store? = .ok s) (hp : (h₂.peers label i).pending = false)
    (hr : (h₂.settle label o (newSeat path key i)).1 = .ok ()) :
    ∃ t c, (h₂.settle label o (newSeat path key i)).2.table? label = some t ∧ t.conn.Sees c ∧
      s.content.Opens c ∧ (s.content.init.isTable = false → s.content.init = .missing) := by
  obtain ⟨hres, _, hinst⟩ := settle_eq label o (newSeat path key i) h₂
  obtain ⟨_, hf, _⟩ | ⟨s', _, _, ⟨_, hf, _⟩ | ⟨_, opens, t, ht, _, hc⟩⟩ :=
    settle_content label o key a hb hs
  case inl     => simp [hf] at hr
  case inr.inl => simp [hf] at hr
  case inr.inr =>
    refine ⟨t, s'.content, ht, ⟨hc, .inr ?_⟩, opens,
      Table.missing_of_prepare rfl (a.store? hb hs) (hres.symm.trans hr)⟩
    -- The other tables are those that the opening has found.
    obtain ⟨seat, hseat, rfl⟩ := eq_assemble_of_table? ht
    rw [hinst (hres.symm.trans hr)] at hseat ⊢
    cases install_seat?.symm.trans hseat
    exact (congrArg Peers.pending (install_peers i)).trans hp

-- An opening that succeeds takes an `init` table as it is, and makes one with both keys where there
-- was none.
theorem openNamed_keys (hp : n.path name = .ok path) (hb : Finds n path h.disk b)
    (hs : b.store? = .ok s) (hr : (h.openNamed label n o name key).1 = .ok ()) :
    ∃ t c, (h.openNamed label n o name key).2.table? label = some t ∧ t.conn.Sees c ∧
      (s.content.init.isTable = true → c.init = s.content.init) ∧
      (s.content.init.isTable = false → ∃ node parent, c.init = Content.keyTable node parent) := by
  obtain ⟨f, h', ho, _⟩ | ⟨i, h₂, a, _, hpend, ho⟩ := openNamed_cases (h := h) label o key hp
  case inl => simp [ho] at hr
  case inr =>
    rw [ho] at hr ⊢
    obtain ⟨t, c, ht, hsees, opens, hmissing⟩ := settle_sees a hb hs hpend hr
    refine ⟨t, c, ht, hsees, opens.keeps.init, fun hinit => ?_⟩
    cases opens
    case old hn            => exact absurd (hmissing hinit) hn
    case new node parent _ => exact ⟨node, parent, rfl⟩

theorem Aftermath.of_init {before after : Content} (hp : n.path name = .ok path)
    (hinit : after.init = before.initAfter f) : Aftermath n path name f before after where
  init := hinit
  later hnone h label o key b s hb hs hkeeps hok := by
    have hd : (h.close label).2.disk = h.disk := close_disk
    obtain ⟨t, c, ht, hsees, hold, hnew⟩ := openNamed_keys hp (hd ▸ hb) hs hok
    refine ⟨t, ht, ?_⟩
    by_cases hspent : before.Spends f
    case pos =>
      have hempty : after.init = .table .empty := hinit.trans (if_pos hspent)
      have hsame : s.content.init = .table .empty := by
        simpa [Content.KeepsInit, hempty, Relation.isTable] using hkeeps
      have hc : c.init = .table .empty := (hold (by rw [hsame]; rfl)).trans hsame
      exact iff_of_true ⟨_, Table.readHandleKeys_of_empty hsees hc⟩ hspent
    case neg =>
      have hstays : after.init.isTable = false := by
        rw [hinit, Content.initAfter, if_neg hspent]
        exact hnone
      have hfresh : s.content.init.isTable = false := by
        simpa [Content.KeepsInit, hstays] using hkeeps
      obtain ⟨node, parent, hc⟩ := hnew hfresh
      refine iff_of_false ?_ hspent
      rintro ⟨slot, hmissing⟩
      exact Table.readHandleKeys_ne_missing hsees.content hc slot hmissing

-- An opening that fails to make the tables leaves a new store as new as it was, except where an
-- index has the name of a table other than `init`: then it gets no handle keys while its `init`
-- table is left alone.
theorem open_aftermath (hp : n.path name = .ok path) (hm : path ≠ memoryPath)
    (hb : Finds n path h.disk b) (hs : b.store? = .ok s)
    (hf : (h.open label n o name key).1 = .error (.schema f)) :
    ∃ b' s', stored? path (h.open label n o name key).2.disk = some b' ∧ b'.store? = .ok s' ∧
      Aftermath n path name f s.content s'.content := by
  have hd : (h.close label).2.disk = h.disk := close_disk
  rw [Host.open] at hf ⊢
  obtain ⟨g, h', ho, _⟩ | ⟨i, h₂, a, _, hpend, ho⟩ :=
    openNamed_cases (h := (h.close label).2) label o key hp
  case inl => simp [ho] at hf
  case inr =>
    rw [ho] at hf ⊢
    obtain ⟨b', s', hb', hs', hinit⟩ := settle_schema a hm (hd ▸ hb) hs hpend hf
    exact ⟨b', s', hb', hs', .of_init hp hinit⟩

def indexed : Host where
  disk    := ⟨[(["a.db"], .file 0)],
    [.store ⟨{ Content.blank with nodes := .indexName }, 0, false⟩]⟩
  seats   := []
  keyring := []
  entropy := ⟨fun _ => 0, 0⟩
  log     := []

def unindexed (h : Host) : Host :=
  { h with disk := h.disk.setBody 0 ((h.body 0).update fun s =>
    s.commit { s.content with nodes := .missing }) }

theorem indexed_aftermath :
    let before : Content := { Content.blank with nodes := .indexName }
    let opened := indexed.open "t" plainNaming .default "a" "k"
    plainNaming.path "a" = .ok "a.db" ∧ "a.db" ≠ memoryPath ∧
    Finds plainNaming "a.db" indexed.disk (.store ⟨before, 0, false⟩) ∧
    opened.1 = .error (.schema (.indexNamed .nodes)) ∧
    ∃ b s, stored? "a.db" opened.2.disk = some b ∧ b.store? = .ok s ∧
      Aftermath plainNaming "a.db" "a" (.indexNamed .nodes) before s.content := by
  intro before opened
  have hfinds : Finds plainNaming "a.db" indexed.disk (.store ⟨before, 0, false⟩) :=
    .file (by decide) rfl
  have hf : opened.1 = .error (.schema (.indexNamed .nodes)) := by decide +kernel
  exact ⟨plainNaming_path, by decide, hfinds, hf,
    open_aftermath plainNaming_path (by decide) hfinds rfl hf⟩

-- There was no `init` table, and there is one; without the index the store opens, and has no keys.
theorem indexed_spent :
    let opened := indexed.open "t" plainNaming .default "a" "k"
    let again := (unindexed opened.2).open "t" plainNaming .default "a" "k"
    opened.1 = .error (.schema (.indexNamed .nodes)) ∧
    ((stored? "a.db" indexed.disk).map (·.store?.toOption.map (·.content.init.isTable))) =
      some (some false) ∧
    ((stored? "a.db" opened.2.disk).map (·.store?.toOption.map (·.content.init.isTable))) =
      some (some true) ∧
    again.1 = .ok () ∧
    ((again.2.table? "t").map fun t => t.readHandleKeys.1) =
      some (.error (.missingHandleKey (.handleKey .node))) := by
  decide +kernel

end Host
end AccountCache
