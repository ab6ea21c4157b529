import AccountCache.Proofs.Connection
import AccountCache.Table.Opening

namespace AccountCache

-- The relation is as it was, or its name was free and it is an empty table now.
inductive Relation.Grows {α : Type} : Relation α → Relation α → Prop
  | same {r : Relation α} : Grows r r
  | made : Grows .missing (.table .empty)

namespace Relation

variable {α : Type} {r r' r'' : Relation α}

theorem Grows.trans (g : Grows r r') (g' : Grows r' r'') : Grows r r'' := by
  cases g
  case same => exact g'
  case made =>
    cases g'
    exact .made

theorem Grows.isListed (g : Grows r r') (h : r.isListed = true) : r'.isListed = true := by
  cases g
  case same => exact h
  case made => contradiction

theorem Grows.eq_of_isTable (g : Grows r r') (h : r.isTable = true) : r' = r := by
  cases g
  case same => rfl
  case made => contradiction

theorem create_grows {name : TableName} (h : r.create name = .ok r') :
    Grows r r' ∧ r'.isListed = true := by
  cases r <;> cases h
  case missing => exact ⟨.made, rfl⟩
  case view    => exact ⟨.same, rfl⟩
  case table   => exact ⟨.same, rfl⟩

end Relation

structure Content.IsStandard (c : Content) : Prop where
  init  : c.init.isTable = true
  nodes : c.nodes.isTable = true
  users : c.users.isTable = true
  pcrs  : c.pcrs.isTable = true

structure Content.Grows (c c' : Content) : Prop where
  init  : c.init.Grows c'.init
  nodes : c.nodes.Grows c'.nodes
  users : c.users.Grows c'.users
  pcrs  : c.pcrs.Grows c'.pcrs

namespace Content

variable {c c' : Content} {name : TableName}

theorem Grows.refl : c.Grows c := ⟨.same, .same, .same, .same⟩

theorem Grows.trans (g : Grows c₁ c₂) (g' : Grows c₂ c₃) : Grows c₁ c₃ where
  init  := g.init.trans g'.init
  nodes := g.nodes.trans g'.nodes
  users := g.users.trans g'.users
  pcrs  := g.pcrs.trans g'.pcrs

theorem Grows.has (g : c.Grows c') (h : c.has name = true) : c'.has name = true := by
  cases name
  case init  => exact g.init.isListed h
  case nodes => exact g.nodes.isListed h
  case users => exact g.users.isListed h
  case pcrs  => exact g.pcrs.isListed h

theorem create_grows (h : create name c = .ok c') : c.Grows c' ∧ c'.has name = true := by
  cases name <;> simp only [create] at h
  case init =>
    cases hr : c.init.create .init <;> rw [hr] at h <;> cases h
    have ⟨g, hl⟩ := Relation.create_grows hr
    exact ⟨{ Grows.refl with init := g }, hl⟩
  case nodes =>
    cases hr : c.nodes.create .nodes <;> rw [hr] at h <;> cases h
    have ⟨g, hl⟩ := Relation.create_grows hr
    exact ⟨{ Grows.refl with nodes := g }, hl⟩
  case users =>
    cases hr : c.users.create .users <;> rw [hr] at h <;> cases h
    have ⟨g, hl⟩ := Relation.create_grows hr
    exact ⟨{ Grows.refl with users := g }, hl⟩
  case pcrs =>
    cases hr : c.pcrs.create .pcrs <;> rw [hr] at h <;> cases h
    have ⟨g, hl⟩ := Relation.create_grows hr
    exact ⟨{ Grows.refl with pcrs := g }, hl⟩

theorem IsStandard.has (h : c.IsStandard) (name : TableName) : c.has name = true := by
  have listed {α : Type} {r : Relation α} (hr : r.isTable = true) : r.isListed = true := by
    cases r <;> first | rfl | contradiction
  cases name
  case init  => exact listed h.init
  case nodes => exact listed h.nodes
  case users => exact listed h.users
  case pcrs  => exact listed h.pcrs

end Content

-- A body that can be read has gained tables and nothing else.
inductive Body.Grows (b : Body) : Body → Prop
  | same : Grows b b
  | store {s s' : Store} : b.store? = .ok s → s.content.Grows s'.content → Grows b (.store s')

namespace Body

variable {b b' : Body} {s s' : Store}

theorem Grows.trans (g : Grows b₁ b₂) (g' : Grows b₂ b₃) : Grows b₁ b₃ := by
  cases g'
  case same => exact g
  case store s s' hs gc' =>
    cases g
    case same => exact .store hs gc'
    case store s₀ s₁ hs₀ gc =>
      cases hs
      exact .store hs₀ (gc.trans gc')

theorem Grows.store? (g : b.Grows b') (hs : b.store? = .ok s) :
    ∃ s', b'.store? = .ok s' ∧ s.content.Grows s'.content := by
  cases g
  case same => exact ⟨s, hs, .refl⟩
  case store s₀ s' hs₀ gc =>
    cases hs.symm.trans hs₀
    exact ⟨s', rfl, gc⟩

theorem eq_store_of_has {name : TableName} (hs : b.store? = .ok s) (h : s.content.has name = true) :
    b = .store s := by
  cases b
  case store => cases hs; rfl
  case foreign bytes =>
    simp only [Body.store?] at hs
    split at hs <;> cases hs
    cases name <;> contradiction

theorem update_wal_grows (b : Body) (wal : Bool) : b.Grows (b.update fun s => { s with wal }) := by
  unfold update
  split
  case h_1 s hs => exact .store hs .refl
  case h_2      => exact .same

end Body

namespace Connection

variable {α : Type} {c c' : Connection} {s : Store}

theorem read_of_idle {q : Content → Except QueryFault α} (hi : c.phase = .idle) :
    (c.read q).2 = c := by
  obtain h | ⟨_, hp, _⟩ := read_eq_or_look c q
  · exact h
  · rw [hi] at hp; contradiction

theorem eq_ok_of_read_of_idle {q : Content → Except QueryFault α} {a : α} (hi : c.phase = .idle)
    (h : (c.read q).1 = .ok a) : ∃ s, c.body.store? = .ok s ∧ q s.content = .ok a := by
  obtain ⟨content, hc, hq⟩ := eq_ok_of_read h
  simp only [content?, hi, Option.map_eq_some_iff] at hc
  obtain ⟨s, hs, rfl⟩ := hc
  cases hb : c.body.store? <;> rw [hb] at hs <;> cases hs
  exact ⟨s, rfl, hq⟩

-- The connection differs in its body alone, which has gained tables.
structure Extends (c c' : Connection) : Prop where
  rest : c' = { c with body := c'.body }
  body : c.body.Grows c'.body

namespace Extends

protected theorem refl : Extends c c := ⟨rfl, .same⟩

protected theorem trans (e : Extends c₁ c₂) (e' : Extends c₂ c₃) : Extends c₁ c₃ where
  rest := by rw [e'.rest, e.rest]
  body := e.body.trans e'.body

theorem phase (e : Extends c c') : c'.phase = c.phase := by rw [e.rest]

end Extends

theorem establish_extends (name : TableName) (hi : c.phase = .idle) :
    Extends c (c.establish name).2 ∧
      ((c.establish name).1 = .ok () → ∃ s, (c.establish name).2.body.store? = .ok s ∧
        s.content.has name = true) := by
  have hsame := read_of_idle (q := fun content => .ok (content.has name)) hi
  unfold establish
  cases hr : c.read fun content => .ok (content.has name)
  case mk r c' =>
    rw [hr] at hsame
    obtain rfl : c' = c := hsame
    cases r
    case error => exact ⟨.refl, fun h => by cases h⟩
    case ok listed =>
      obtain ⟨s, hs, hq⟩ := eq_ok_of_read_of_idle hi (congrArg Prod.fst hr)
      cases hq
      cases hl : s.content.has name
      case true  => exact ⟨.refl, fun _ => ⟨s, hs, hl⟩⟩
      case false =>
        obtain ⟨f, hw⟩ | ⟨_, _, _, _, _, ht, _⟩ | ⟨s', after, hs', hu, _, hw⟩ :=
          write_cases c' (Content.create name)
        case inl     => simp only [hw]; exact ⟨.refl, fun h => by cases h⟩
        case inr.inl => simp [inTransaction, hi] at ht
        case inr.inr =>
          simp only [hw]
          obtain ⟨g, hh⟩ := Content.create_grows hu
          exact ⟨⟨rfl, .store hs' g⟩, fun _ => ⟨_, rfl, hh⟩⟩

theorem establishAll_extends (names : List TableName) (hi : c.phase = .idle) :
    Extends c (establishAll names c).2 ∧
      ((establishAll names c).1 = .ok () → ∀ name ∈ names, ∃ s,
        (establishAll names c).2.body.store? = .ok s ∧ s.content.has name = true) := by
  induction names generalizing c
  case nil => exact ⟨.refl, fun _ _ h => by cases h⟩
  case cons name names ih =>
    have ⟨e, hh⟩ := establish_extends name hi
    unfold establishAll
    cases hn : c.establish name
    case mk r c' =>
      rw [hn] at e hh
      cases r
      case error => exact ⟨e, fun h => by cases h⟩
      case ok =>
        have ⟨e', hh'⟩ := ih (c := c') (e.phase.trans hi)
        refine ⟨e.trans e', fun h name' hm => ?_⟩
        cases hm
        case head =>
          have ⟨s, hs, hl⟩ := hh rfl
          have ⟨s', hs', g⟩ := e'.body.store? hs
          exact ⟨s', hs', g.has hl⟩
        case tail hm => exact hh' h name' hm

theorem mem_all (name : TableName) : name ∈ TableName.all := by cases name <;> decide

theorem ensureSchema_cases (hi : c.phase = .idle) (hs : c.body.store? = .ok s) :
    Extends c c.ensureSchema.2 ∧
      ((∃ f, c.ensureSchema.1 = .error f) ∨
        (c.ensureSchema.1 = .ok (!s.content.init.isTable) ∧
          ∃ s', c.ensureSchema.2.body = .store s' ∧ s.content.Grows s'.content ∧
            ∀ name, s'.content.has name = true)) := by
  have hsame := read_of_idle (q := fun content => .ok content.init.isTable) hi
  unfold ensureSchema
  cases hr : c.read fun content => .ok content.init.isTable
  case mk r c' =>
    rw [hr] at hsame
    obtain rfl : c' = c := hsame
    cases r
    case error f => exact ⟨.refl, .inl ⟨f, rfl⟩⟩
    case ok old =>
      obtain ⟨s₀, hs₀, hq⟩ := eq_ok_of_read_of_idle hi (congrArg Prod.fst hr)
      cases hs.symm.trans hs₀
      cases hq
      have ⟨e, hh⟩ := establishAll_extends TableName.all hi
      refine ⟨e, ?_⟩
      cases ha : (establishAll TableName.all c').1
      case error f => exact .inl ⟨f, by simp only [ha, Except.map]⟩
      case ok =>
        have ⟨s', hs', g⟩ := e.body.store? hs
        have all name : s'.content.has name = true := by
          have ⟨s'', hs'', hn⟩ := hh ha name (mem_all name)
          cases hs'.symm.trans hs''
          exact hn
        refine .inr ⟨by simp only [ha, Except.map], s', ?_, g, all⟩
        exact Body.eq_store_of_has hs' (all .init)

theorem read_idle_of_not_pending {q : Content → Except QueryFault α} (hi : c.phase = .idle)
    (hs : c.body.store? = .ok s) (hp : c.peers.pending = false) : c.read q = (q s.content, c) := by
  simp [read, hi, hs, hp]

-- What keeps a change from being made outside transactions, whatever it is.
def barrier? (wal : Bool) (c : Connection) : Option QueryFault :=
  if c.peers.writing then some .locked
  else if wal then none
  else c.obstacle.or (if c.peers.reading then some .locked else none)

theorem barrier?_of_alone (hp : c.peers = .ofPhases []) (wal : Bool) :
    c.barrier? wal = if wal then none else c.obstacle := by
  simp [barrier?, hp, Peers.ofPhases]

theorem establish_eq (name : TableName) (hi : c.phase = .idle) (hs : c.body.store? = .ok s)
    (hp : c.peers.pending = false) :
    c.establish name =
      if s.content.has name then (.ok (), c)
      else
        match Content.create name s.content with
        | .error f => (.error f, c)
        | .ok next =>
          match c.barrier? s.wal with
          | some f => (.error f, c)
          | none   => (.ok (), { c with body := .store (s.commit next) }) := by
  simp only [establish, read_idle_of_not_pending hi hs hp]
  cases hl : s.content.has name
  case true => rfl
  case false =>
    simp only [Bool.false_eq_true, if_false, write, hi, hs]
    cases hu : Content.create name s.content
    case error => rfl
    case ok next =>
      -- A table has been made, so the content has changed.
      have hne : s.content ≠ next := by
        rintro rfl
        simp [(Content.create_grows hu).right] at hl
      simp only [hp, journalFault?, hne, barrier?]
      cases c.peers.writing <;> cases s.wal <;> cases c.peers.reading <;> cases c.obstacle <;> simp

theorem ensureSchema_of_standard (hi : c.phase = .idle) (hs : c.body.store? = .ok s)
    (hp : c.peers.pending = false) (h : s.content.IsStandard) :
    c.ensureSchema = (.ok false, c) := by
  have each name : c.establish name = (.ok (), c) := by
    simp only [establish, read_idle_of_not_pending hi hs hp, h.has name]
  have all names : establishAll names c = (.ok (), c) := by
    induction names
    case nil            => rfl
    case cons name _ ih => simp only [establishAll, each name, ih]
  simp [ensureSchema, read_idle_of_not_pending hi hs hp, all, h.init, Except.map]

theorem committed?_eq_some {content : Content} : c.committed? = some content ↔
    ∃ s, c.body.store? = .ok s ∧ s.content = content := by
  unfold committed?
  cases c.body.store? <;> simp [Except.toOption]

theorem update_wal_committed? (c : Connection) (wal : Bool) :
    { c with body := c.body.update fun s => { s with wal } }.committed? = c.committed? := by
  unfold committed? Body.update
  cases hs : c.body.store?
  case error f => simp only [hs]
  case ok s    => rfl

theorem setJournal_extends (mode : JournalMode) (c : Connection) :
    c.Extends (c.setJournal mode).2 ∧ (c.setJournal mode).2.committed? = c.committed? := by
  unfold setJournal
  split
  case h_1 => exact ⟨.refl, rfl⟩
  case h_2 =>
    split
    · exact ⟨⟨rfl, Body.update_wal_grows _ true⟩, update_wal_committed? c true⟩
    · split
      · exact ⟨.refl, rfl⟩
      · exact ⟨⟨rfl, Body.update_wal_grows _ false⟩, update_wal_committed? c false⟩

theorem store?_of_isBlank {b : Body} (hb : b.isBlank = true) : b.store? = .ok .blank := by
  cases b
  case store   => cases hb
  case foreign => exact if_pos (by simpa [Body.isBlank] using hb)

-- Where no journal can be made, an empty file is given no table.
theorem ensureSchema_of_obstacle (hi : c.phase = .idle) (hb : c.body.isBlank = true)
    (hp : c.peers.pending = false) (ho : c.obstacle = some f) :
    c.ensureSchema = (.error (if c.peers.writing then .locked else f), c) := by
  have hs := store?_of_isBlank hb
  have hu : Content.create .init Store.blank.content =
      .ok { Content.blank with init := .table .empty } := rfl
  have hbarrier : c.barrier? Store.blank.wal = some (if c.peers.writing then .locked else f) := by
    simp only [barrier?, Store.blank, Bool.false_eq_true, if_false, ho, Option.some_or]
    split <;> rfl
  have he : c.establish .init = (.error (if c.peers.writing then .locked else f), c) := by
    rw [establish_eq .init hi hs hp, hu, if_neg (by decide)]
    simp only [hbarrier]
  simp only [ensureSchema, read_idle_of_not_pending hi hs hp, TableName.all, establishAll, he]
  rfl

theorem setJournal_of_obstacle (mode : JournalMode) (hb : c.body.isBlank = true)
    (ho : c.obstacle = some f) : (c.setJournal mode).2 = c := by
  unfold setJournal
  split
  case h_1 => rfl
  case h_2 hj =>
    split
    case isTrue hm =>
      simp only [journalRefusal?, store?_of_isBlank hb, hm, if_true] at hj
      split at hj
      case isTrue hw => cases hw
      case isFalse =>
        split at hj
        · cases hj
        · simp [ho] at hj
    case isFalse => rfl

end Connection

theorem Table.applyJournal_extends (mode : JournalMode) (inMemory : Bool) (t : Table) :
    ∃ conn log, applyJournal mode inMemory t = { t with conn, log } ∧ t.conn.Extends conn ∧
      conn.committed? = t.conn.committed? := by
  have e := t.conn.setJournal_extends mode
  unfold applyJournal
  split
  case isTrue => exact ⟨_, _, rfl, .refl, rfl⟩
  case isFalse =>
    split
    case h_1 conn h => rw [h] at e; exact ⟨conn, _, rfl, e⟩
    case h_2 conn h => rw [h] at e; exact ⟨conn, _, rfl, e⟩

-- So an opening leaves it, whatever the other tables do.
theorem Table.prepare_of_obstacle {t : Table} {f : QueryFault} (o : StoreOptions) (e : Entropy)
    (hi : t.conn.phase = .idle) (hb : t.conn.body.isBlank = true)
    (hp : t.conn.peers.pending = false) (ho : t.conn.obstacle = some f) :
    ∃ log, t.prepare o false e =
      (.error (.schema (if t.conn.peers.writing then .locked else f)), { t with log }, e) := by
  obtain ⟨log, hj⟩ : ∃ log, applyJournal o.journal false t = { t with log } := by
    have same := t.conn.setJournal_of_obstacle o.journal hb ho
    unfold applyJournal
    rcases hj : t.conn.setJournal o.journal with ⟨_ | _, conn⟩
    all_goals
      rw [hj] at same
      obtain rfl : conn = t.conn := same
      exact ⟨_, rfl⟩
  exact ⟨log, by simp only [prepare, hj, Connection.ensureSchema_of_obstacle hi hb hp ho]⟩

end AccountCache
