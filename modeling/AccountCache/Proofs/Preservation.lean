import AccountCache.Proofs.Host.Opening
import AccountCache.Proofs.Provision

namespace AccountCache

-- The relation once its table has been made, if its name was free.
def Relation.made {α : Type} : Relation α → Relation α
  | missing => table .empty
  | r => r

theorem Relation.Grows.eq_made {α : Type} {r r' : Relation α} (g : Grows r r')
    (h : r'.isListed = true) : r' = r.made := by
  cases g
  case made => rfl
  case same => cases r <;> first | rfl | contradiction

namespace Content

variable {c c' : Content}

def made (c : Content) : Content := ⟨c.init.made, c.nodes.made, c.users.made, c.pcrs.made⟩

structure Keeps (c c' : Content) : Prop where
  init  : c.init.isTable = true → c'.init = c.init
  nodes : c.nodes.isTable = true → c'.nodes = c.nodes
  users : c.users.isTable = true → c'.users = c.users
  pcrs  : c.pcrs.isTable = true → c'.pcrs = c.pcrs

theorem Grows.keeps (g : c.Grows c') : c.Keeps c' where
  init  := g.init.eq_of_isTable
  nodes := g.nodes.eq_of_isTable
  users := g.users.eq_of_isTable
  pcrs  := g.pcrs.eq_of_isTable

theorem Grows.eq_made (g : c.Grows c') (h : ∀ name, c'.has name = true) : c' = c.made := by
  have hi := g.init.eq_made (h .init)
  have hn := g.nodes.eq_made (h .nodes)
  have hu := g.users.eq_made (h .users)
  have hp := g.pcrs.eq_made (h .pcrs)
  cases c'
  simp only [made, Content.mk.injEq]
  exact ⟨hi, hn, hu, hp⟩

-- An `init` table that holds the two sealed keys and nothing else.
def keyTable (node parent : Bytes) : Relation Value :=
  .table ((Rows.empty.put (Slot.handleKey .node).key (.blob node)).put
    (Slot.handleKey .parent).key (.blob parent))

-- What a successful opening makes of a content.
inductive Opens (c : Content) : Content → Prop
  | old : c.init ≠ .missing → Opens c c.made
  | new (node parent : Bytes) : c.init = .missing →
    Opens c { c.made with init := keyTable node parent }

theorem keeps_made : c.Keeps c.made := by
  have same {α : Type} {r : Relation α} (h : r.isTable = true) : r.made = r := by
    cases r <;> first | rfl | contradiction
  exact ⟨same, same, same, same⟩

theorem Opens.keeps (ho : c.Opens c') : c.Keeps c' := by
  cases ho
  case old => exact keeps_made
  case new hi =>
    refine { keeps_made with init := fun h => ?_ }
    simp [hi, Relation.isTable] at h

theorem Opens.has (ho : c.Opens c') (h : ∀ name, c.made.has name = true) (name : TableName) :
    c'.has name = true := by
  cases ho
  case old => exact h name
  case new =>
    cases name
    case init  => rfl
    case nodes => exact h .nodes
    case users => exact h .users
    case pcrs  => exact h .pcrs

end Content

namespace Table

variable {t : Table} {s : Store}

theorem storeKeys_made {c after : Content} {node parent : Bytes} (hi : c.init.isTable = false)
    (h : storeKeys node parent c.made = .ok after) :
    c.init = .missing ∧ after = { c.made with init := Content.keyTable node parent } := by
  cases hc : c.init
  case table rows => simp [hc, Relation.isTable] at hi
  all_goals
    simp only [storeKeys, Content.putScalar, Content.made, hc, Relation.made, Relation.change,
      Except.map, bind, Except.bind] at h
    cases h
  exact ⟨rfl, rfl⟩

theorem prepare_content (o : StoreOptions) (inMemory : Bool) (e : Entropy)
    (hi : t.conn.phase = .idle) (hs : t.conn.body.store? = .ok s) :
    let r := t.prepare o inMemory e
    (∃ f, r.1 = .error (.schema f) ∧ t.conn.body.Grows r.2.1.conn.body) ∨
    ∃ s', r.2.1.conn.body = .store s' ∧ (∀ name, s.content.made.has name = true) ∧
      ((∃ f, r.1 = .error f ∧ f.isProvisioning = true ∧ s'.content = s.content.made) ∨
        (r.1 = .ok () ∧ s.content.Opens s'.content)) := by
  intro r
  obtain ⟨t₁, _, _, _, ext, ⟨f, hf⟩ | ⟨s₁, hb₁, g, hall, hold, hnew⟩⟩ :=
    prepare_cases o inMemory e hi hs
  case inl =>
    simp only [r, hf]
    exact .inl ⟨f, rfl, ext.body⟩
  case inr =>
    have hmade : s₁.content = s.content.made := g.eq_made hall
    right
    cases hinit : s.content.init.isTable
    case true =>
      have ⟨log, h⟩ := hold hinit
      simp only [r, h]
      refine ⟨s₁, hb₁, hmade ▸ hall, .inr ⟨trivial, hmade ▸ .old fun hm => ?_⟩⟩
      simp [hm, Relation.isTable] at hinit
    case false =>
      have ⟨log, h⟩ := hnew hinit
      have hs₁ : t₁.conn.body.store? = .ok s₁ := by rw [hb₁]; rfl
      obtain ⟨_, _, ⟨f, hf, hp, hconn⟩ | ⟨node, parent, after, hkeys, hok, hconn⟩⟩ :=
        provision_cases e (ext.phase.trans hi) hs₁
      case inl =>
        simp only [r, h, hf, hconn]
        exact ⟨s₁, hb₁, hmade ▸ hall, .inl ⟨f, rfl, hp, hmade⟩⟩
      case inr =>
        rw [hmade] at hkeys
        have ⟨hmissing, hafter⟩ := storeKeys_made hinit hkeys
        simp only [r, h, hok, hconn]
        refine ⟨_, rfl, hmade ▸ hall, .inr ⟨trivial, ?_⟩⟩
        simp only [Store.commit, hafter]
        exact .new node parent hmissing

end Table

namespace Host

variable {h h' : Host} {label path name key : String} {i : Nat} {b : Body} {n : Naming}
  {o : StoreOptions}

def stored? (path : String) (d : Disk Body) : Option Body :=
  (d.file? path).bind fun i => d.bodies[i]?

-- The same once the directory of the stores is there.
def found? (n : Naming) (path : String) (d : Disk Body) : Option Body :=
  ((d.makePath n.root).2.file? path).bind fun i => d.bodies[i]?

-- What an opening finds. Where there is no file, a blank one is made.
inductive Finds (n : Naming) (path : String) (d : Disk Body) : Body → Prop
  | memory : path = memoryPath → Finds n path d (.foreign [])
  | absent : path ≠ memoryPath → (d.makePath n.root).2.file? path = none →
      Finds n path d (.foreign [])
  | file {b : Body} : path ≠ memoryPath → found? n path d = some b → Finds n path d b

theorem Located.finds (l : Located n path h i h') (hb : Finds n path h.disk b) :
    h'.disk.bodies[i]? = some b := by
  cases hb
  case memory hm =>
    obtain ⟨hn, _⟩ | ⟨_, hi, hb⟩ := l.body
    · exact absurd hm hn
    · simp [hi, hb]
  case absent hm hf =>
    obtain ⟨_, hf', _⟩ | ⟨_, hi, hb⟩ := l.body
    · exact absurd (hf.symm.trans hf') (by simp)
    · simp [hi, hb]
  case file hm hf =>
    have ⟨j, hj, hb⟩ := Option.bind_eq_some_iff.mp hf
    obtain ⟨_, hf', hsame⟩ | ⟨hn, _⟩ := l.body
    · rw [hsame, Option.some.inj (hf'.symm.trans hj), hb]
    · exact absurd ((hn hm).symm.trans hj) (by simp)

theorem Located.lt (l : Located n path h i h') (hb : Finds n path h.disk b) :
    i < h'.disk.bodies.length :=
  (List.getElem?_eq_some_iff.mp (l.finds hb)).choose

theorem Located.body_eq (l : Located n path h i h') (hb : Finds n path h.disk b) :
    h'.body i = b := by
  rw [Host.body, l.finds hb, Option.getD_some]

theorem Located.stored? (l : Located n path h i h') (hm : path ≠ memoryPath)
    (hb : Finds n path h.disk b) : stored? path h'.disk = some b := by
  rw [Host.stored?, l.file hm, Option.bind_some, l.finds hb]

theorem Stops.stored? (hm : path ≠ memoryPath) (hb : found? n path h.disk = some b) :
    Stops n path h h' → Host.stored? path h'.disk = some b
  | .early            => by rw [Host.stored?, rooted_bodies]; exact hb
  | .barred l _ _     => l.stored? hm (.file hm hb)
  | .unread _ a _     => a.toLocated.stored? hm (.file hm hb)

theorem install_stored? {s : Seat} {t : Table} {e : Entropy}
    (hf : h.disk.file? s.path = some s.body) (hb : s.body < h.disk.bodies.length) :
    stored? s.path (h.install label s t e).disk = some t.conn.body := by
  rw [stored?, install_file hf, Option.bind_some, install_bodies hb]

theorem install_at_rest {s : Seat} {t : Table} {e : Entropy} {store : Store}
    (hb : s.body < h.disk.bodies.length) (hi : t.conn.phase = .idle)
    (hs : t.conn.body = .store store) : (h.install label s t e).AtRest label store.content := by
  have hseat : (h.install label s t e).seat? label =
      some { s with phase := t.conn.phase, cursor := t.cursor } := install_seat?
  have hbody : ((h.install label s t e).assemble label
      { s with phase := t.conn.phase, cursor := t.cursor }).conn.body = .store store :=
    (install_body hb).trans hs
  refine ⟨_, table?_of_seat? hseat, install_idle hi, ?_⟩
  rw [Connection.content?_of_not_inTransaction (install_idle hi), Connection.committed?, hbody]
  rfl

theorem settle_content {s : Store} {h₂ : Host} (label : String) (o : StoreOptions) (key : String)
    (a : Arrives n path h i h₂) (hb : Finds n path h.disk b) (hs : b.store? = .ok s) :
    let out := h₂.settle label o (newSeat path key i)
    (∃ f, out.1 = .error (.schema f) ∧
      ∃ b', b.Grows b' ∧ (path ≠ memoryPath → stored? path out.2.disk = some b')) ∨
    ∃ s', (path ≠ memoryPath → stored? path out.2.disk = some (.store s')) ∧
      (∀ name, s.content.made.has name = true) ∧
      ((∃ f, out.1 = .error f ∧ f.isProvisioning = true ∧ s'.content = s.content.made) ∨
        (out.1 = .ok () ∧ s.content.Opens s'.content ∧ out.2.AtRest label s'.content)) := by
  intro out
  have hlt := a.lt hb
  have hconn : (h₂.assemble label (newSeat path key i)).conn.body = b := a.body_eq hb
  have hstore : (h₂.assemble label (newSeat path key i)).conn.body.store? = .ok s := hconn ▸ hs
  obtain ⟨hr, hdisk, hok⟩ := settle_eq label o (newSeat path key i) h₂
  have hstored (hm : path ≠ memoryPath) : stored? path out.2.disk =
      some ((h₂.assemble label (newSeat path key i)).prepare o (newSeat path key i).inMemory
        h₂.entropy).2.1.conn.body := by
    rw [hdisk]
    exact install_stored? (s := newSeat path key i) (a.file hm) hlt
  obtain ⟨f, hf, g⟩ | ⟨s', hb', hall, hrest⟩ :=
    Table.prepare_content o (newSeat path key i).inMemory
    h₂.entropy (t := h₂.assemble label (newSeat path key i)) rfl hstore
  case inl => exact .inl ⟨f, hr.trans hf, _, hconn ▸ g, hstored⟩
  case inr =>
    refine .inr ⟨s', fun hm => (hstored hm).trans (congrArg some hb'), hall, ?_⟩
    obtain ⟨f, hf, hp, hc⟩ | ⟨hf, ho⟩ := hrest
    case inl => exact .inl ⟨f, hr.trans hf, hp, hc⟩
    case inr =>
      refine .inr ⟨hr.trans hf, ho, ?_⟩
      rw [show out.2 = _ from hok hf]
      exact install_at_rest hlt (Table.prepare_idle _ _ _ rfl hstore hf).left hb'

structure Preserves (n : Naming) (name label : String) (d : Disk Body) (r : Except Failure Unit)
    (h' : Host) : Prop where
  invalid : ∀ f, n.path name = .error f → r = .error (.invalidName name) ∧ h'.disk = d
  -- A single byte still counts as an empty store.
  foreign : ∀ path bytes, n.path name = .ok path → path ≠ memoryPath →
    found? n path d = some (.foreign bytes) → 1 < bytes.length →
    (∃ f, r = .error (.opening f)) ∧ stored? path h'.disk = some (.foreign bytes)
  tables : ∀ path s, n.path name = .ok path → path ≠ memoryPath →
    found? n path d = some (.store s) →
    ∃ s', stored? path h'.disk = some (.store s') ∧ s.content.Keeps s'.content
  opened : ∀ path b s, n.path name = .ok path → Finds n path d b → b.store? = .ok s → r = .ok () →
    ∃ c, h'.AtRest label c ∧ s.content.Opens c ∧ ∀ name, c.has name = true
  unprovisioned : ∀ path b s f, n.path name = .ok path → path ≠ memoryPath → Finds n path d b →
    b.store? = .ok s → r = .error f → f.isProvisioning = true →
    ∃ s', stored? path h'.disk = some (.store s') ∧ s'.content = s.content.made

theorem openNamed_preserves (label : String) (n : Naming) (o : StoreOptions) (name key : String)
    (h : Host) : Preserves n name label h.disk (h.openNamed label n o name key).1
      (h.openNamed label n o name key).2 where
  invalid f hf := by
    simp only [openNamed, hf, Naming.eq_invalidName_of_path hf, and_self]
  foreign path bytes hp hm hb hl := by
    obtain ⟨f, h', ho, stops⟩ | ⟨i, h₂, a, ⟨s, hs⟩, _, ho⟩ := openNamed_cases (h := h)
      label o key hp
    case inl => rw [ho]; exact ⟨⟨f, rfl⟩, stops.stored? hm hb⟩
    case inr =>
      rw [a.body_eq (.file hm hb)] at hs
      simp [Body.store?, Nat.not_le_of_lt hl] at hs
  tables path s hp hm hb := by
    obtain ⟨f, h', ho, stops⟩ | ⟨i, h₂, a, _, _, ho⟩ := openNamed_cases (h := h)
      label o key hp
    case inl => rw [ho]; exact ⟨s, stops.stored? hm hb, Content.Grows.refl.keeps⟩
    case inr =>
      rw [ho]
      obtain ⟨f, hf, b', g, hb'⟩ | ⟨s', hs', _, ⟨f, hf, _, hc⟩ | ⟨_, hc, _⟩⟩ :=
        settle_content label o key a (.file hm hb) rfl
      case inl =>
        cases g
        case same => exact ⟨s, hb' hm, Content.Grows.refl.keeps⟩
        case store s₀ s' hs₀ g =>
          cases hs₀
          exact ⟨s', hb' hm, g.keeps⟩
      case inr.inl => exact ⟨s', hs' hm, hc ▸ Content.keeps_made⟩
      case inr.inr => exact ⟨s', hs' hm, hc.keeps⟩
  opened path b s hp hb hs hr := by
    obtain ⟨f, h', ho, stops⟩ | ⟨i, h₂, a, _, _, ho⟩ := openNamed_cases (h := h)
      label o key hp
    case inl => simp [ho] at hr
    case inr =>
      rw [ho] at hr ⊢
      obtain ⟨f, hf, _⟩ | ⟨s', _, hall, ⟨f, hf, _⟩ | ⟨_, hc, hrest⟩⟩ :=
        settle_content label o key a hb hs
      case inl     => simp [hf] at hr
      case inr.inl => simp [hf] at hr
      case inr.inr => exact ⟨s'.content, hrest, hc, hc.has hall⟩
  unprovisioned path b s f hp hm hb hs hr hf := by
    obtain ⟨f', h', ho, stops⟩ | ⟨i, h₂, a, _, _, ho⟩ := openNamed_cases (h := h)
      label o key hp
    case inl =>
      rw [ho] at hr
      cases hr
      contradiction
    case inr =>
      rw [ho] at hr ⊢
      obtain ⟨f', hf', _⟩ | ⟨s', hs', _, ⟨_, _, _, hc⟩ | ⟨hok, _⟩⟩ :=
        settle_content label o key a hb hs
      case inl =>
        rw [hf'] at hr
        cases hr
        contradiction
      case inr.inl => exact ⟨s', hs' hm, hc⟩
      case inr.inr => simp [hok] at hr

-- Whatever becomes of an opening, it destroys nothing, and it stores both handle keys or none.
theorem open_preserves (label : String) (n : Naming) (o : StoreOptions) (name key : String)
    (h : Host) : Preserves n name label h.disk (h.open label n o name key).1
      (h.open label n o name key).2 := by
  have p := openNamed_preserves label n o name key (h.close label).2
  rw [close_disk] at p
  exact p

def scribble : Host where
  disk    := ⟨[(["a.db"], .file 0)], [.foreign [1, 2]]⟩
  seats   := []
  keyring := []
  entropy := ⟨fun _ => 0, 0⟩
  log     := []

theorem scribble_preserved :
    (∃ f, (scribble.open "t" plainNaming .default "a" "k").1 = .error (.opening f)) ∧
      stored? "a.db" (scribble.open "t" plainNaming .default "a" "k").2.disk =
        some (.foreign [1, 2]) :=
  (open_preserves "t" plainNaming .default "a" "k" scribble).foreign "a.db" [1, 2] plainNaming_path
    (by decide) rfl (by decide)

end Host
end AccountCache
