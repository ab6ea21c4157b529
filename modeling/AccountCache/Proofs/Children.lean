import AccountCache.Proofs.Host.Enduring

namespace AccountCache

namespace NodeRecord

variable (r : NodeRecord)

def entry : Key × NodeRow := (Handle.key r.handle, r.row)

theorem mark_kept : r.kept.mark = r.mark := by
  simp only [kept, mark, Option.filter_filter, Bool.and_self]

theorem kept_kept : r.kept.kept = r.kept := by
  rw [kept, mark_kept]
  rfl

theorem entry_kept : r.kept.entry = r.entry := by
  simp only [entry, row, mark_kept]
  rfl

theorem isNull_fingerprint : r.row.fingerprint.isNull = r.isFolder := by
  simp only [row, mark, isFolder]
  rcases r.fingerprint with _ | _ | _ <;> rfl

theorem fingerprint_ne_empty : r.row.fingerprint ≠ .blob [] := by
  simp only [row, mark]
  rcases r.fingerprint with _ | _ | _ <;> simp [Value.ofOption, Option.filter]

theorem isInteger_parent (p : Handle) :
    r.row.parent.isInteger (Handle.key p) = decide (r.parent = p) := by
  have inj : Handle.key r.parent = Handle.key p ↔ r.parent = p := ⟨Handle.key_injective, congrArg _⟩
  simp only [row, Value.isInteger, inj]

end NodeRecord

-- The rows are those of the records, which are as they are read back.
structure Rows.Stores (rows : Rows NodeRow) (records : List NodeRecord) : Prop where
  entries : rows.toList = records.map NodeRecord.entry
  kept    : ∀ r ∈ records, r.kept = r

namespace Content

variable {c c' : Content} {u : Content → Except QueryFault Content}

-- All tables are there, and every node is one that a record was stored as.
structure Written (c : Content) : Prop extends IsStandard c where
  written : ∀ k row, c.nodes.rows.get? k = some row → ∃ r : NodeRecord, r.entry = (k, row)

theorem rows_of_change {α : Type} {r r' : Relation α} {name : TableName} {f : Rows α → Rows α}
    (h : r.change name f = .ok r') : r'.rows = f r.rows := by
  cases r <;> cases h
  rfl

theorem Written.update (hu : Update u) (h : u c = .ok c') (w : c.Written) : c'.Written := by
  refine ⟨hu.isStandard h w.toIsStandard, fun k row hk => ?_⟩
  cases hu <;> obtain ⟨r, hr, rfl⟩ := map_eq_ok h
  case putNode record =>
    rw [rows_of_change hr, Rows.get?_put] at hk
    split at hk
    case isTrue hkey => cases hk; exact ⟨record, by rw [hkey]; rfl⟩
    case isFalse     => exact w.written k row hk
  case deleteNode =>
    rw [rows_of_change hr, Rows.get?_erase] at hk
    split at hk
    case isTrue  => cases hk
    case isFalse => exact w.written k row hk
  all_goals exact w.written k row hk

theorem Written.clear {name : TableName} (h : clear name c = .ok c') (w : c.Written) :
    c'.Written := by
  refine ⟨clear_isStandard h w.toIsStandard, fun k row hk => ?_⟩
  cases name <;> obtain ⟨r, hr, rfl⟩ := map_eq_ok h
  case nodes => rw [rows_of_change hr] at hk; cases hk
  all_goals exact w.written k row hk

theorem Written.opens (ho : blank.Opens c) : c.Written := by
  have r := ho.reflects
  refine ⟨r.isStandard, fun k row hk => ?_⟩
  cases ho <;> cases hk

theorem invariant_written : Invariant Written where
  update   := Written.update
  clear    := Written.clear
  opens    := Written.opens
  standard := Written.toIsStandard

def HasNoEmptyFingerprint (c : Content) : Prop :=
  ∀ k row, c.nodes.rows.get? k = some row → row.fingerprint ≠ .blob []

theorem Written.hasNoEmptyFingerprint (w : c.Written) : c.HasNoEmptyFingerprint := by
  intro k row hk
  obtain ⟨r, hr⟩ := w.written k row hk
  cases hr
  exact r.fingerprint_ne_empty

theorem Written.stores (w : c.Written) :
    ∃ rows records, c.nodes = .table rows ∧ rows.Stores records := by
  obtain ⟨rows, hn⟩ : ∃ rows, c.nodes = .table rows := by
    have h := w.nodes
    cases hn : c.nodes <;> rw [hn] at h <;> first | contradiction | exact ⟨_, rfl⟩
  have hentries : rows.toList ∈ Set.range (List.map NodeRecord.entry) := by
    rw [Set.range_list_map]
    intro x hx
    have hget : c.nodes.rows.get? x.1 = some x.2 := by
      rw [hn]
      exact Rows.get?_eq_some_iff.mpr hx
    exact w.written x.1 x.2 hget
  obtain ⟨records, hrecords⟩ := hentries
  refine ⟨rows, records.map NodeRecord.kept, hn, ?_, fun r hr => ?_⟩
  · simp only [← hrecords, List.map_map, Function.comp_def, NodeRecord.entry_kept]
  · obtain ⟨r, _, rfl⟩ := List.mem_map.mp hr
    exact r.kept_kept

end Content

def childrenOf (p : Handle) (records : List NodeRecord) : List NodeRecord :=
  records.filter (·.parent = p)

-- What the readers of a table make of the children of a node.
structure Table.Children (t : Table) (p : Handle) (children : List NodeRecord) : Prop where
  distinct : (children.map (·.handle)).Nodup
  records  : ∀ r, r ∈ children ↔
    ((Op.nodeRecord r.handle).run t).1 = .ok (.record (some r)) ∧ r.parent = p
  -- Whichever steps are mixed, and whatever is read between them, they are enumerated one by one.
  listed   : ∀ ops, (∀ op ∈ ops, op.isStep = true ∨ op.isLook = true) →
    Op.stepRepliesAll ops (Op.runAll ops ((Op.startCursor (.children p)).run t).2).1 =
      Op.replies ops (children.map
        (fun r => .ok (some (Handle.key r.handle, r.payload))) ++ [.ok none])
  handles  :
    (Op.runAll (List.replicate (children.length + 1) .advanceHandle)
      ((Op.startCursor (.children p)).run t).2).1 =
      children.map (fun r => .ok (.handle (some r.handle))) ++ [.ok (.handle none)]
  total    : ((Op.countChildren .any p).run t).1 = .ok (.count children.length)
  files    : ((Op.countChildren .files p).run t).1 =
    .ok (.count (children.countP fun r => !r.isFolder))
  folders  : ((Op.countChildren .folders p).run t).1 = .ok (.count (children.countP (·.isFolder)))
  sum      : children.length = (children.countP fun r => !r.isFolder) + children.countP (·.isFolder)

namespace Op

theorem stepRepliesAll_of_steps {ops : List Op} (h : ∀ op ∈ ops, op.isStep = true) (t : Table) :
    stepRepliesAll ops (runAll ops t).1 = (runAll ops t).1 := by
  induction ops generalizing t
  case nil => rfl
  case cons op ops ih =>
    have hop := h op List.mem_cons_self
    have later := ih (fun op' hmem => h op' (List.mem_cons_of_mem _ hmem)) (op.run t).2
    simp only [runAll, stepRepliesAll, later]
    cases op <;> first | contradiction | rfl

theorem replies_handles (rows : List (Key × Bytes)) :
    replies (List.replicate (rows.length + 1) .advanceHandle)
        (rows.map (fun r => .ok (some r)) ++ [.ok none]) =
      rows.map (fun r => .ok (.handle (some (Key.handle r.1)))) ++ [.ok (.handle none)] := by
  induction rows
  case nil => rfl
  case cons r rows ih =>
    rw [List.length_cons, List.replicate_succ, replies_cons_step rfl]
    exact congrArg (_ :: ·) ih

end Op

namespace Rows.Stores

variable {t : Table} {c : Content} {rows : Rows NodeRow} {records : List NodeRecord}

theorem nodup (st : rows.Stores records) : (records.map (·.handle)).Nodup := by
  have ordered := rows.ordered
  rw [st.entries, List.pairwise_map] at ordered
  refine List.pairwise_map.mpr (ordered.imp fun hlt heq => ?_)
  simp only [NodeRecord.entry, heq] at hlt
  exact Int64.lt_irrefl hlt

theorem get?_key (st : rows.Stores records) (h : Handle) :
    rows.get? (Handle.key h) = (records.find? (·.handle = h)).map (·.row) := by
  have inj (r : NodeRecord) : Handle.key r.handle = Handle.key h ↔ r.handle = h :=
    ⟨Handle.key_injective, congrArg _⟩
  simp only [get?, st.entries, List.find?_map, Option.map_map, Function.comp_def,
    NodeRecord.entry, inj]

theorem find?_handle_iff (st : rows.Stores records) (r : NodeRecord) :
    records.find? (·.handle = r.handle) = some r ↔ r ∈ records := by
  refine ⟨List.mem_of_find?_eq_some, fun hr => ?_⟩
  cases hf : records.find? (·.handle = r.handle)
  case none => simpa using List.find?_eq_none.mp hf r hr
  case some x =>
    have handle : x.handle = r.handle := by simpa using List.find?_some hf
    exact congrArg some <| List.inj_on_of_nodup_map st.nodup
      (List.mem_of_find?_eq_some hf) hr handle

theorem nodeRecord_eq (st : rows.Stores records) (hs : t.conn.Sees c) (hn : c.nodes = .table rows)
    (h : Handle) :
    ((Op.nodeRecord h).run t).1 = .ok (.record (records.find? (·.handle = h))) := by
  have handle (x : NodeRecord) (hx : x ∈ records.find? (·.handle = h)) : x.handle = h := by
    simpa using List.find?_some hx
  have kept : (records.find? (·.handle = h)).map (·.kept) = records.find? (·.handle = h) := by
    cases hf : records.find? (·.handle = h)
    case none   => rfl
    case some x => rw [Option.map_some, st.kept x (List.mem_of_find?_eq_some hf)]
  rw [Table.nodeRecord_of_rows hs hn (st.get?_key h) handle, kept]

theorem nodeRecord_iff (st : rows.Stores records) (hs : t.conn.Sees c) (hn : c.nodes = .table rows)
    (r : NodeRecord) : ((Op.nodeRecord r.handle).run t).1 = .ok (.record (some r)) ↔
    r ∈ records := by
  rw [st.nodeRecord_eq hs hn]
  simp only [Except.ok.injEq, Reply.record.injEq, st.find?_handle_iff]

theorem count_eq (st : rows.Stores records) (hs : t.conn.Sees c) (hn : c.nodes = .table rows)
    (kind : Content.ChildKind) (p : Handle) :
    ((Op.countChildren kind p).run t).1 =
      .ok (.count ((childrenOf p records).countP fun r => kind.accepts r.row)) := by
  have hq : Content.countChildren kind p c =
      .ok ((childrenOf p records).countP fun r => kind.accepts r.row) := by
    simp only [Content.countChildren, hn, Relation.select, bind, Except.bind, pure,
      Except.pure, count, Rows.filter, st.entries, List.filter_map, List.length_map,
      Function.comp_def, NodeRecord.entry, childrenOf, List.countP_eq_length_filter,
      List.filter_filter, NodeRecord.isInteger_parent, Bool.and_comm]
  simp only [Op.run, Op.answer, Table.countChildren, Table.read_of_sees hs hq]
  rfl

theorem candidates (st : rows.Stores records) (hn : c.nodes = .table rows) (p : Handle) :
    (Selector.children p).candidates c =
      .ok ((childrenOf p records).map fun r => (Handle.key r.handle, .blob r.payload)) := by
  simp only [Selector.candidates, hn, Relation.select, bind, Except.bind, pure, Except.pure,
    Rows.filter, st.entries, List.filter_map, List.map_map, Function.comp_def,
    NodeRecord.entry, childrenOf, Selector.matchesNode, NodeRecord.isInteger_parent]
  rfl

theorem listed (st : rows.Stores records) (hs : t.conn.Sees c) (hn : c.nodes = .table rows)
    (p : Handle) (ops : List Op) (hops : ∀ op ∈ ops, op.isStep = true ∨ op.isLook = true) :
    Op.stepRepliesAll ops (Op.runAll ops ((Op.startCursor (.children p)).run t).2).1 =
      Op.replies ops (((childrenOf p records).map fun r => (Handle.key r.handle, r.payload)).map
        (fun r => .ok (some r)) ++ [.ok none]) := by
  obtain ⟨hsees, g⟩ := Op.startCursor_gives hs (st.candidates hn p)
  rw [← Content.Reflects.outcomes_of_blobs (Selector.children p).table.payloadColumn, List.map_map]
  exact (Op.runAll_gives hsees g hops).left

theorem handles (st : rows.Stores records) (hs : t.conn.Sees c) (hn : c.nodes = .table rows)
    (p : Handle) :
    (Op.runAll (List.replicate ((childrenOf p records).length + 1) .advanceHandle)
        ((Op.startCursor (.children p)).run t).2).1 =
      (childrenOf p records).map (fun r => .ok (.handle (some r.handle))) ++
        [.ok (.handle none)] := by
  have steps op (hop : op ∈ List.replicate ((childrenOf p records).length + 1) Op.advanceHandle) :
      op.isStep = true := by
    rw [List.eq_of_mem_replicate hop]
    rfl
  have replies := Op.replies_handles ((childrenOf p records).map fun r =>
    (Handle.key r.handle, r.payload))
  simp only [List.length_map, List.map_map, Function.comp_def, Handle.handle_key] at replies
  rw [← Op.stepRepliesAll_of_steps steps, st.listed hs hn p _ fun op hop => .inl (steps op hop)]
  rw [List.map_map]
  exact replies

theorem children (st : rows.Stores records) (hs : t.conn.Sees c) (hn : c.nodes = .table rows)
    (p : Handle) :
    t.Children p (childrenOf p records) where
  distinct := st.nodup.sublist (List.filter_sublist.map _)
  records r := by
    rw [st.nodeRecord_iff hs hn, childrenOf, List.mem_filter, decide_eq_true_eq]
  listed ops hops := by
    rw [st.listed hs hn p ops hops, List.map_map]
    rfl
  handles := st.handles hs hn p
  total := by
    rw [st.count_eq hs hn]
    simp [Content.ChildKind.accepts]
  files := by
    rw [st.count_eq hs hn]
    simp [Content.ChildKind.accepts, NodeRecord.isNull_fingerprint]
  folders := by
    rw [st.count_eq hs hn]
    simp [Content.ChildKind.accepts, NodeRecord.isNull_fingerprint]
  sum := by
    simpa [Nat.add_comm] using List.length_eq_countP_add_countP (NodeRecord.isFolder ·)

end Rows.Stores

structure Table.Tells (t : Table) (c : Content) : Prop where
  marked   : c.HasNoEmptyFingerprint
  children : ∀ p, ∃ children, t.Children p children

theorem Content.Written.tells {t : Table} {c : Content} (w : c.Written) (hs : t.conn.Sees c) :
    t.Tells c where
  marked := w.hasNoEmptyFingerprint
  children p := by
    obtain ⟨rows, records, hn, st⟩ := w.stores
    exact ⟨_, st.children hs hn p⟩

namespace Host

variable {h : Host} {n : Naming} {path name label key : String} {o : StoreOptions} {i : Nat}

-- Neither what a body holds nor what a table on it sees has an empty fingerprint, and readers
-- agree.
structure Tells (i : Nat) (h : Host) : Prop where
  stored : ∀ store, h.body i = .store store → store.content.HasNoEmptyFingerprint
  shown  : ∀ label s c, h.seat? label = some s → s.body = i → (h.assemble label s).conn.Sees c →
    (h.assemble label s).Tells c

theorem Endures.tells (e : h.Endures Content.Written i) : h.Tells i where
  stored store hb := by
    obtain ⟨b, hget, written⟩ := e.body
    have hstore : b = .store store := by rw [← hb, Host.body, hget, Option.getD_some]
    exact (written store (by rw [hstore]; rfl)).hasNoEmptyFingerprint
  shown label s c hs hi hc := (e.seen hs hi hc).tells hc

-- Whatever is asked of the host on which a store is made, readers of the store agree about
-- children; and a table that is worked on and reopened does not lose sight of it.
theorem open_children (label : String) (o : StoreOptions) (key : String)
    (hp : n.path name = .ok path)
    (hf : Finds n path h.disk (.foreign [])) (hs : h.seats = [])
    (ho : (h.open label n o name key).1 = .ok ()) :
    let made := (h.open label n o name key).2
    (∃ s, made.seat? label = some s ∧ ∀ rs, (Request.runAll n rs made).2.Tells s.body) ∧
    (path ≠ memoryPath → ∀ turns : List Turn,
      ∃ t c, (Request.runAll n (turns.flatMap (Turn.requests label name)) made).2.table?
      label = some t ∧
        t.conn.Sees c ∧ t.Tells c) := by
  intro made
  obtain ⟨s, hseat, e⟩ := open_endures Content.invariant_written hp hf hs ho
  refine ⟨⟨s, hseat, fun rs => (e.runAll Content.invariant_written n rs).tells⟩, fun hm turns => ?_⟩
  obtain ⟨t, c, ht, hc, w⟩ := open_turns Content.invariant_written hp hm hf hs ho turns
  exact ⟨t, c, ht, hc, w.tells hc⟩

-- Children under a parent in the upper half and one in the lower: a file becomes a folder and is
-- brought back, and another one is moved and loses its fingerprint.
def movingChildren : List Turn := [
  .work (.putNode ⟨1, 0x8000000000000004, some [7], none, .none, [1]⟩),
  .work (.putNode ⟨0x8000000000000002, 0x8000000000000004, some [], some "a", .pending, [2]⟩),
  .work (.guarded [.putNode ⟨3, 0x8000000000000004, some [9], none, .none, [3]⟩] .commit),
  .work .begin, .work (.putNode ⟨1, 0x8000000000000004, some [], none, .none, [4]⟩),
  .reopen .default "k",
  .work (.putNode ⟨3, 4, some [], none, .none, [5]⟩)]

theorem bare_children :
    let made := (bare.open "t" plainNaming .default "a" "k").2
    let h' := (Request.runAll plainNaming (movingChildren.flatMap (Turn.requests "t" "a")) made).2
    let count kind p := (h'.content? "t").map fun c => (Content.countChildren kind p c).toOption
    (∃ s, made.seat? "t" = some s ∧ ∀ rs, (Request.runAll plainNaming rs made).2.Tells s.body) ∧
    (∃ t c, h'.table? "t" = some t ∧ t.conn.Sees c ∧ t.Tells c) ∧
    count .any 0x8000000000000004 = some (some 2) ∧
      count .files 0x8000000000000004 = some (some 1) ∧
    count .folders 0x8000000000000004 = some (some 1) ∧ count .folders 4 = some (some 1) := by
  intro made h' count
  have c := open_children (h := bare) "t" .default "k" plainNaming_path (.absent (by decide) rfl)
    rfl bare_open
  exact ⟨c.left, c.right (by decide) movingChildren, by decide +kernel, by decide +kernel, by
    decide +kernel, by decide +kernel⟩

end Host
end AccountCache
