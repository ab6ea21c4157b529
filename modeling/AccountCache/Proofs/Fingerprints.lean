import AccountCache.Proofs.Children
import AccountCache.Proofs.Decoding

namespace AccountCache

def Table.Bears (t : Table) (fingerprint : Bytes) (h : Handle) (r : NodeRecord) : Prop :=
  ((Op.nodeRecord h).run t).1 = .ok (.record (some r)) ∧ r.fingerprint = some fingerprint

structure Table.Traces (t : Table) (fingerprint : Bytes) : Prop where
  found  : (∃ payload, ((Op.fingerprintPayload fingerprint).run t).1 =
    .ok (.bytes (some payload))) ↔
    ∃ h r, t.Bears fingerprint h r
  lowest : ∀ payload, ((Op.fingerprintPayload fingerprint).run t).1 = .ok (.bytes (some payload)) ↔
    ∃ h r, t.Bears fingerprint h r ∧ r.payload = payload ∧
      ∀ h' r', t.Bears fingerprint h' r' → Handle.key h ≤ Handle.key h'
  absent : ((Op.fingerprintPayload fingerprint).run t).1 = .ok (.bytes none) ↔
    ∀ h r, ¬t.Bears fingerprint h r

namespace Table

variable {t : Table} {fingerprint : Bytes} {h : Handle} {r : NodeRecord}

theorem traces_of_none (hrun : ((Op.fingerprintPayload fingerprint).run t).1 = .ok (.bytes none))
    (none : ∀ h r, ¬t.Bears fingerprint h r) : t.Traces fingerprint where
  found := by
    constructor
    case mp  => rintro ⟨_, he⟩; cases hrun.symm.trans he
    case mpr => rintro ⟨h, r, b⟩; exact absurd b <| none h r
  lowest payload := by
    constructor
    case mp  => intro he; cases hrun.symm.trans he
    case mpr => rintro ⟨h, r, b, _⟩; exact absurd b <| none h r
  absent := ⟨fun _ => none, fun _ => hrun⟩

theorem traces_of_lowest
    (hrun : ((Op.fingerprintPayload fingerprint).run t).1 = .ok (.bytes (some r.payload)))
    (b : t.Bears fingerprint h r)
    (low : ∀ h' r', t.Bears fingerprint h' r' → Handle.key h ≤ Handle.key h') :
    t.Traces fingerprint where
  found := ⟨fun _ => ⟨h, r, b⟩, fun _ => ⟨_, hrun⟩⟩
  lowest payload := by
    constructor
    case mp =>
      intro he
      cases hrun.symm.trans he
      exact ⟨h, r, b, rfl, low⟩
    case mpr =>
      rintro ⟨h', r', b', rfl, low'⟩
      obtain rfl : h' = h := Handle.key_injective <| Int64.le_antisymm (low' h r b) (low h' r' b')
      cases b.left.symm.trans b'.left
      exact hrun
  absent := by
    constructor
    case mp  => intro he; cases hrun.symm.trans he
    case mpr => exact fun none => absurd b <| none h r

end Table

namespace NodeRecord

variable {r : NodeRecord} {fingerprint : Bytes}

theorem fingerprint_eq_iff (hk : r.kept = r) :
    r.row.fingerprint = .blob fingerprint ↔ r.fingerprint = some fingerprint := by
  have hm : r.mark = r.fingerprint := congrArg NodeRecord.fingerprint hk
  simp only [row, hm]
  cases r.fingerprint <;> simp [Value.ofOption]

theorem fingerprint_ne_nil (hk : r.kept = r) : r.fingerprint ≠ some [] :=
  fun h => r.fingerprint_ne_empty <| (fingerprint_eq_iff hk).mpr h

end NodeRecord

namespace Rows.Stores

variable {t : Table} {c : Content} {rows : Rows NodeRow} {records : List NodeRecord}
    {fingerprint : Bytes}

theorem bears_iff (st : rows.Stores records) (hs : t.conn.Sees c) (hn : c.nodes = .table rows)
    (h : Handle)
    (r : NodeRecord) : t.Bears fingerprint h r ↔
    r ∈ records ∧ r.handle = h ∧ r.fingerprint = some fingerprint := by
  rw [Table.Bears, st.nodeRecord_eq hs hn, ← and_assoc]
  refine and_congr_left' ?_
  constructor
  case mp =>
    intro he
    have hf : records.find? (·.handle = h) = some r := by simpa using he
    exact ⟨List.mem_of_find?_eq_some hf, by simpa using List.find?_some hf⟩
  case mpr =>
    rintro ⟨hr, rfl⟩
    rw [(st.find?_handle_iff r).mpr hr]

-- The search by fingerprint stops at the lowest of the records that have it.
theorem search (st : rows.Stores records) (fingerprint : Bytes) :
    let row := rows.next? (fun _ row => row.fingerprint = .blob fingerprint) none
    (row = none ∧ ∀ r ∈ records, r.fingerprint ≠ some fingerprint) ∨
    ∃ r ∈ records, row = some r.entry ∧ r.fingerprint = some fingerprint ∧
      ∀ r' ∈ records, r'.fingerprint = some fingerprint →
        Handle.key r.handle ≤ Handle.key r'.handle := by
  intro row
  have entry (r : NodeRecord) (hr : r ∈ records) : rows.get? (Handle.key r.handle) =
      some r.row := by
    rw [get?_eq_some_iff, st.entries]
    exact List.mem_map.mpr ⟨r, hr, rfl⟩
  have has (r : NodeRecord) (hr : r ∈ records) :
      decide (r.row.fingerprint = .blob fingerprint) = true ↔ r.fingerprint = some fingerprint := by
    rw [decide_eq_true_eq, NodeRecord.fingerprint_eq_iff (st.kept r hr)]
  cases hrow : row
  case none =>
    refine .inl ⟨rfl, fun r hr hf => ?_⟩
    cases next?_eq_none_iff.mp hrow _ _ (entry r hr) <| (has r hr).mpr hf
  case some found =>
    obtain ⟨hget, hp, _, hlow⟩ := next?_eq_some hrow
    have hmem : found ∈ records.map NodeRecord.entry := by
      rw [← st.entries]
      exact get?_eq_some_iff.mp hget
    obtain ⟨r, hr, rfl⟩ := List.mem_map.mp hmem
    exact .inr ⟨r, hr, rfl, (has r hr).mp hp, fun r' hr' hf =>
      hlow _ _ (entry r' hr') ((has r' hr').mpr hf) rfl⟩

theorem lookup (st : rows.Stores records) (hs : t.conn.Sees c) (hn : c.nodes = .table rows)
    (fingerprint : Bytes) : ∃ found : Option NodeRecord,
    ((Op.fingerprintPayload fingerprint).run t).1 = .ok (.bytes (found.map (·.payload))) ∧
    (found = none → ∀ r ∈ records, r.fingerprint ≠ some fingerprint) ∧
    ∀ r ∈ found, r ∈ records ∧ r.fingerprint = some fingerprint ∧
      ∀ r' ∈ records, r'.fingerprint = some fingerprint →
        Handle.key r.handle ≤ Handle.key r'.handle := by
  have hselect : c.nodes.select .nodes ["node", "fingerprint"] = .ok rows := by rw [hn]; rfl
  have answer (found : Option NodeRecord)
      (h : rows.next? (fun _ row => row.fingerprint = .blob fingerprint) none =
        found.map NodeRecord.entry) :
      ((Op.fingerprintPayload fingerprint).run t).1 = .ok (.bytes (found.map (·.payload))) := by
    have hq : Content.fingerprintPayload fingerprint c = .ok (found.map (·.payload)) := by
      simp only [Content.fingerprintPayload, hselect, bind, Except.bind, h]
      cases found <;> rfl
    simp only [Op.run, Op.answer, Table.fingerprintPayload, Table.read_of_sees hs hq]
    rfl
  obtain ⟨hrow, hnone⟩ | ⟨r, hr, hrow, hf, hlow⟩ := st.search fingerprint
  case inl => exact ⟨none, answer none hrow, fun _ => hnone, by simp⟩
  case inr => exact ⟨some r, answer (some r) hrow, by simp, by rintro _ ⟨⟩; exact ⟨hr, hf, hlow⟩⟩

theorem traces (st : rows.Stores records) (hs : t.conn.Sees c) (hn : c.nodes = .table rows)
    (fingerprint : Bytes) : t.Traces fingerprint := by
  have bears (h : Handle) (r : NodeRecord) : t.Bears fingerprint h r ↔ _ := st.bears_iff hs hn h r
  obtain ⟨found, hrun, hnone, hsome⟩ := st.lookup hs hn fingerprint
  cases found
  case none =>
    refine Table.traces_of_none hrun fun h r b => ?_
    obtain ⟨hr, _, hf⟩ := (bears h r).mp b
    exact hnone rfl r hr hf
  case some r =>
    obtain ⟨hr, hf, hlow⟩ := hsome r rfl
    refine Table.traces_of_lowest hrun ((bears r.handle r).mpr ⟨hr, rfl, hf⟩) fun h' r' b => ?_
    obtain ⟨hr', rfl, hf'⟩ := (bears h' r').mp b
    exact hlow r' hr' hf'

-- An empty fingerprint is none, so that none is found by it.
theorem lookup_nil (st : rows.Stores records) (hs : t.conn.Sees c) (hn : c.nodes = .table rows) :
    ((Op.fingerprintPayload []).run t).1 = .ok (.bytes none) := by
  obtain ⟨found, hrun, -, hsome⟩ := st.lookup hs hn []
  cases found
  case none   => exact hrun
  case some r =>
    obtain ⟨hr, hf, _⟩ := hsome r rfl
    exact absurd hf <| NodeRecord.fingerprint_ne_nil <| st.kept r hr

end Rows.Stores

-- A table on which a lookup by any fingerprint says the same as the records, also after a record
-- with an empty fingerprint is put.
structure Table.Tracing (t : Table) : Prop where
  traces : ∀ fingerprint, t.Traces fingerprint
  empty  : ((Op.fingerprintPayload []).run t).1 = .ok (.bytes none)
  put    : ∀ r : NodeRecord, ((Op.fingerprintPayload []).run ((Op.putNode r).run t).2).1 =
    .ok (.bytes none)

theorem Content.Written.tracing {t : Table} {c : Content} (w : c.Written) (hs : t.conn.Sees c) :
    t.Tracing := by
  have empty {t : Table} {c : Content} (w : c.Written) (hs : t.conn.Sees c) :
      ((Op.fingerprintPayload []).run t).1 = .ok (.bytes none) := by
    obtain ⟨rows, records, hn, st⟩ := w.stores
    exact st.lookup_nil hs hn
  obtain ⟨rows, records, hn, st⟩ := w.stores
  refine ⟨st.traces hs hn, empty w hs, fun r => ?_⟩
  have hu : c.putNode r =
      .ok { c with nodes := .table <| rows.put (Handle.key r.handle) r.row } := by
    rw [putNode, hn]
    rfl
  have hconn : ((Op.putNode r).run t).2.conn = (t.conn.write (Content.putNode r)).2 := rfl
  obtain ⟨f, hw⟩ | ⟨conn, hw, hs'⟩ := hs.write hu
  case inl => exact empty w (by rw [hconn, hw]; exact hs)
  case inr => exact empty (Written.update .putNode hu w) (by rw [hconn, hw]; exact hs')

namespace Host

variable {h : Host} {n : Naming} {path name label key : String} {o : StoreOptions} {i : Nat}

def Traces (i : Nat) (h : Host) : Prop :=
  ∀ label s c, h.seat? label = some s → s.body = i → (h.assemble label s).conn.Sees c →
    (h.assemble label s).Tracing

theorem Endures.traces (e : h.Endures Content.Written i) : h.Traces i :=
  fun _ _ _ hs hi hc => (e.seen hs hi hc).tracing hc

-- Whatever is asked of the host on which a store is made, nodes of the store are found by
-- fingerprint as their records say; and a table that is worked on and reopened does not lose sight
-- of it.
theorem open_traces (label : String) (o : StoreOptions) (key : String) (hp : n.path name = .ok path)
    (hf : Finds n path h.disk (.foreign [])) (hs : h.seats = [])
    (ho : (h.open label n o name key).1 = .ok ()) :
    let made := (h.open label n o name key).2
    (∃ s, made.seat? label = some s ∧ ∀ rs, (Request.runAll n rs made).2.Traces s.body) ∧
    (path ≠ memoryPath → ∀ turns : List Turn,
      ∃ t, (Request.runAll n (turns.flatMap (Turn.requests label name)) made).2.table?
      label = some t ∧
        t.Tracing) := by
  intro made
  obtain ⟨s, hseat, e⟩ := open_endures Content.invariant_written hp hf hs ho
  refine ⟨⟨s, hseat, fun rs => (e.runAll Content.invariant_written n rs).traces⟩,
    fun hm turns => ?_⟩
  obtain ⟨t, c, ht, hc, w⟩ := open_turns Content.invariant_written hp hm hf hs ho turns
  exact ⟨t, ht, w.tracing hc⟩

-- Three nodes with one fingerprint, written from the highest to the lowest key and across the sign;
-- the lowest is put over with another fingerprint in a transaction that is rolled back, and then
-- deleted.
def copies : List Turn := [
  .work (.putNode ⟨5, 1, some [7], none, .none, [1]⟩),
  .work (.putNode ⟨0x8000000000000002, 1, some [7], none, .none, [2]⟩),
  .work (.putNode ⟨0x8000000000000001, 1, some [7], none, .none, [3]⟩),
  .work (.guarded [.putNode ⟨0x8000000000000001, 1, some [8], none, .none, [4]⟩] .drop),
  .work (.putNode ⟨6, 1, some [], none, .none, [5]⟩),
  .reopen .default "k"]

theorem bare_traces :
    let made := (bare.open "t" plainNaming .default "a" "k").2
    let after turns := (Request.runAll plainNaming (turns.flatMap (Turn.requests "t" "a")) made).2
    let payload turns fingerprint :=
      ((after turns).content? "t").map fun c => (Content.fingerprintPayload fingerprint c).toOption
    (∃ s, made.seat? "t" = some s ∧ ∀ rs, (Request.runAll plainNaming rs made).2.Traces s.body) ∧
    (∃ t, (after copies).table? "t" = some t ∧ t.Tracing) ∧
    payload copies [7] = some (some (some [3])) ∧ payload copies [8] = some (some none) ∧
    payload copies [] = some (some none) ∧
    payload (copies ++ [.work (.deleteNode 0x8000000000000001)]) [7] = some (some (some [2])) := by
  intro made after payload
  have found := open_traces (h := bare) "t" .default "k" plainNaming_path (.absent (by decide) rfl)
    rfl bare_open
  exact ⟨found.left,
    found.right (by decide) copies, by decide +kernel, by decide +kernel, by decide +kernel, by
      decide +kernel⟩

end Host
end AccountCache
