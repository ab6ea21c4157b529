import AccountCache.Content.Edit
import AccountCache.Proofs.LastWrites
import AccountCache.Proofs.Truncating

namespace AccountCache

namespace NodeRow

-- The columns of a row next to its key, from left to right. The key comes before them and is a
-- number in every row.
inductive Column
  | parent
  | fingerprint
  | attr
  | share
  | payload
  deriving DecidableEq

namespace Column

def index : Column → Nat
  | parent      => 1
  | fingerprint => 2
  | attr        => 3
  | share       => 4
  | payload     => 5

def name : Column → String
  | parent      => "parenthandle"
  | fingerprint => "fingerprint"
  | attr        => "attrstring"
  | share       => "shared"
  | payload     => "node"

def value (row : NodeRow) : Column → Value
  | parent      => row.parent
  | fingerprint => row.fingerprint
  | attr        => row.attr
  | share       => row.share
  | payload     => row.payload

def Takes : Column → Value → Prop
  | parent,      v => ∃ n, v = .integer n
  | fingerprint, v => v = .null ∨ ∃ bytes, v = .blob bytes
  | attr,        v => v = .null ∨ ∃ s, v = .ofString s
  | share,       v => ∃ n, v = .integer n
  | payload,     v => ∃ bytes, v = .blob bytes

-- What is reported of other values: their kind, or what keeps a text of the one column of texts
-- from being well formed.
inductive Refuses : Column → Value → QueryFault → Prop
  | kind {column : Column} {v : Value} (other : ¬column.Takes v)
    (noText : column = attr → v.kind ≠ .text) :
    Refuses column v (.wrongKind v.kind column.index column.name)
  | text {bytes : Bytes} {fault : Text.Utf8.Fault}
      (malformed : Text.Utf8.decode bytes = .error fault) :
    Refuses attr (.text bytes) (.badText attr.index fault)

theorem takes_fingerprint {v : Value} : fingerprint.Takes v ↔
    ∃ bytes, v = .ofOption .blob bytes := by
  simp only [Takes, Option.exists, Value.ofOption]

theorem takes_attr {v : Value} : attr.Takes v ↔ ∃ s, v = .ofOption .ofString s := by
  simp only [Takes, Option.exists, Value.ofOption]

variable {column : Column} {v : Value} {f f' : QueryFault}

theorem Refuses.not_takes (r : column.Refuses v f) : ¬column.Takes v := by
  cases r
  case kind h _ => exact h
  case text bytes fault h =>
    rintro (h' | ⟨s, h'⟩) <;> cases h'
    rw [Text.Utf8.decode_ofString] at h
    contradiction

theorem Refuses.unique (r : column.Refuses v f) (r' : column.Refuses v f') : f = f' := by
  cases r <;> cases r'
  case kind.kind   => rfl
  case kind.text h => exact absurd rfl <| h rfl
  case text.kind h => exact absurd rfl <| h rfl
  case text.text h _ h' =>
    cases h.symm.trans h'
    rfl

theorem reads_integer (column : Column) (hc : column = parent ∨ column = share) (v : Value) :
    (∃ n, v = .integer n ∧ v.readInteger column.index column.name = .ok n) ∨
    ∃ f, column.Refuses v f ∧ v.readInteger column.index column.name = .error f := by
  cases v
  case integer n => exact .inl ⟨n, rfl, rfl⟩
  all_goals
    refine .inr ⟨_, .kind ?_ ?_, rfl⟩
    all_goals obtain rfl | rfl := hc <;> simp [Takes]

theorem reads_mark (v : Value) :
    (∃ bytes, v = .ofOption .blob bytes ∧ v.readBlob? 2 "fingerprint" = .ok bytes) ∨
    ∃ f, fingerprint.Refuses v f ∧ v.readBlob? 2 "fingerprint" = .error f := by
  cases v
  case null       => exact .inl ⟨none, rfl, rfl⟩
  case blob bytes => exact .inl ⟨some bytes, rfl, rfl⟩
  all_goals exact .inr ⟨_, .kind (by simp [Takes]) (by simp), rfl⟩

theorem reads_text (v : Value) :
    (∃ s, v = .ofOption .ofString s ∧ v.readText? 3 "attrstring" = .ok s) ∨
    ∃ f, attr.Refuses v f ∧ v.readText? 3 "attrstring" = .error f := by
  cases v
  case null => exact .inl ⟨none, rfl, rfl⟩
  case text bytes =>
    cases hd : Text.Utf8.decode bytes
    case ok s =>
      refine .inl ⟨some s, ?_, by simp only [Value.readText?, hd]⟩
      rw [Value.ofOption, Value.ofString, Text.Utf8.ofString_of_decode hd]
    case error fault => exact .inr ⟨_, .text hd, by simp only [Value.readText?, hd]; rfl⟩
  all_goals exact .inr ⟨_, .kind (by simp [Takes, Value.ofString]) (by simp [Value.kind]), rfl⟩

theorem reads_blob (v : Value) :
    (∃ bytes, v = .blob bytes ∧ v.readBlob 5 "node" = .ok bytes) ∨
    ∃ f, payload.Refuses v f ∧ v.readBlob 5 "node" = .error f := by
  cases v
  case blob bytes => exact .inl ⟨bytes, rfl, rfl⟩
  all_goals exact .inr ⟨_, .kind (by simp [Takes]) (by simp), rfl⟩

end Column

-- The columns to the left of this one take their values, and this one does not.
structure StopsAt (row : NodeRow) (column : Column) (f : QueryFault) : Prop where
  before  : ∀ other : Column, other.index < column.index → other.Takes (other.value row)
  refuses : column.Refuses (column.value row) f

theorem StopsAt.unique {row : NodeRow} {column column' : Column} {f f' : QueryFault}
    (s : row.StopsAt column f) (s' : row.StopsAt column' f') : f = f' := by
  obtain h | h | h := Nat.lt_trichotomy column.index column'.index
  · exact absurd (s'.before _ h) s.refuses.not_takes
  · obtain rfl : column = column' := by
      cases column <;> cases column' <;> first | rfl | contradiction
    exact s.refuses.unique s'.refuses
  · exact absurd (s.before _ h) s'.refuses.not_takes

end NodeRow

theorem StoredNode.takes (n : StoredNode) (column : NodeRow.Column) :
    column.Takes (column.value n.row) := by
  cases column
  case parent | share | payload => exact ⟨_, rfl⟩
  case fingerprint              => exact NodeRow.Column.takes_fingerprint.mpr ⟨_, rfl⟩
  case attr                     => exact NodeRow.Column.takes_attr.mpr ⟨_, rfl⟩

namespace NodeRow

open Column

variable {row : NodeRow} {k : Key} {n : StoredNode}

theorem read_cases (row : NodeRow) (k : Key) :
    (∃ n : StoredNode, n.handle = Key.handle k ∧ n.row = row ∧ row.read k = .ok n) ∨
    ∃ column f, row.StopsAt column f ∧ row.read k = .error f := by
  obtain ⟨p, hp, hparent⟩ | ⟨f, hr, hparent⟩ := reads_integer .parent (.inl rfl) row.parent
  all_goals simp only [index, name] at hparent
  case inr =>
    exact .inr ⟨.parent, f, ⟨by rintro (_ | _) h <;> simp [index] at h, hr⟩,
      by simp only [read, hparent]; rfl⟩
  have parents : Takes .parent (value row .parent) := ⟨p, hp⟩
  obtain ⟨mark, hm, hmark⟩ | ⟨f, hr, hmark⟩ := reads_mark row.fingerprint
  case inr =>
    refine .inr ⟨.fingerprint, f, ⟨?_, hr⟩, by simp only [read, hparent, hmark]; rfl⟩
    rintro (_ | _) h <;> first | assumption | simp [index] at h
  have marks : Takes .fingerprint (value row .fingerprint) := takes_fingerprint.mpr ⟨mark, hm⟩
  obtain ⟨a, ha, hattr⟩ | ⟨f, hr, hattr⟩ := reads_text row.attr
  case inr =>
    refine .inr ⟨.attr, f, ⟨?_, hr⟩, by simp only [read, hparent, hmark, hattr]; rfl⟩
    rintro (_ | _) h <;> first | assumption | simp [index] at h
  have attrs : Takes .attr (value row .attr) := takes_attr.mpr ⟨a, ha⟩
  obtain ⟨code, hc, hshare⟩ | ⟨f, hr, hshare⟩ := reads_integer .share (.inr rfl) row.share
  all_goals simp only [index, name] at hshare
  case inr =>
    refine .inr ⟨.share, f, ⟨?_, hr⟩, by simp only [read, hparent, hmark, hattr, hshare]; rfl⟩
    rintro (_ | _) h <;> first | assumption | simp [index] at h
  have shares : Takes .share (value row .share) := ⟨code, hc⟩
  obtain ⟨bytes, hb, hpayload⟩ | ⟨f, hr, hpayload⟩ := reads_blob row.payload
  case inr =>
    refine .inr ⟨.payload, f, ⟨?_, hr⟩, by
      simp only [read, hparent, hmark, hattr, hshare, hpayload]; rfl⟩
    rintro (_ | _) h <;> first | assumption | simp [index] at h
  refine .inl ⟨⟨Key.handle k, Key.handle p, mark, a, code, bytes⟩, rfl, ?_, ?_⟩
  · simp only [StoredNode.row, Key.key_handle, ← hp, ← hm, ← ha, ← hc, ← hb]
  · simp only [read, hparent, hmark, hattr, hshare, hpayload]
    rfl

end NodeRow

-- What is read of the row that spells the record out, an empty fingerprint too.
def NodeRecord.stored (r : NodeRecord) : StoredNode where
  handle      := r.handle
  parent      := r.parent
  fingerprint := r.fingerprint
  attr        := r.attr
  shareCode   := r.share.code
  payload     := r.payload

namespace Share

variable {n : Int64}

theorem exists_code_iff : (∃ s : Share, s.code = n) ↔ 0 ≤ n ∧ n ≤ 4 := by
  constructor
  case mp =>
    rintro ⟨s, rfl⟩
    cases s <;> decide
  case mpr =>
    rintro ⟨h₀, h₄⟩
    rw [Int64.le_iff_toInt_le] at h₀ h₄
    have h : n.toInt = 0 ∨ n.toInt = 1 ∨ n.toInt = 2 ∨ n.toInt = 3 ∨ n.toInt = 4 := by
      have e₀ : (0 : Int64).toInt = 0 := rfl
      have e₄ : (4 : Int64).toInt = 4 := rfl
      omega
    obtain h | h | h | h | h := h
    · exact ⟨none, (Int64.toInt_inj.mp h).symm⟩
    · exact ⟨outgoing, (Int64.toInt_inj.mp h).symm⟩
    · exact ⟨incoming, (Int64.toInt_inj.mp h).symm⟩
    · exact ⟨pending, (Int64.toInt_inj.mp h).symm⟩
    · exact ⟨outgoingAndPending, (Int64.toInt_inj.mp h).symm⟩

theorem decode_cases (n : Int64) : (∃ s : Share, s.code = n ∧ decode n = .ok s) ∨
    ¬(0 ≤ n ∧ n ≤ 4) ∧ decode n = .error (.invalidShareState n) := by
  unfold decode
  cases h : ofCode? n
  case some s => exact .inl ⟨s, code_of_ofCode? h, rfl⟩
  case none =>
    refine .inr ⟨fun hr => ?_, rfl⟩
    obtain ⟨s, rfl⟩ := exists_code_iff.mpr hr
    rw [ofCode?_code] at h
    contradiction

end Share

namespace Table

variable {t : Table} {c : Content} {rows : Rows NodeRow} {row : NodeRow} {h : Handle}

theorem read_of_sees_error {α : Type} {q : Content → Except QueryFault α} {f : QueryFault}
    (hs : t.conn.Sees c)
    (hq : q c = .error f) : read q t = (.error (.query f), { t with conn := (t.conn.read q).2 }) :=
  onConnection_of_error (Prod.ext ((hs.read q).left.trans hq) rfl)

theorem node_cases (hs : t.conn.Sees c) (hn : c.nodes = .table rows)
    (hr : rows.get? (Handle.key h) = some row) :
    (∃ r : NodeRecord, r.handle = h ∧ r.stored.row = row ∧
      ((Op.nodeRecord h).run t).1 = .ok (.record (some r))) ∨
    (∃ n : StoredNode, n.row = row ∧ ¬(0 ≤ n.shareCode ∧ n.shareCode ≤ 4) ∧
      ((Op.nodeRecord h).run t).1 = .error (.invalidShareState n.shareCode)) ∨
    ∃ column f, row.StopsAt column f ∧ ((Op.nodeRecord h).run t).1 = .error (.query f) := by
  have hselect : c.nodes.select .nodes ["nodehandle"] = .ok rows := by rw [hn]; rfl
  have hq : Content.node h c = (row.read (Handle.key h)).map some := by
    simp only [Content.node, hselect, bind, Except.bind, hr]
  simp only [Op.run, Op.answer, nodeRecord]
  obtain ⟨n, hh, rfl, hread⟩ | ⟨column, f, hstop, hread⟩ := row.read_cases (Handle.key h)
  all_goals rw [hread] at hq
  case inl =>
    rw [read_of_sees hs hq]
    obtain ⟨s, hcode, hd⟩ | ⟨hcode, hd⟩ := Share.decode_cases n.shareCode
    case inl =>
      refine .inl ⟨n.record s, hh.trans (Handle.handle_key h), ?_, by simp only [hd]; rfl⟩
      rw [NodeRecord.stored, StoredNode.row, StoredNode.record, hcode]
      rfl
    case inr => exact .inr (.inl ⟨n, rfl, hcode, by simp only [hd]; rfl⟩)
  case inr =>
    rw [read_of_sees_error hs hq]
    exact .inr (.inr ⟨column, f, hstop, rfl⟩)

theorem nodeRecord_of_stored {r : NodeRecord} (hs : t.conn.Sees c) (hn : c.nodes = .table rows)
    (hr : rows.get? (Handle.key r.handle) = some r.stored.row) :
    ((Op.nodeRecord r.handle).run t).1 = .ok (.record (some r)) := by
  have hselect : c.nodes.select .nodes ["nodehandle"] = .ok rows := by rw [hn]; rfl
  have hread : r.stored.row.read (Handle.key r.handle) = .ok r.stored := r.stored.read_row
  have hq : Content.node r.handle c = .ok (some r.stored) := by
    simp only [Content.node, hselect, bind, Except.bind, hr, hread]
    rfl
  have hshare : Share.decode r.share.code = .ok r.share := by
    simp only [Share.decode, Share.ofCode?_code]
  simp only [Op.run, Op.answer, nodeRecord, read_of_sees hs hq, NodeRecord.stored, hshare]
  rfl

theorem nodePayload_of_row (hs : t.conn.Sees c) (hn : c.nodes = .table rows)
    (hr : rows.get? (Handle.key h) = some row) (reply : Reply) :
    ((Op.nodePayload h).run t).1 = .ok reply ↔
    ∃ bytes, row.payload = .blob bytes ∧ reply = .bytes (some bytes) := by
  have hselect : c.nodes.select .nodes ["node", "nodehandle"] = .ok rows := by rw [hn]; rfl
  have hq : Content.nodePayload h c = (row.payload.readBlob 0 "node").map some := by
    simp only [Content.nodePayload, hselect, bind, Except.bind, hr]
    rfl
  simp only [Op.run, Op.answer, nodePayload]
  cases hp : row.payload <;> rw [hp] at hq
  case blob bytes =>
    rw [read_of_sees hs hq]
    constructor
    case mp  => rintro ⟨⟩; exact ⟨bytes, rfl, rfl⟩
    case mpr => rintro ⟨_, ⟨⟩, rfl⟩; rfl
  all_goals
    rw [read_of_sees_error hs hq]
    exact ⟨by rintro ⟨⟩, by rintro ⟨_, ⟨⟩, _⟩⟩

theorem nodeRecord_eq_ok_iff {r : NodeRecord} (hs : t.conn.Sees c) (hn : c.nodes = .table rows)
    (hr : rows.get? (Handle.key h) = some row) :
    ((Op.nodeRecord h).run t).1 = .ok (.record (some r)) ↔ r.handle = h ∧ r.stored.row = row := by
  constructor
  case mp =>
    intro he
    obtain ⟨_, hh, hrow, hrun⟩ | ⟨_, _, _, hrun⟩ | ⟨_, _, _, hrun⟩ := node_cases hs hn hr
    all_goals cases hrun.symm.trans he
    exact ⟨hh, hrow⟩
  case mpr =>
    rintro ⟨rfl, rfl⟩
    exact nodeRecord_of_stored hs hn hr

theorem exists_nodeRecord_iff (hs : t.conn.Sees c) (hn : c.nodes = .table rows)
    (hr : rows.get? (Handle.key h) = some row) :
    (∃ r, ((Op.nodeRecord h).run t).1 = .ok (.record (some r))) ↔
      (∀ column : NodeRow.Column, column.Takes (column.value row)) ∧
        ∃ n, row.share = .integer n ∧ 0 ≤ n ∧ n ≤ 4 := by
  constructor
  case mp =>
    rintro ⟨r, he⟩
    obtain ⟨rfl, rfl⟩ := (nodeRecord_eq_ok_iff hs hn hr).mp he
    exact ⟨r.stored.takes, _, rfl, Share.exists_code_iff.mp ⟨r.share, rfl⟩⟩
  case mpr =>
    rintro ⟨htakes, n, hshare, hcode⟩
    obtain ⟨r, _, _, hrun⟩ | ⟨n', rfl, hcode', _⟩ | ⟨column, _, hstop, _⟩ := node_cases hs hn hr
    case inl     => exact ⟨r, hrun⟩
    case inr.inl => cases hshare; exact absurd hcode hcode'
    case inr.inr => exact absurd (htakes column) hstop.refuses.not_takes

theorem nodeRecord_eq_query_iff {f : QueryFault} (hs : t.conn.Sees c) (hn : c.nodes = .table rows)
    (hr : rows.get? (Handle.key h) = some row) :
    ((Op.nodeRecord h).run t).1 = .error (.query f) ↔ ∃ column, row.StopsAt column f := by
  constructor
  case mp =>
    intro he
    obtain ⟨_, _, _, hrun⟩ | ⟨_, _, _, hrun⟩ | ⟨column, _, hstop, hrun⟩ := node_cases hs hn hr
    all_goals cases hrun.symm.trans he
    exact ⟨column, hstop⟩
  case mpr =>
    rintro ⟨column, hstop⟩
    obtain ⟨r, _, rfl, _⟩ | ⟨n, rfl, _⟩ | ⟨column', f', hstop', hrun⟩ := node_cases hs hn hr
    case inl     => exact absurd (r.stored.takes column) hstop.refuses.not_takes
    case inr.inl => exact absurd (n.takes column) hstop.refuses.not_takes
    case inr.inr => rw [hrun, hstop.unique hstop']

theorem nodeRecord_eq_invalidShareState_iff {n : Int64} (hs : t.conn.Sees c)
    (hn : c.nodes = .table rows) (hr : rows.get? (Handle.key h) = some row) :
    ((Op.nodeRecord h).run t).1 = .error (.invalidShareState n) ↔
      (∀ column : NodeRow.Column, column.Takes (column.value row)) ∧ row.share = .integer n ∧
        ¬(0 ≤ n ∧ n ≤ 4) := by
  constructor
  case mp =>
    intro he
    obtain ⟨_, _, _, hrun⟩ | ⟨n', rfl, hcode, hrun⟩ | ⟨_, _, _, hrun⟩ := node_cases hs hn hr
    all_goals cases hrun.symm.trans he
    exact ⟨n'.takes, rfl, hcode⟩
  case mpr =>
    rintro ⟨htakes, hshare, hcode⟩
    obtain ⟨r, _, rfl, _⟩ | ⟨n', rfl, _, hrun⟩ | ⟨column, _, hstop, _⟩ := node_cases hs hn hr
    case inl     => cases hshare; exact absurd (Share.exists_code_iff.mp ⟨r.share, rfl⟩) hcode
    case inr.inl => cases hshare; exact hrun
    case inr.inr => exact absurd (htakes column) hstop.refuses.not_takes

structure Decodes (t : Table) (h : Handle) (row : NodeRow) : Prop where
  record    : ∀ r, ((Op.nodeRecord h).run t).1 = .ok (.record (some r)) ↔
    r.handle = h ∧ r.stored.row = row
  readable  : (∃ r, ((Op.nodeRecord h).run t).1 = .ok (.record (some r))) ↔
    (∀ column : NodeRow.Column, column.Takes (column.value row)) ∧ ∃ n, row.share = .integer n ∧
      0 ≤ n ∧ n ≤ 4
  illTyped  : ∀ f, ((Op.nodeRecord h).run t).1 = .error (.query f) ↔ ∃ column, row.StopsAt column f
  unshared  : ∀ n, ((Op.nodeRecord h).run t).1 = .error (.invalidShareState n) ↔
    (∀ column : NodeRow.Column, column.Takes (column.value row)) ∧ row.share = .integer n ∧
      ¬(0 ≤ n ∧ n ≤ 4)
  otherwise : (∃ r, ((Op.nodeRecord h).run t).1 = .ok (.record (some r))) ∨
    (∃ f, ((Op.nodeRecord h).run t).1 = .error (.query f)) ∨
    ∃ n, ((Op.nodeRecord h).run t).1 = .error (.invalidShareState n)
  payload   : ∀ reply, ((Op.nodePayload h).run t).1 = .ok reply ↔
    ∃ bytes, row.payload = .blob bytes ∧ reply = .bytes (some bytes)

theorem decodes (hs : t.conn.Sees c) (hn : c.nodes = .table rows)
    (hr : rows.get? (Handle.key h) = some row) :
    t.Decodes h row where
  record _   := nodeRecord_eq_ok_iff hs hn hr
  readable   := exists_nodeRecord_iff hs hn hr
  illTyped _ := nodeRecord_eq_query_iff hs hn hr
  unshared _ := nodeRecord_eq_invalidShareState_iff hs hn hr
  otherwise  := by
    obtain ⟨r, _, _, hrun⟩ | ⟨n, _, _, hrun⟩ | ⟨_, f, _, hrun⟩ := node_cases hs hn hr
    · exact .inl ⟨r, hrun⟩
    · exact .inr (.inr ⟨_, hrun⟩)
    · exact .inr (.inl ⟨f, hrun⟩)
  payload    := nodePayload_of_row hs hn hr

end Table

namespace Connection

variable {conn : Connection} {c next : Content} {α : Type} {u : Content → Except QueryFault Content}

theorem Unhindered.read (h : conn.Unhindered c) (q : Content → Except QueryFault α) :
    (conn.read q).2.Unhindered c := by
  obtain ⟨s, hq, hfree⟩ := h
  exact ⟨s, (hq.read q).right, hfree.imp_right read_obstacle.trans⟩

theorem Sees.write (h : conn.Sees c) (hu : u c = .ok next) :
    (∃ f, conn.write u = (.error f, conn)) ∨ ∃ conn', conn.write u = (.ok (), conn') ∧
    conn'.Sees next := by
  obtain ⟨f, hw⟩ | ⟨before, after, pending, hb, ha, _, hw⟩ | ⟨s, after, hs, ha, hi, hw⟩ :=
    conn.write_cases u
  case inl => exact .inl ⟨f, hw⟩
  case inr.inl =>
    cases h.content.symm.trans hb
    cases hu.symm.trans ha
    exact .inr ⟨_, hw, rfl, .inl rfl⟩
  case inr.inr =>
    have hp : conn.phase = .idle := by simpa [inTransaction] using hi
    have hb : conn.content? = some s.content := by simp only [content?, hp, hs]; rfl
    cases h.content.symm.trans hb
    cases hu.symm.trans ha
    refine .inr ⟨_, hw, ?_, .inr ?_⟩
    · simp only [content?, hp]
      rfl
    · obtain hreading | hpending := h.free
      case inl => rw [hp] at hreading; contradiction
      case inr => exact hpending

end Connection

-- The row as it is once the record that is read of it has been put back.
def NodeRow.marked (row : NodeRow) : NodeRow :=
  { row with fingerprint := if row.fingerprint = .blob [] then .null else row.fingerprint }

theorem NodeRow.marked_of_ne {row : NodeRow} (h : row.fingerprint ≠ .blob []) :
    row.marked = row := by
  rw [marked, if_neg h]

theorem NodeRecord.row_eq_marked (r : NodeRecord) : r.row = r.stored.row.marked := by
  obtain ⟨_, _, fingerprint, _, _, _⟩ := r
  rcases fingerprint with _ | _ | _ <;> rfl

theorem Rows.put_of_get? {α : Type} {rows : Rows α} {k : Key} {a : α} (h : rows.get? k = some a) :
    rows.put k a = rows := by
  refine ext_get? fun j => ?_
  rw [get?_put]
  split
  case isTrue hj  => rw [hj, h]
  case isFalse    => rfl

namespace Table

variable {t : Table} {c : Content} {rows : Rows NodeRow} {row : NodeRow} {h : Handle}

structure Replaces (t : Table) (c : Content) (rows : Rows NodeRow) (r : NodeRecord) : Prop where
  done    : t.conn.Unhindered c → ((Op.putNode r).run t).1 = .ok .done
  failed  : ∀ f, ((Op.putNode r).run t).1 = .error f → ((Op.putNode r).run t).2 = t
  stored  : ((Op.putNode r).run t).1 = .ok .done →
    ((Op.putNode r).run t).2.conn.Sees
      { c with nodes := .table <| rows.put (Handle.key r.handle) r.row }
  record  : ((Op.putNode r).run t).1 = .ok .done →
    ((Op.nodeRecord r.handle).run ((Op.putNode r).run t).2).1 = .ok (.record (some r.kept))
  payload : ((Op.putNode r).run t).1 = .ok .done →
    ((Op.nodePayload r.handle).run ((Op.putNode r).run t).2).1 = .ok (.bytes (some r.payload))

theorem replaces (hs : t.conn.Sees c) (hn : c.nodes = .table rows) (r : NodeRecord) :
    t.Replaces c rows r := by
  have hu : c.putNode r =
      .ok { c with nodes := .table <| rows.put (Handle.key r.handle) r.row } := by
    rw [Content.putNode, hn]
    rfl
  have hget : (rows.put (Handle.key r.handle) r.row).get? (Handle.key r.handle) = some r.row := by
    rw [Rows.get?_put, if_pos rfl]
  obtain ⟨f, hw⟩ | ⟨conn, hw, hs'⟩ := hs.write hu
  case inl =>
    have hrun : (Op.putNode r).run t = (.error (.query f), t) := by
      simp only [Op.run, Op.done, Op.answer, putNode, write, onConnection_of_error hw]
      rfl
    have hfails : ((Op.putNode r).run t).1 ≠ .ok .done := by rw [hrun]; simp
    exact {
      done    := fun hfree => by cases hu.symm.trans <| hfree.of_write_error hw
      failed  := fun _ _ => by rw [hrun]
      stored  := fun h => absurd h hfails
      record  := fun h => absurd h hfails
      payload := fun h => absurd h hfails }
  case inr =>
    have hrun : (Op.putNode r).run t = (.ok .done, { t with conn }) := by
      simp only [Op.run, Op.done, Op.answer, putNode, write, onConnection_of_ok hw]
      rfl
    have hafter : ((Op.putNode r).run t).2.conn.Sees
        { c with nodes := .table <| rows.put (Handle.key r.handle) r.row } := by
      rw [hrun]
      exact hs'
    exact {
      done    := fun _ => by rw [hrun]
      failed  := fun _ h => by rw [hrun] at h; contradiction
      stored  := fun _ => hafter
      record  := fun _ => nodeRecord_of_stored (r := r.kept) hafter rfl hget
      payload := fun _ => (nodePayload_of_row hafter rfl hget _).mpr ⟨_, rfl, rfl⟩ }

-- A row that holds any values is read as the record that it spells out, or what is at fault in it
-- is reported. What is read of it goes back into the same row, short of an empty fingerprint, and
-- any record that is put there can be read.
theorem node_decodes (hs : t.conn.Sees c) (hn : c.nodes = .table rows)
    (hr : rows.get? (Handle.key h) = some row) :
    t.Decodes h row ∧
    (∀ r, ((Op.nodeRecord h).run t).1 = .ok (.record (some r)) →
      ((Op.nodeRecord h).run t).2.Replaces c rows r ∧
      (t.conn.Unhindered c → ((Op.nodeRecord h).run t).2.conn.Unhindered c) ∧
      r.row = row.marked ∧
        (row.fingerprint ≠ .blob [] → rows.put (Handle.key r.handle) r.row = rows)) ∧
    ∀ r : NodeRecord, r.handle = h → t.Replaces c rows r := by
  have hconn : ((Op.nodeRecord h).run t).2.conn = (t.conn.read (Content.node h)).2 :=
    nodeRecord_conn h
  refine ⟨decodes hs hn hr, fun r he => ?_, fun r _ => replaces hs hn r⟩
  obtain ⟨rfl, rfl⟩ := (nodeRecord_eq_ok_iff hs hn hr).mp he
  refine ⟨replaces ?sees hn r, ?free, r.row_eq_marked, fun hf => ?same⟩
  case sees =>
    rw [hconn]
    exact (hs.read _).right
  case free =>
    rw [hconn]
    exact fun hfree => hfree.read _
  case same =>
    rw [r.row_eq_marked, NodeRow.marked_of_ne hf]
    exact Rows.put_of_get? hr

def planted : NodeRecord where
  handle      := 18446744073709551615
  parent      := 7
  fingerprint := some []
  attr        := some "5"
  share       := .pending
  payload     := [1, 2]

def plantedContent : Content :=
  { Content.empty with nodes := .table <| .put .empty (-1) planted.stored.row }

def plantedTable : Table where
  path   := "a.db"
  conn   := { body := .store ⟨plantedContent, 1, true⟩, phase := .idle, peers := .ofPhases [],
              obstacle := none }
  cursor := .idle
  key    := ⟨.transparent, []⟩
  log    := []

theorem plantedTable_node :
    Edit.apply (.putNode (-1) ⟨.text [55], .blob [], .integer 5, .integer 3, .blob [1, 2]⟩) .empty =
      .ok plantedContent ∧
    ((Op.nodeRecord 18446744073709551615).run plantedTable).1 = .ok (.record (some planted)) ∧
    let looked := ((Op.nodeRecord 18446744073709551615).run plantedTable).2
    ((Op.nodeRecord 18446744073709551615).run ((Op.putNode planted).run looked).2).1 =
      .ok (.record (some { planted with fingerprint := none })) := by
  have hs : plantedTable.conn.Sees plantedContent := ⟨rfl, .inr rfl⟩
  have hfree : plantedTable.conn.Unhindered plantedContent :=
    ⟨⟨plantedContent, 1, true⟩, ⟨rfl, rfl, by simp [plantedTable], .inl rfl, .inl rfl, rfl,
      rfl⟩, .inl rfl⟩
  have hr : (Rows.put .empty (-1) planted.stored.row).get? (Handle.key 18446744073709551615) =
      some planted.stored.row := rfl
  obtain ⟨decodes, puts, _⟩ := node_decodes hs rfl hr
  have he := (decodes.record planted).mpr ⟨rfl, rfl⟩
  obtain ⟨replaces, free, _⟩ := puts planted he
  exact ⟨by decide +kernel, he, replaces.record <| replaces.done <| free hfree⟩

end Table
end AccountCache
