import AccountCache.Proofs.Draining
import AccountCache.Proofs.Standard
import Mathlib.Data.Set.List

namespace AccountCache

namespace Op

-- Operations that write and are not refused: no slot of a handle key, and no ends of transactions.
def isEntry : Op → Bool
  | putScalar s _ => !s.isReserved
  | putNode _ | deleteNode _ | putUser .. | deleteUser _ | putContact .. | deleteContact _
  | truncate => true
  | _ => false

-- What an operation leaves of one thing, if it has to do with it.

def onNode (h : Handle) : Op → Option (Option NodeRecord)
  | putNode r    => if r.handle = h then some (some r) else none
  | deleteNode g => if g = h then some none else none
  | truncate     => some none
  | _            => none

def onUser (h : Handle) : Op → Option (Option Bytes)
  | putUser g payload => if g = h then some (some payload) else none
  | deleteUser g      => if g = h then some none else none
  | truncate          => some none
  | _                 => none

def onContact (h : Handle) : Op → Option (Option Bytes)
  | putContact g payload => if g = h then some (some payload) else none
  | deleteContact g      => if g = h then some none else none
  | truncate             => some none
  | _                    => none

def onSlot (s : Slot) : Op → Option (Option Bytes)
  | putScalar s' bytes => if s' = s then some (some bytes) else none
  | truncate           => some none
  | _                  => none

-- What is left of a thing by the last of the operations that has to do with it.
def left (effect : Op → Option (Option α)) (ops : List Op) : Option α :=
  (ops.reverse.findSome? effect).join

variable {α : Type} {effect : Op → Option (Option α)}

theorem left_snoc (effect : Op → Option (Option α)) (ops : List Op) (op : Op) :
    left effect (ops ++ [op]) = (effect op).getD (left effect ops) := by
  rw [left, List.reverse_append, List.reverse_singleton, List.singleton_append, List.findSome?_cons]
  cases effect op <;> rfl

end Op

open Op (left left_snoc onNode onUser onContact onSlot)

-- The rows keep, under keys of their own, what the operations have left.
def Rows.Keeps {ι α β : Type} (rows : Rows α) (key : ι → Key) (form : β → α)
    (effect : ι → Op → Option (Option β)) (ops : List Op) : Prop :=
  ∀ i, rows.get? (key i) = (left (effect i) ops).map form

namespace Rows.Keeps

variable {ι α β : Type} {rows : Rows α} {key : ι → Key} {form : β → α}
  {effect : ι → Op → Option (Option β)} {ops : List Op} {op : Op}

-- What an operation puts or deletes at one key, and nowhere else, is kept.

theorem put (k : rows.Keeps key form effect ops) (op : Op)
    (inj : ∀ {i j}, key i = key j → i = j) {i : ι} {b : β} (hi : effect i op = some (some b))
    (hj : ∀ j, i ≠ j → effect j op = none) :
    (rows.put (key i) (form b)).Keeps key form effect (ops ++ [op]) := by
  intro j
  rw [get?_put, left_snoc]
  split
  case isTrue h  => rw [inj h, hi]; rfl
  case isFalse h => rw [hj j fun he => h (he ▸ rfl), k j]; rfl

theorem erase (k : rows.Keeps key form effect ops) (op : Op)
    (inj : ∀ {i j}, key i = key j → i = j) {i : ι} (hi : effect i op = some none)
    (hj : ∀ j, i ≠ j → effect j op = none) :
    (rows.erase (key i)).Keeps key form effect (ops ++ [op]) := by
  intro j
  rw [get?_erase, left_snoc]
  split
  case isTrue h  => rw [inj h, hi]; rfl
  case isFalse h => rw [hj j fun he => h (he ▸ rfl), k j]; rfl

theorem other (k : rows.Keeps key form effect ops) (h : ∀ i, effect i op = none) :
    rows.Keeps key form effect (ops ++ [op]) := by
  intro i
  rw [left_snoc, h i, k i]
  rfl

theorem emptied (h : ∀ i, effect i op = some none) :
    (empty : Rows α).Keeps key form effect (ops ++ [op]) := by
  intro i
  rw [left_snoc, h i]
  rfl

end Rows.Keeps

abbrev PlainSlot := { s : Slot // s.isReserved = false }

structure Content.Reflects (c : Content) (ops : List Op) : Prop where
  slots    : ∃ rows, c.init = .table rows ∧
    rows.Keeps (fun s : PlainSlot => s.val.key) Value.blob (fun s => onSlot s) ops
  nodes    : ∃ rows, c.nodes = .table rows ∧ rows.Keeps Handle.key NodeRecord.row onNode ops
  users    : ∃ rows, c.users = .table rows ∧ rows.Keeps Handle.key Value.blob onUser ops
  contacts : ∃ rows, c.pcrs = .table rows ∧ rows.Keeps Handle.key Value.blob onContact ops

namespace Content.Reflects

variable {c : Content} {ops : List Op}

theorem isStandard (r : c.Reflects ops) : c.IsStandard := by
  obtain ⟨_, hs, _⟩ := r.slots
  obtain ⟨_, hn, _⟩ := r.nodes
  obtain ⟨_, hu, _⟩ := r.users
  obtain ⟨_, hp, _⟩ := r.contacts
  exact ⟨by rw [hs]; rfl, by rw [hn]; rfl, by rw [hu]; rfl, by rw [hp]; rfl⟩

theorem of_slots {op : Op} {rows : Rows Value} (r : c.Reflects ops)
    (hk : rows.Keeps (fun s : PlainSlot => s.val.key) Value.blob (fun s => onSlot s) (ops ++ [op]))
    (hn : ∀ h, onNode h op = none) (hu : ∀ h, onUser h op = none)
    (hc : ∀ h, onContact h op = none) :
    ({ c with init := .table rows } : Content).Reflects (ops ++ [op]) where
  slots    := ⟨rows, rfl, hk⟩
  nodes    := r.nodes.imp fun _ k => k.imp_right (·.other hn)
  users    := r.users.imp fun _ k => k.imp_right (·.other hu)
  contacts := r.contacts.imp fun _ k => k.imp_right (·.other hc)

theorem of_nodes {op : Op} {rows : Rows NodeRow} (r : c.Reflects ops)
    (hk : rows.Keeps Handle.key NodeRecord.row onNode (ops ++ [op]))
    (hs : ∀ s : PlainSlot, onSlot s op = none) (hu : ∀ h, onUser h op = none)
    (hc : ∀ h, onContact h op = none) :
    ({ c with nodes := .table rows } : Content).Reflects (ops ++ [op]) where
  slots    := r.slots.imp fun _ k => k.imp_right (·.other hs)
  nodes    := ⟨rows, rfl, hk⟩
  users    := r.users.imp fun _ k => k.imp_right (·.other hu)
  contacts := r.contacts.imp fun _ k => k.imp_right (·.other hc)

theorem of_users {op : Op} {rows : Rows Value} (r : c.Reflects ops)
    (hk : rows.Keeps Handle.key Value.blob onUser (ops ++ [op]))
    (hs : ∀ s : PlainSlot, onSlot s op = none) (hn : ∀ h, onNode h op = none)
    (hc : ∀ h, onContact h op = none) :
    ({ c with users := .table rows } : Content).Reflects (ops ++ [op]) where
  slots    := r.slots.imp fun _ k => k.imp_right (·.other hs)
  nodes    := r.nodes.imp fun _ k => k.imp_right (·.other hn)
  users    := ⟨rows, rfl, hk⟩
  contacts := r.contacts.imp fun _ k => k.imp_right (·.other hc)

theorem of_contacts {op : Op} {rows : Rows Value} (r : c.Reflects ops)
    (hk : rows.Keeps Handle.key Value.blob onContact (ops ++ [op]))
    (hs : ∀ s : PlainSlot, onSlot s op = none) (hn : ∀ h, onNode h op = none)
    (hu : ∀ h, onUser h op = none) :
    ({ c with pcrs := .table rows } : Content).Reflects (ops ++ [op]) where
  slots    := r.slots.imp fun _ k => k.imp_right (·.other hs)
  nodes    := r.nodes.imp fun _ k => k.imp_right (·.other hn)
  users    := r.users.imp fun _ k => k.imp_right (·.other hu)
  contacts := ⟨rows, rfl, hk⟩

-- The update of an entry, short of a truncation, keeps what it puts and drops what it deletes.
theorem update (r : c.Reflects ops) {op : Op} (he : op.isEntry = true) (hn : op ≠ .truncate) :
    ∃ u c', Content.Update u ∧ op.run = Op.done (Table.write u) ∧ u c = .ok c' ∧
      c'.Reflects (ops ++ [op]) := by
  obtain ⟨slots, hslots, kslots⟩ := r.slots
  obtain ⟨nodes, hnodes, knodes⟩ := r.nodes
  obtain ⟨users, husers, kusers⟩ := r.users
  obtain ⟨contacts, hcontacts, kcontacts⟩ := r.contacts
  -- Each entry changes one table at one key, under which no other handle or slot is kept.
  cases op <;> try contradiction
  case putNode record =>
    have k := knodes.put (.putNode record) Handle.key_injective (if_pos rfl) fun _ hne => if_neg hne
    exact ⟨_, _, .putNode, rfl, by rw [putNode, hnodes]; rfl,
      r.of_nodes k (fun _ => rfl) (fun _ => rfl) fun _ => rfl⟩
  case deleteNode h =>
    have k := knodes.erase (.deleteNode h) Handle.key_injective (if_pos rfl) fun _ hne => if_neg hne
    exact ⟨_, _, .deleteNode, rfl, by rw [deleteNode, hnodes]; rfl,
      r.of_nodes k (fun _ => rfl) (fun _ => rfl) fun _ => rfl⟩
  case putUser h payload =>
    have k := kusers.put (.putUser h payload) Handle.key_injective (if_pos rfl)
      fun _ hne => if_neg hne
    exact ⟨_, _, .putUser, rfl, by rw [putUser, husers]; rfl,
      r.of_users k (fun _ => rfl) (fun _ => rfl) fun _ => rfl⟩
  case deleteUser h =>
    have k := kusers.erase (.deleteUser h) Handle.key_injective (if_pos rfl) fun _ hne => if_neg hne
    exact ⟨_, _, .deleteUser, rfl, by rw [deleteUser, husers]; rfl,
      r.of_users k (fun _ => rfl) (fun _ => rfl) fun _ => rfl⟩
  case putContact h payload =>
    have k := kcontacts.put (.putContact h payload) Handle.key_injective (if_pos rfl)
      fun _ hne => if_neg hne
    exact ⟨_, _, .putContact, rfl, by rw [putContact, hcontacts]; rfl,
      r.of_contacts k (fun _ => rfl) (fun _ => rfl) fun _ => rfl⟩
  case deleteContact h =>
    have k := kcontacts.erase (.deleteContact h) Handle.key_injective (if_pos rfl)
      fun _ hne => if_neg hne
    exact ⟨_, _, .deleteContact, rfl, by rw [deleteContact, hcontacts]; rfl,
      r.of_contacts k (fun _ => rfl) (fun _ => rfl) fun _ => rfl⟩
  case putScalar s bytes =>
    have hs : s.isReserved = false := by simpa [Op.isEntry] using he
    have k := kslots.put (.putScalar s bytes) (i := ⟨s, hs⟩)
      (fun h => Subtype.ext (Slot.key_injective h)) (if_pos rfl)
      fun s' hne => if_neg fun h => hne (Subtype.ext h)
    have hrun : (Op.putScalar s bytes).run = Op.done (Table.write (Content.putScalar s bytes)) := by
      funext t
      simp only [Op.run, Op.done, Op.answer, Table.putScalar, hs, Bool.false_eq_true, if_false]
    exact ⟨_, _, .putScalar hs, hrun, by rw [putScalar, hslots]; rfl,
      r.of_slots k (fun _ => rfl) (fun _ => rfl) fun _ => rfl⟩

theorem truncated (ops : List Op) :
    Content.Reflects ⟨.table .empty, .table .empty, .table .empty, .table .empty⟩
      (ops ++ [.truncate]) where
  slots    := ⟨.empty, rfl, Rows.Keeps.emptied fun _ => rfl⟩
  nodes    := ⟨.empty, rfl, Rows.Keeps.emptied fun _ => rfl⟩
  users    := ⟨.empty, rfl, Rows.Keeps.emptied fun _ => rfl⟩
  contacts := ⟨.empty, rfl, Rows.Keeps.emptied fun _ => rfl⟩

end Content.Reflects

-- A record as it is read back: an empty fingerprint is none.
def NodeRecord.kept (r : NodeRecord) : NodeRecord := { r with fingerprint := r.mark }

-- The row that spells out what has been read of it.
def StoredNode.row (n : StoredNode) : NodeRow where
  parent      := .integer (Handle.key n.parent)
  fingerprint := .ofOption .blob n.fingerprint
  attr        := .ofOption .ofString n.attr
  share       := .integer n.shareCode
  payload     := .blob n.payload

theorem StoredNode.read_row (n : StoredNode) : n.row.read (Handle.key n.handle) = .ok n := by
  have hf : (Value.ofOption .blob n.fingerprint).readBlob? 2 "fingerprint" = .ok n.fingerprint := by
    cases n.fingerprint <;> rfl
  have ha : (Value.ofOption .ofString n.attr).readText? 3 "attrstring" = .ok n.attr := by
    cases n.attr
    case none   => rfl
    case some s =>
      simp only [Value.ofOption, Value.ofString, Value.readText?, Text.Utf8.decode_ofString]
  simp only [NodeRow.read, row, hf, ha, bind, Except.bind, Value.readInteger, Value.readBlob, pure,
    Except.pure, Handle.handle_key]

theorem NodeRecord.read_row (r : NodeRecord) (k : Key) :
    r.row.read k = .ok ⟨Key.handle k, r.parent, r.mark, r.attr, r.share.code, r.payload⟩ := by
  have h := StoredNode.read_row ⟨Key.handle k, r.parent, r.mark, r.attr, r.share.code, r.payload⟩
  rwa [Key.key_handle] at h

theorem Table.nodeRecord_of_rows {t : Table} {c : Content} {rows : Rows NodeRow} {h : Handle}
    {found : Option NodeRecord} (hs : t.conn.Sees c) (hn : c.nodes = .table rows)
    (hk : rows.get? (Handle.key h) = found.map (·.row)) (hh : ∀ record ∈ found, record.handle = h) :
    ((Op.nodeRecord h).run t).1 = .ok (.record (found.map (·.kept))) := by
  have hselect : c.nodes.select .nodes ["nodehandle"] = .ok rows := by rw [hn]; rfl
  simp only [Op.run, Op.answer, Table.nodeRecord]
  cases found
  case none =>
    have hq : Content.node h c = .ok none := by
      simp only [Content.node, hselect, bind, Except.bind, hk, Option.map_none]
      rfl
    rw [Table.read_of_sees hs hq]
    rfl
  case some record =>
    have hq : Content.node h c = .ok (some
        ⟨h, record.parent, record.mark, record.attr, record.share.code, record.payload⟩) := by
      simp only [Content.node, hselect, bind, Except.bind, hk, Option.map_some, NodeRecord.read_row,
        Handle.handle_key]
      rfl
    have hshare : Share.decode record.share.code = .ok record.share := by
      simp only [Share.decode, Share.ofCode?_code]
    rw [Table.read_of_sees hs hq]
    simp only [hshare]
    have hkept : record.kept = ⟨h, record.parent, record.mark, record.attr, record.share,
        record.payload⟩ := by
      rw [NodeRecord.kept, hh record rfl]
    rw [Option.map_some, hkept]
    rfl

-- Each payload that is kept for a handle is enumerated, each once and in the order of keys.
def Lists (t : Table) (s : Selector) (kept : Handle → Option Bytes) : Prop :=
  ∃ rows : List (Key × Bytes), rows.Pairwise (·.1 < ·.1) ∧
    (∀ h payload, (Handle.key h, payload) ∈ rows ↔ kept h = some payload) ∧
    ∀ steps, (∀ op ∈ steps, op.isStep = true) →
      Op.stepRepliesAll (.startCursor s :: steps) (Op.runAll (.startCursor s :: steps) t).1 =
        Op.replies steps (rows.map (fun r => .ok (some r)) ++ [.ok none])

structure Shows (t : Table) (ops : List Op) : Prop where
  record   : ∀ h, ((Op.nodeRecord h).run t).1 = .ok (.record ((left (onNode h) ops).map (·.kept)))
  payload  : ∀ h, ((Op.nodePayload h).run t).1 =
    .ok (.bytes ((left (onNode h) ops).map (·.payload)))
  slot     : ∀ s : Slot, s.isReserved = false →
    ((Op.scalar s).run t).1 = .ok (.bytes (left (onSlot s) ops))
  users    : Lists t .users fun h => left (onUser h) ops
  contacts : Lists t .pendingContacts fun h => left (onContact h) ops

namespace Content.Reflects

variable {c : Content} {ops : List Op} {t : Table}

theorem handle_of_left {h : Handle} {record : NodeRecord} (hl : left (onNode h) ops = some record) :
    record.handle = h := by
  obtain ⟨op, _, hop⟩ := List.exists_of_findSome?_eq_some (Option.join_eq_some_iff.mp hl)
  cases op <;> simp only [onNode] at hop
  case putNode | deleteNode => split at hop <;> simp_all
  all_goals simp at hop

theorem record (r : c.Reflects ops) (hs : t.conn.Sees c) (h : Handle) :
    ((Op.nodeRecord h).run t).1 = .ok (.record ((left (onNode h) ops).map (·.kept))) := by
  obtain ⟨rows, hn, k⟩ := r.nodes
  exact Table.nodeRecord_of_rows hs hn (k h) fun _ => handle_of_left

theorem payload (r : c.Reflects ops) (hs : t.conn.Sees c) (h : Handle) :
    ((Op.nodePayload h).run t).1 = .ok (.bytes ((left (onNode h) ops).map (·.payload))) := by
  obtain ⟨rows, hn, k⟩ := r.nodes
  have hselect : c.nodes.select .nodes ["node", "nodehandle"] = .ok rows := by rw [hn]; rfl
  have hq : Content.nodePayload h c = .ok ((left (onNode h) ops).map (·.payload)) := by
    simp only [nodePayload, hselect, bind, Except.bind, k h]
    cases left (onNode h) ops <;> rfl
  simp only [Op.run, Op.answer, Table.nodePayload, Table.read_of_sees hs hq]
  rfl

theorem slot (r : c.Reflects ops) (hs : t.conn.Sees c) (s : Slot) (hn : s.isReserved = false) :
    ((Op.scalar s).run t).1 = .ok (.bytes (left (onSlot s) ops)) := by
  obtain ⟨rows, hi, k⟩ := r.slots
  have hselect : c.init.select .init ["content", "id"] = .ok rows := by rw [hi]; rfl
  have hq : Content.scalar s c = .ok (left (onSlot s) ops) := by
    simp only [scalar, hselect, bind, Except.bind, k ⟨s, hn⟩]
    cases left (onSlot s) ops <;> rfl
  simp only [Op.run, Op.answer, Table.scalar, Table.read_of_sees hs hq]
  rfl

theorem outcomes_of_blobs (column : String) (rows : List (Key × Bytes)) :
    outcomes column (rows.map fun r => (r.1, .blob r.2)) =
      rows.map (fun r => .ok (some r)) ++ [.ok none] := by
  induction rows
  case nil            => rfl
  case cons r rows ih => exact congrArg (_ :: ·) ih

theorem lists {effect : Handle → Op → Option (Option Bytes)} {s : Selector} {rows : Rows Value}
    (hs : t.conn.Sees c) (hrows : s.candidates c = .ok rows.toList)
    (k : rows.Keeps Handle.key Value.blob effect ops) : Lists t s fun h => left (effect h) ops := by
  have kept (h : Handle) (v : Value) :
      (Handle.key h, v) ∈ rows.toList ↔ ∃ payload, left (effect h) ops = some payload ∧
        .blob payload = v := by
    rw [← Rows.get?_eq_some_iff, k h, Option.map_eq_some_iff]
  -- Every row has a payload that can be read.
  have hblobs : rows.toList ∈ Set.range
      (List.map fun r : Key × Bytes => (r.1, Value.blob r.2)) := by
    rw [Set.range_list_map]
    intro r hr
    obtain ⟨payload, _, hv⟩ := (kept (Key.handle r.1) r.2).mp (by rwa [Key.key_handle])
    exact ⟨(r.1, payload), Prod.ext rfl hv⟩
  obtain ⟨payloads, hp⟩ := hblobs
  obtain ⟨hsees, g⟩ := Op.startCursor_gives hs hrows
  rw [← hp, outcomes_of_blobs] at g
  refine ⟨payloads, ?_, fun h payload => ?_, fun steps hsteps => ?_⟩
  case refine_1 =>
    have ordered := rows.ordered
    rw [← hp] at ordered
    have ascending := List.pairwise_map.mp ordered
    exact ascending
  case refine_2 =>
    have hk := kept h (.blob payload)
    rw [← hp] at hk
    simpa using hk
  case refine_3 => exact (Op.runAll_gives hsees g fun op hop => .inl (hsteps op hop)).left

theorem reads (r : c.Reflects ops) (hs : t.conn.Sees c) : Shows t ops where
  record  := r.record hs
  payload := r.payload hs
  slot    := r.slot hs
  users   := by
    obtain ⟨rows, hu, k⟩ := r.users
    exact lists hs (by simp only [Selector.candidates, hu]; rfl) k
  contacts := by
    obtain ⟨rows, hc, k⟩ := r.contacts
    exact lists hs (by simp only [Selector.candidates, hc]; rfl) k

end Content.Reflects
end AccountCache
