import AccountCache.Proofs.HandleKeys.Sealing

namespace AccountCache

namespace MasterKey

-- What the one key has sealed, the other opens as what it was or refuses to open.
def Agrees (k k' : MasterKey) : Prop :=
  ∀ call nonce associated plain sealed call' text, k.wrap call nonce associated plain = .ok sealed →
    k'.unwrap call' associated sealed = .ok text → text = plain

end MasterKey

namespace Birth

variable {b : Birth} {key : MasterKey} {kind : HandleKeyKind} {k : Bytes}

def keys (b : Birth) : HandleKeys := ⟨b.drawn .node, b.drawn .parent⟩

inductive Opens (b : Birth) (key : MasterKey) (kind : HandleKeyKind) (k : Bytes) : Prop
  | mk {call : Nat} {sealed text : Bytes} : b.sealed kind = .ok sealed →
    key.unwrap call kind.associated sealed = .ok text → decodeHandleKey text = .ok k →
    Opens b key kind k

theorem eq_blob_of_stored {v : Value} (h : b.stored kind = some v) :
    ∃ sealed, b.sealed kind = .ok sealed ∧ v = .blob sealed := by
  unfold stored at h
  cases hs : b.sealed kind <;> rw [hs] at h <;> cases h
  exact ⟨_, rfl, rfl⟩

theorem turn_key (b : Birth) (kind : HandleKeyKind) : (b.turn kind).1.key = b.holder.key := by
  cases kind <;> rfl

theorem decodeHandleKey_encode {k : Bytes} (h : k.length = handleKeyLength) :
    decodeHandleKey (Text.Base64Url.encode k) = .ok k := by
  simp only [decodeHandleKey, Text.Base64Url.decode_encode, h, if_true]

-- Where the keys at the creation and at the reading agree, these are the keys that were drawn.
theorem Opens.eq_drawn (o : b.Opens key kind k) (ha : b.holder.key.Agrees key) :
    k = b.drawn kind := by
  obtain ⟨hs, hu, hd⟩ := o
  rw [sealed, Keyholder.sealNew, turn_key] at hs
  rw [ha _ _ _ _ _ _ _ hs hu, decodeHandleKey_encode (Entropy.draw_length ..)] at hd
  cases hd
  rfl

end Birth

theorem Wipe.stored_of_leaves {gone : Bool} {stored : HandleKeyKind → Option Value}
    {kind : HandleKeyKind} {v : Value} (h : leaves gone stored kind = some v) :
    stored kind = some v := by
  cases gone
  case false => exact h
  case true  => cases h

theorem Content.scalar_handleKey {c : Content} {kind : HandleKeyKind} {bytes : Bytes}
    (h : c.scalar (.handleKey kind) = .ok (some bytes)) :
    ∃ v, c.keySlots kind = some v ∧ v.readBlob 0 TableName.init.payloadColumn = .ok bytes := by
  unfold scalar at h
  cases hi : c.init <;> rw [hi] at h
  case table rows =>
    simp only [Relation.select, bind, Except.bind] at h
    cases hv : rows.get? (Slot.handleKey kind).key <;> rw [hv] at h
    case none   => cases h
    case some v =>
      have ⟨_, hb, he⟩ := map_eq_ok h
      cases he
      exact ⟨v, by rw [keySlots, hi]; exact hv, hb⟩
  all_goals cases h

namespace Table

variable {t : Table} {b : Birth} {w : Wipe} {kind : HandleKeyKind} {k : Bytes} {keys : HandleKeys}

theorem readHandleKey_of_tracks (ht : t.conn.Tracks b.stored w)
    (h : (readHandleKey kind t).1 = .ok k) :
    b.Opens t.key.key kind k := by
  unfold readHandleKey scalar read at h
  cases hr : t.conn.read (Content.scalar (.handleKey kind))
  case mk r conn =>
    cases r
    case error =>
      rw [onConnection_of_error hr] at h
      cases h
    case ok found =>
      rw [onConnection_of_ok hr] at h
      cases found
      case none => cases h
      case some sealed =>
        obtain ⟨content, hc, hq⟩ := Connection.eq_ok_of_read (congrArg Prod.fst hr)
        obtain ⟨v, hv, hread⟩ := Content.scalar_handleKey hq
        rw [ht.seen content hc] at hv
        obtain ⟨_, hs, hblob⟩ := Birth.eq_blob_of_stored (Wipe.stored_of_leaves hv)
        subst hblob
        cases hread
        simp only [Keyholder.unwrap] at h
        cases hu : t.key.key.unwrap (t.key.unwraps + 1) kind.associated sealed
          <;> simp only [hu] at h
        case error => cases h
        case ok text =>
          cases hd : decodeHandleKey text <;> rw [hd] at h <;> cases h
          exact ⟨hs, hu, hd⟩

theorem readHandleKeys_of_tracks (ht : t.conn.Tracks b.stored w)
    (h : (readHandleKeys t).1 = .ok keys) :
    b.Opens t.key.key .node keys.node ∧ b.Opens t.key.key .parent keys.parent := by
  have f := (readHandleKey_follows (t := t) .node).statements
  unfold readHandleKeys at h
  cases hn : readHandleKey .node t
  case mk r t' =>
    rw [hn] at f
    cases r <;> simp only [hn] at h
    case error => cases h
    case ok node =>
      cases hp : readHandleKey .parent t'
      case mk r t'' =>
        cases r <;> simp only [hp] at h <;> cases h
        have ht' := Connection.statements_tracks f.conn ht
        have op := readHandleKey_of_tracks ht' (congrArg Prod.fst hp)
        rw [f.key] at op
        exact ⟨readHandleKey_of_tracks ht (congrArg Prod.fst hn), op⟩

end Table
end AccountCache
