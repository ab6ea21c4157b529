import AccountCache.Proofs.Cipher.Envelope
import AccountCache.Proofs.HandleKeys.Reading

namespace AccountCache

open Text.Base64Url (encode decode)

namespace MasterKey

-- Whatever the key seals of the length of a written handle key, it opens as what it was.
def Recalls (k : MasterKey) : Prop :=
  ∀ n m nonce associated plain, nonce.length = k.nonceLength → plain.length = 22 →
    ∃ sealed, k.wrap n nonce associated plain = .ok sealed ∧
      k.unwrap m associated sealed = .ok plain

theorem xchacha_recalls (key : Bytes) : (xchacha key).Recalls := by
  intro n m nonce associated plain hn hl
  have ha : Cipher.Envelope.admits plain.length := by rw [hl]; rfl
  have hw : Cipher.Envelope.wrap key nonce associated plain = _ := Cipher.Envelope.wrap_of_admits ha
  exact ⟨_, xchacha_wrap_eq_ok_iff.mpr hw,
    xchacha_unwrap_eq_ok_iff.mpr <| Cipher.Envelope.unwrap_of_wrap hn hw⟩

end MasterKey

namespace Birth

variable {b : Birth}

-- Such a key seals both handle keys, and each is held by the slot that it is stored in.
theorem stored_of_recalls (h : b.holder.key.Recalls) (kind : HandleKeyKind) (m : Nat) :
    ∃ sealed, b.sealed kind = .ok sealed ∧
      b.holder.key.unwrap m kind.associated sealed = .ok (encode (b.drawn kind)) := by
  rw [Birth.sealed, Keyholder.sealNew, turn_key]
  refine h _ m _ _ _ (Entropy.draw_length ..) ?_
  rw [Text.Base64Url.length_encode, Entropy.draw_length]
  rfl

theorem Asks.exists_refused {f : Failure} {k : Keyholder} (a : b.Asks (.error f) k) :
    ∃ kind reason, b.sealed kind = .error reason := by
  cases a
  case noNode h   => exact ⟨.node, _, h⟩
  case noParent h => exact ⟨.parent, _, h⟩

end Birth

namespace HandleKeyKind

variable {kind : HandleKeyKind} {key : MasterKey} {call : Nat} {slot : Option Value} {k : Bytes}
  {r : Except Failure Bytes}

-- The slot holds what the key opens to the written form of sixteen bytes.
def Holds (kind : HandleKeyKind) (key : MasterKey) (call : Nat) (slot : Option Value)
    (k : Bytes) : Prop :=
  ∃ sealed, slot = some (.blob sealed) ∧ key.unwrap call kind.associated sealed = .ok (encode k) ∧
    k.length = 16 ∧ (encode k).length = 22

-- What comes of a text: nobody writes it, it is written for another number of bytes, or it is a
-- key.
inductive Spells (kind : HandleKeyKind) : Bytes → Except Failure Bytes → Prop
  | unwritten {text : Bytes} {fault : Text.Base64Url.Fault} : (∀ k, text ≠ encode k) →
    decode text = .error fault →
    Spells kind text (.error <| .handleKey (.handleKey kind) <| .encoding fault)
  | length {k : Bytes} : k.length ≠ 16 →
    Spells kind (encode k) (.error <| .handleKey (.handleKey kind) <| .length k.length)
  | key {k : Bytes} : k.length = 16 → Spells kind (encode k) (.ok k)

-- What comes of a slot: it holds a value of another kind or none, the key refuses it, or it opens
-- to a text.
inductive Yields (kind : HandleKeyKind) (key : MasterKey) (call : Nat) :
    Option Value → Except Failure Bytes → Prop
  | wrongKind {v : Value} : v.kind ≠ .blob →
    Yields kind key call (some v) (.error <| .query <| .wrongKind v.kind 0 "content")
  | missing : Yields kind key call none (.error <| .missingHandleKey <| .handleKey kind)
  | refused {sealed : Bytes} {reason : Report} :
    key.unwrap call kind.associated sealed = .error reason →
    Yields kind key call (some <| .blob sealed) (.error <| .unsealing reason)
  | opened {sealed text : Bytes} {r : Except Failure Bytes} :
    key.unwrap call kind.associated sealed = .ok text → kind.Spells text r →
    Yields kind key call (some <| .blob sealed) r

def openings (kind : HandleKeyKind) : Option Value → List KeyCall
  | some (.blob sealed) => [.unwrap kind.associated sealed.length]
  | _ => []

theorem spells_decoded (kind : HandleKeyKind) (text : Bytes) :
    kind.Spells text ((decodeHandleKey text).mapError (.handleKey (.handleKey kind))) := by
  cases hd : decode text
  case error fault =>
    have hw (k : Bytes) : text ≠ encode k := by
      rintro rfl
      rw [Text.Base64Url.decode_encode] at hd
      contradiction
    simp only [decodeHandleKey, hd]
    exact .unwritten hw hd
  case ok k =>
    obtain rfl := Text.Base64Url.decode_eq_ok_iff.mp hd
    by_cases hl : k.length = handleKeyLength
    case pos =>
      rw [Birth.decodeHandleKey_encode hl]
      exact .key hl
    case neg =>
      simp only [decodeHandleKey, hd, if_neg hl]
      exact .length hl

theorem Spells.eq_decoded {text : Bytes} (sp : kind.Spells text r) :
    r = (decodeHandleKey text).mapError (.handleKey (.handleKey kind)) := by
  cases sp
  case unwritten hd => simp only [decodeHandleKey, hd]; rfl
  case length k hl =>
    have hn : ¬k.length = handleKeyLength := hl
    simp only [decodeHandleKey, Text.Base64Url.decode_encode, if_neg hn]
    rfl
  case key hl => rw [Birth.decodeHandleKey_encode hl]; rfl

theorem Yields.unique {r' : Except Failure Bytes} (y : kind.Yields key call slot r)
    (y' : kind.Yields key call slot r') : r = r' := by
  cases y <;> cases y'
  case refused.refused h _ h' => cases h.symm.trans h'; rfl
  case refused.opened h _ h' _ => cases h.symm.trans h'
  case opened.refused h _ _ h' => cases h.symm.trans h'
  case opened.opened h sp _ h' sp' =>
    cases h.symm.trans h'
    exact sp.eq_decoded.trans sp'.eq_decoded.symm
  all_goals first | rfl | contradiction

theorem Holds.openings (h : kind.Holds key call slot k) :
    ∃ n, kind.openings slot = [.unwrap kind.associated n] := by
  obtain ⟨sealed, rfl, _⟩ := h
  exact ⟨sealed.length, rfl⟩

theorem yields_ok_iff : kind.Yields key call slot (.ok k) ↔ kind.Holds key call slot k := by
  constructor
  case mp =>
    rintro ⟨⟩
    case opened sealed _ h sp =>
      cases sp
      case key hl => exact ⟨sealed, rfl, h, hl, by rw [Text.Base64Url.length_encode, hl]⟩
  case mpr =>
    rintro ⟨sealed, rfl, h, hl, _⟩
    exact .opened h <| .key hl

end HandleKeyKind

namespace Content

variable {c c' : Content} {kind : HandleKeyKind}

theorem scalar_eq_keySlots (hi : c.init.isTable = true) :
    c.scalar (.handleKey kind) = payload? .init (c.keySlots kind) := by
  cases h : c.init <;> rw [h] at hi <;> try contradiction
  case table rows => rw [scalar, keySlots, h]; rfl

theorem isTable_of_putScalar {s : Slot} {bytes : Bytes} (h : putScalar s bytes c = .ok c') :
    c'.init.isTable = true := by
  obtain ⟨r, hr, rfl⟩ := map_eq_ok h
  exact Relation.change_isTable hr

end Content

namespace Connection

-- A transaction that has not looked at the store cannot write where another one has it to itself.
theorem pending_of_write {c : Connection} {u : Content → Except QueryFault Content}
    (hp : c.phase = .begun) (h : (c.write u).1 = .ok ()) : c.peers.pending = false := by
  unfold write at h
  rw [hp] at h
  dsimp only at h
  cases hs : c.body.store? <;> rw [hs] at h
  case error => contradiction
  case ok s =>
    cases hu : u s.content <;> simp only [hu] at h
    case error => contradiction
    case ok draft =>
      split at h
      case isTrue => contradiction
      case isFalse hn => simpa using (not_or.mp hn).right

end Connection

namespace Table

open HandleKeyKind (spells_decoded yields_ok_iff)

variable {t : Table} {c : Content} {kind : HandleKeyKind}

theorem scalar_of_sees (hs : t.conn.Sees c) (s : Slot) : scalar s t =
    ((c.scalar s).mapError .query, { t with conn := (t.conn.read (Content.scalar s)).2 }) := by
  have hr := (hs.read (Content.scalar s)).left
  exact Prod.ext (congrArg (Except.mapError Failure.query) hr) rfl

theorem readHandleKey_yields (kind : HandleKeyKind) (hs : t.conn.Sees c)
    (hi : c.init.isTable = true) :
    kind.Yields t.key.key (t.key.unwraps + 1) (c.keySlots kind) (readHandleKey kind t).1 ∧
      (readHandleKey kind t).2.key.calls = t.key.calls ++ kind.openings (c.keySlots kind) := by
  rw [readHandleKey, scalar_of_sees hs, Content.scalar_eq_keySlots hi]
  cases c.keySlots kind
  case none => exact ⟨.missing, (List.append_nil _).symm⟩
  case some v =>
    cases v
    case blob sealed =>
      have hp : (Content.payload? .init (some <| .blob sealed)).mapError Failure.query =
        .ok (some sealed) := rfl
      rw [hp]
      cases hu : t.key.key.unwrap (t.key.unwraps + 1) kind.associated sealed <;>
        simp only [Keyholder.unwrap, hu]
      case error => exact ⟨.refused hu, rfl⟩
      case ok text => exact ⟨.opened hu <| spells_decoded kind text, rfl⟩
    all_goals exact ⟨.wrongKind (by rintro ⟨⟩), (List.append_nil _).symm⟩

-- The parent key is looked for once there is a node key, and at the next call.
theorem readHandleKeys_yields (hs : t.conn.Sees c) (hi : c.init.isTable = true) :
    (∃ f, HandleKeyKind.node.Yields t.key.key (t.key.unwraps + 1) (c.keySlots .node) (.error f) ∧
      (readHandleKeys t).1 = .error f ∧
      (readHandleKeys t).2.key.calls = t.key.calls ++ HandleKeyKind.node.openings
        (c.keySlots .node)) ∨
    ∃ node r, HandleKeyKind.node.Yields t.key.key (t.key.unwraps + 1) (c.keySlots .node)
      (.ok node) ∧
      HandleKeyKind.parent.Yields t.key.key (t.key.unwraps + 2) (c.keySlots .parent) r ∧
      (readHandleKeys t).1 = r.map (⟨node, ·⟩) := by
  obtain ⟨yn, hcn⟩ := readHandleKey_yields .node hs hi
  have hconn : (readHandleKey .node t).2.conn.Sees c := readHandleKey_conn .node ▸ (hs.read _).right
  have hkey := (readHandleKey_follows (t := t) .node).key
  unfold readHandleKeys
  cases hn : readHandleKey .node t
  case mk r t' =>
    rw [hn] at yn hcn hconn hkey
    dsimp only at yn hcn hconn hkey
    cases r
    case error f => exact .inl ⟨f, yn, rfl, hcn⟩
    case ok node =>
      obtain ⟨yp, _⟩ := readHandleKey_yields .parent hconn hi
      have hcount : t'.key.unwraps = t.key.unwraps + 1 := by
        obtain ⟨sealed, ho⟩ := (yields_ok_iff.mp yn).openings
        simp only [Keyholder.unwraps, hcn, ho, List.countP_append]
        rfl
      rw [hkey, hcount] at yp
      refine .inr ⟨node, (readHandleKey .parent t').1, yn, yp, ?_⟩
      cases hp : readHandleKey .parent t'
      case mk r t'' =>
        simp only [hp]
        cases r <;> rfl

theorem write_of_provisionKey {e : Entropy} {sealed : Bytes}
    (hs : t.key.sealNew kind e = .ok sealed) (h : (provisionKey kind e t).1 = .ok ()) :
    (t.conn.write (Content.putScalar (.handleKey kind) sealed)).1 = .ok () := by
  rw [provisionKey_eq, hs] at h
  dsimp only at h
  cases hw : (t.conn.write (Content.putScalar (.handleKey kind) sealed)).1
  case error => rw [hw] at h; contradiction
  case ok    => rfl

theorem provision_ok {e : Entropy} (h : (provision e t).1 = .ok ()) :
    let b : Birth := ⟨t.key, e⟩
    (provision e t).2.1.key = t.key.asked [.node, .parent] ∧
      ∃ c, (provision e t).2.1.conn.Sees c ∧ c.init.isTable = true ∧
        ∀ kind, ∃ sealed, b.sealed kind = .ok sealed ∧ c.keySlots kind = some (.blob sealed) := by
  intro b
  unfold provision HandleKeyKind.all at h ⊢
  obtain ⟨f, h₁, _⟩ | ⟨node, before, c₁, p₁, hn, hb, hu₁, h₁⟩ := provisionKey_cases
    (t := { t with conn := { t.conn with phase := .begun } }) .node e rfl
  case inl => simp only [provisionKeys, h₁] at h; contradiction
  have hpending : t.conn.peers.pending = false :=
    Connection.pending_of_write (c := { t.conn with phase := .begun }) rfl <|
      write_of_provisionKey hn (congrArg Prod.fst h₁)
  obtain ⟨f, h₂, _⟩ | ⟨parent, _, c₂, p₂, hp, hc₁, hu₂, h₂⟩ := provisionKey_cases
    (t := { t with
      key  := t.key.counted .node e
      conn := { t.conn with phase := .writing c₁ p₁ } }) .parent
    (e.afterKey t.key.key.nonceLength) rfl
  case inr.inl => simp only [provisionKeys, h₁, h₂] at h; contradiction
  cases hc₁
  obtain ⟨s, hs⟩ : ∃ s, t.conn.body.store? = .ok s := by
    cases hs : t.conn.body.store? <;> simp only [Connection.content?, hs] at hb
    case error => contradiction
    case ok s  => exact ⟨s, rfl⟩
  obtain hc | hc := commit_of_writing (s := s) (c := { t.conn with phase := .writing c₂ p₂ }) rfl hs
  case inl => simp only [provisionKeys, h₁, h₂, hc] at h; contradiction
  have hkey : (t.key.counted .node e).counted .parent (e.afterKey t.key.key.nonceLength) =
      t.key.asked [.node, .parent] := by
    rw [Keyholder.counted_eq_asked, Keyholder.counted_eq_asked, Birth.asked_node_parent]
  rw [Keyholder.counted_eq_asked] at hp
  simp only [provisionKeys, h₁, h₂, hc]
  refine ⟨hkey, c₂, ⟨rfl, .inr hpending⟩,
    Content.isTable_of_putScalar hu₂, fun kind => ?_⟩
  rw [Content.keySlots_putScalar hu₂, Content.keySlots_putScalar hu₁]
  cases kind
  case node   => exact ⟨node, hn, rfl⟩
  case parent => exact ⟨parent, hp, rfl⟩

theorem readHandleKeys_of_provision {e : Entropy} (hr : t.key.key.Recalls)
    (h : (provision e t).1 = .ok ()) :
    (readHandleKeys (provision e t).2.1).1 = .ok (Birth.keys ⟨t.key, e⟩) := by
  obtain ⟨hkey, c, hs, hit, hslots⟩ := provision_ok h
  have hk : (provision e t).2.1.key.key = t.key.key := by rw [hkey]; rfl
  have holds (kind : HandleKeyKind) (call : Nat) :
      kind.Holds t.key.key call (c.keySlots kind) (Birth.drawn ⟨t.key, e⟩ kind) := by
    obtain ⟨sealed, hsealed, hslot⟩ := hslots kind
    obtain ⟨sealed', hsealed', hopen⟩ := Birth.stored_of_recalls (b := ⟨t.key, e⟩) hr kind call
    cases hsealed.symm.trans hsealed'
    have hl : (Birth.drawn ⟨t.key, e⟩ kind).length = 16 := Entropy.draw_length ..
    exact ⟨sealed, hslot, hopen, hl, by rw [Text.Base64Url.length_encode, hl]⟩
  obtain ⟨f, yn, _⟩ | ⟨node, r, yn, yp, hread⟩ := readHandleKeys_yields hs hit
  all_goals rw [hk] at yn
  case inl => cases yn.unique <| yields_ok_iff.mpr <| holds ..
  case inr =>
    rw [hk] at yp
    cases yn.unique <| yields_ok_iff.mpr <| holds ..
    cases yp.unique <| yields_ok_iff.mpr <| holds ..
    exact hread

theorem provision_ok_of_lone {e : Entropy} (hr : t.key.key.Recalls) (hl : t.conn.Lone)
    (hi : t.conn.phase = .idle) : (provision e t).1 = .ok () := by
  obtain ⟨a, _⟩ := provision_of_lone e hl hi
  cases ha : (provision e t).1 <;> rw [ha] at a
  case error =>
    obtain ⟨kind, _, h⟩ := a.exists_refused
    obtain ⟨_, hsealed, _⟩ := Birth.stored_of_recalls (b := ⟨t.key, e⟩) hr kind 0
    cases hsealed.symm.trans h

variable {f : Failure} {a b : Bytes}

theorem readHandleKeys_eq_ok_iff (hs : t.conn.Sees c) (hi : c.init.isTable = true) :
    (readHandleKeys t).1 = .ok ⟨a, b⟩ ↔
      HandleKeyKind.node.Holds t.key.key (t.key.unwraps + 1) (c.keySlots .node) a ∧
        HandleKeyKind.parent.Holds t.key.key (t.key.unwraps + 2) (c.keySlots .parent) b := by
  rw [← yields_ok_iff, ← yields_ok_iff]
  obtain ⟨f, yn, hread, _⟩ | ⟨node, r, yn, yp, hread⟩ := readHandleKeys_yields hs hi <;> rw [hread]
  case inl => exact ⟨(nomatch ·), fun h => nomatch yn.unique h.left⟩
  case inr =>
    constructor
    case mp =>
      cases r <;> rintro ⟨⟩
      case ok => exact ⟨yn, yp⟩
    case mpr =>
      rintro ⟨ha, hb⟩
      cases yn.unique ha
      cases yp.unique hb
      rfl

theorem readHandleKeys_eq_error_iff (hs : t.conn.Sees c) (hi : c.init.isTable = true) :
    (readHandleKeys t).1 = .error f ↔
      HandleKeyKind.node.Yields t.key.key (t.key.unwraps + 1) (c.keySlots .node) (.error f) ∨
        (∃ a, HandleKeyKind.node.Yields t.key.key (t.key.unwraps + 1) (c.keySlots .node) (.ok a)) ∧
          HandleKeyKind.parent.Yields t.key.key (t.key.unwraps + 2) (c.keySlots .parent)
            (.error f) := by
  obtain ⟨g, yn, hread, _⟩ | ⟨node, r, yn, yp, hread⟩ := readHandleKeys_yields hs hi <;> rw [hread]
  case inl =>
    constructor
    case mp => rintro ⟨⟩; exact .inl yn
    case mpr =>
      rintro (h | ⟨⟨a, h⟩, _⟩) <;> cases yn.unique h
      rfl
  case inr =>
    constructor
    case mp =>
      cases r <;> rintro ⟨⟩
      case error => exact .inr ⟨⟨node, yn⟩, yp⟩
    case mpr =>
      rintro (h | ⟨_, h⟩)
      case inl => cases yn.unique h
      case inr => cases yp.unique h; rfl

theorem readHandleKeys_calls (hs : t.conn.Sees c) (hi : c.init.isTable = true)
    (y : HandleKeyKind.node.Yields t.key.key (t.key.unwraps + 1) (c.keySlots .node) (.error f)) :
    (readHandleKeys t).2.key.calls =
      t.key.calls ++ HandleKeyKind.node.openings (c.keySlots .node) := by
  obtain ⟨_, _, _, hcalls⟩ | ⟨_, _, yn, _⟩ := readHandleKeys_yields hs hi
  case inl => exact hcalls
  case inr => cases yn.unique y

-- What is read for every content of the two slots, and what is read once they were provisioned.
theorem readHandleKeys_exact :
    (∀ (t : Table) (c : Content), t.conn.Sees c → c.init.isTable = true →
      let node := HandleKeyKind.node.Yields t.key.key (t.key.unwraps + 1) (c.keySlots .node)
      let parent := HandleKeyKind.parent.Yields t.key.key (t.key.unwraps + 2) (c.keySlots .parent)
      (∀ a b, (readHandleKeys t).1 = .ok ⟨a, b⟩ ↔
        HandleKeyKind.node.Holds t.key.key (t.key.unwraps + 1) (c.keySlots .node) a ∧
          HandleKeyKind.parent.Holds t.key.key (t.key.unwraps + 2) (c.keySlots .parent) b) ∧
      (∀ f, (readHandleKeys t).1 = .error f ↔
        node (.error f) ∨ (∃ a, node (.ok a)) ∧ parent (.error f)) ∧
      (∀ f, node (.error f) → (readHandleKeys t).2.key.calls =
        t.key.calls ++ HandleKeyKind.node.openings (c.keySlots .node))) ∧
    (∀ (t : Table) (e : Entropy), t.key.key.Recalls →
      (t.conn.Lone → t.conn.phase = .idle → (provision e t).1 = .ok ()) ∧
      ((provision e t).1 = .ok () →
        (readHandleKeys (provision e t).2.1).1 = .ok (Birth.keys ⟨t.key, e⟩))) := by
  refine ⟨fun t c hs hi => ?reading, fun t e hr => ?provisioned⟩
  case reading =>
    exact ⟨fun a b => readHandleKeys_eq_ok_iff hs hi, fun f => readHandleKeys_eq_error_iff hs hi,
      fun f => readHandleKeys_calls hs hi⟩
  case provisioned => exact ⟨provision_ok_of_lone hr, readHandleKeys_of_provision hr⟩

-- An empty store of its own, before and after it is provisioned under a key of zeros.
theorem readHandleKeys_exact_zeros :
    let conn : Connection := ⟨.store ⟨.empty, 0, false⟩, .idle, .ofPhases [], none⟩
    let t : Table := ⟨"a.db", conn, .idle, ⟨.xchacha (List.replicate 32 0), []⟩, []⟩
    let zeros : Entropy := ⟨fun _ => 0, 0⟩
    t.conn.Sees .empty ∧ Content.empty.init.isTable = true ∧
      (readHandleKeys t).1 = .error (.missingHandleKey (.handleKey .node)) ∧
      (provision zeros t).1 = .ok () ∧
      (readHandleKeys (provision zeros t).2.1).1 =
        .ok ⟨List.replicate 16 0, List.replicate 16 0⟩ := by
  intro conn t zeros
  have hs : t.conn.Sees .empty := ⟨rfl, .inr rfl⟩
  have hl : t.conn.Lone := Connection.lone_of_idle rfl rfl ⟨rfl, rfl, rfl, rfl⟩ rfl rfl
  obtain ⟨reading, provisioned⟩ := readHandleKeys_exact
  obtain ⟨hok, hkeys⟩ := provisioned t zeros (MasterKey.xchacha_recalls _)
  exact ⟨hs, rfl, (reading t .empty hs rfl).2.1 _ |>.mpr <| .inl .missing, hok hl rfl,
    hkeys <| hok hl rfl⟩

end Table
end AccountCache
