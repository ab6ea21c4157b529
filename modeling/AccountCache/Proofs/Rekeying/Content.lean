import AccountCache.Proofs.HandleKeys.Sealing
import AccountCache.Proofs.Lockstep
import Mathlib.Logic.Equiv.Basic

namespace AccountCache

-- Which bytes stand for which in the slot of a handle key.
abbrev Rekeying := HandleKeyKind → Equiv.Perm Bytes

namespace Value

variable {σ : Equiv.Perm Bytes} {v w : Value}

def rekey (σ : Equiv.Perm Bytes) : Value → Value
  | blob bytes => blob (σ bytes)
  | v => v

theorem rekey_isNull : (v.rekey σ).isNull = v.isNull := by
  cases v <;> rfl

theorem rekey_injective (h : v.rekey σ = w.rekey σ) : v = w := by
  cases v <;> cases w <;> simp_all [rekey]

end Value

namespace Rekeying

variable {π : Rekeying} {k : Key} {v w : Value}

-- What stands for a value in a row of the `init` table.
def value (π : Rekeying) (k : Key) (v : Value) : Value :=
  if k = (Slot.handleKey .node).key then v.rekey (π .node)
  else if k = (Slot.handleKey .parent).key then v.rekey (π .parent)
  else v

theorem value_handleKey (kind : HandleKeyKind) :
    π.value (Slot.handleKey kind).key v = v.rekey (π kind) := by
  cases kind <;> rfl

theorem value_of_not_isReserved {s : Slot} (h : s.isReserved = false) : π.value s.key v = v := by
  have hne kind : s.key ≠ (Slot.handleKey kind).key := by
    intro hk
    simp [Slot.key_injective hk, Slot.isReserved] at h
  rw [value, if_neg (hne .node), if_neg (hne .parent)]

theorem value_isNull : (π.value k v).isNull = v.isNull := by
  unfold value
  split
  · exact Value.rekey_isNull
  · split
    · exact Value.rekey_isNull
    · rfl

theorem value_injective (h : π.value k v = π.value k w) : v = w := by
  unfold value at h
  split at h
  · exact Value.rekey_injective h
  · split at h
    · exact Value.rekey_injective h
    · exact h

end Rekeying

namespace Rows

variable {α : Type} {rows rows' : Rows α} {f : Key → α → α}

def map (f : Key → α → α) (rows : Rows α) : Rows α where
  toList  := rows.toList.map fun r => (r.1, f r.1 r.2)
  ordered := by
    rw [List.pairwise_map]
    exact rows.ordered

theorem get?_map (k : Key) : (rows.map f).get? k = (rows.get? k).map (f k) := by
  simp only [get?, map, List.find?_map, Option.map_map]
  apply Option.map_congr
  intro r hr
  have hk : r.1 = k := by simpa using List.find?_some hr
  simp only [Function.comp_apply, hk]

theorem put_map (k : Key) (a : α) : (rows.map f).put k (f k a) = (rows.put k a).map f := by
  apply ext_get?
  intro j
  rw [get?_put, get?_map, get?_map, get?_put]
  split
  case isTrue h => rw [h]; rfl
  case isFalse  => rfl

theorem map_injective (hf : ∀ k a b, f k a = f k b → a = b) (h : rows.map f = rows'.map f) :
    rows = rows' := by
  apply ext_get?
  intro k
  have hk := congrArg (·.get? k) h
  simp only [get?_map] at hk
  exact Option.map_injective (fun a b => hf k a b) hk

theorem all_map {p : Key → α → Bool} (hp : ∀ k a, p k (f k a) = p k a) :
    (rows.map f).all p = rows.all p := by
  simp only [all, map, List.all_map, Function.comp_def, hp]

end Rows

namespace Relation

variable {π : Rekeying} {r r' : Relation Value}

def rekey (π : Rekeying) : Relation Value → Relation Value
  | table rows => table (rows.map π.value)
  | r => r

theorem rekey_isTable : (r.rekey π).isTable = r.isTable := by
  cases r <;> rfl

theorem rekey_isListed : (r.rekey π).isListed = r.isListed := by
  cases r <;> rfl

theorem rekey_injective (h : r.rekey π = r'.rekey π) : r = r' := by
  cases r <;> cases r' <;> simp only [rekey, reduceCtorEq, table.injEq] at h ⊢
  exact Rows.map_injective (f := π.value) (fun _ _ _ => Rekeying.value_injective) h

-- A change of rows that can be made before or after the exchange.
theorem rekey_change {name : TableName} {f g : Rows Value → Rows Value}
    (h : ∀ rows, g (rows.map π.value) = (f rows).map π.value) :
    (r.rekey π).change name g = (r.change name f).map (·.rekey π) := by
  cases r
  case table rows =>
    simp only [rekey, change, h]
    rfl
  all_goals rfl

theorem rekey_create {name : TableName} :
    (r.rekey π).create name = (r.create name).map (·.rekey π) := by
  cases r <;> rfl

end Relation

namespace Content

variable {π : Rekeying} {c c' : Content} {u : Content → Except QueryFault Content}

def rekey (π : Rekeying) (c : Content) : Content := { c with init := c.init.rekey π }

theorem rekey_injective (h : c.rekey π = c'.rekey π) : c = c' := by
  cases c
  cases c'
  simp only [rekey, mk.injEq] at h ⊢
  exact ⟨Relation.rekey_injective h.left, h.right⟩

theorem rekey_inj : c.rekey π = c'.rekey π ↔ c = c' := ⟨rekey_injective, congrArg _⟩

theorem rekey_has (name : TableName) : (c.rekey π).has name = c.has name := by
  cases name
  case init => exact Relation.rekey_isListed
  all_goals rfl

theorem rekey_of_no_keys (h : ∀ kind, c.keySlots kind = none) : c.rekey π = c := by
  obtain ⟨init, _, _, _⟩ := c
  cases init
  case table rows =>
    have hk {k : Key} (kind : HandleKeyKind) (he : k = (Slot.handleKey kind).key) :
        rows.get? k = none :=
      he ▸ h kind
    have hrows : rows.map π.value = rows := by
      apply Rows.ext_get?
      intro k
      rw [Rows.get?_map]
      unfold Rekeying.value
      split
      case isTrue he => rw [hk _ he]; rfl
      case isFalse =>
        split
        case isTrue he => rw [hk _ he]; rfl
        case isFalse   => exact Option.map_id' ..
    simp only [rekey, Relation.rekey, hrows]
  all_goals rfl

theorem keySlots_rekey (kind : HandleKeyKind) :
    (c.rekey π).keySlots kind = (c.keySlots kind).map (·.rekey (π kind)) := by
  cases hi : c.init
  case table rows =>
    simp only [keySlots, rekey, hi, Relation.rekey, Rows.get?_map]
    congr 1
    funext v
    exact Rekeying.value_handleKey kind
  all_goals simp only [keySlots, rekey, hi, Relation.rekey, Option.map_none]

theorem scalar_rekey {s : Slot} (h : s.isReserved = false) : scalar s (c.rekey π) = scalar s c := by
  cases hi : c.init
  case table rows =>
    have hid : π.value s.key = id := funext fun _ => Rekeying.value_of_not_isReserved h
    simp only [scalar, rekey, hi, Relation.rekey, Relation.select, bind, Except.bind,
      Rows.get?_map, hid, Option.map_id]
    rfl
  all_goals simp only [scalar, rekey, hi, Relation.rekey]

theorem Query.rekey {α : Type} {q : Content → Except QueryFault α} (hq : Query q) :
    q (c.rekey π) = q c := by
  cases hq
  case scalar h => exact scalar_rekey h
  case step s last => cases s <;> rfl
  case isIntact =>
    have hi : (c.init.rekey π).all (fun _ v => !v.isNull) = c.init.all fun _ v => !v.isNull := by
      cases c.init
      case table rows =>
        exact Rows.all_map (p := fun _ (v : Value) => !v.isNull) fun _ _ =>
          congrArg not Rekeying.value_isNull
      all_goals rfl
    simp only [Content.isIntact, Content.rekey, hi]
  all_goals rfl

theorem map_rekey {α : Type} {r : Except QueryFault α} {f g : α → Content}
    (h : ∀ a, g a = (f a).rekey π) :
    r.map g = (r.map f).map (·.rekey π) := by
  cases r
  case error => rfl
  case ok a  => exact congrArg Except.ok (h a)

theorem change_init_rekey {f g : Rows Value → Rows Value}
    (h : ∀ rows, g (rows.map π.value) = (f rows).map π.value) :
    (((c.rekey π).init.change .init g).map fun r => { c.rekey π with init := r }) =
      ((c.init.change .init f).map fun r => { c with init := r }).map (·.rekey π) := by
  rw [show (c.rekey π).init = c.init.rekey π from rfl, Relation.rekey_change h]
  cases c.init.change .init f <;> rfl

theorem putScalar_rekey {s : Slot} {bytes bytes' : Bytes}
    (h : π.value s.key (.blob bytes) = .blob bytes') :
    putScalar s bytes' (c.rekey π) = (putScalar s bytes c).map (·.rekey π) :=
  change_init_rekey fun rows => by rw [← h, Rows.put_map]

theorem Update.rekey (hu : Update u) : u (c.rekey π) = (u c).map (·.rekey π) := by
  cases hu
  case putScalar h => exact putScalar_rekey (Rekeying.value_of_not_isReserved h)
  all_goals exact map_rekey fun _ => rfl

theorem clear_rekey (name : TableName) :
    clear name (c.rekey π) = (clear name c).map (·.rekey π) := by
  cases name
  case init => exact change_init_rekey fun _ => rfl
  all_goals exact map_rekey fun _ => rfl

theorem create_rekey (name : TableName) :
    create name (c.rekey π) = (create name c).map (·.rekey π) := by
  cases name
  case init =>
    simp only [create, rekey, Relation.rekey_create]
    cases c.init.create .init <;> rfl
  all_goals exact map_rekey fun _ => rfl

end Content

end AccountCache
