import AccountCache.Proofs.HandleKeys.Keeping
import AccountCache.Proofs.Rekeying.Host

namespace AccountCache

variable {ρ : Nat → Rekeying}

-- To exchange nothing changes nothing.

theorem Value.rekey_refl (v : Value) : v.rekey (Equiv.refl _) = v := by
  cases v <;> rfl

def Rekeying.none : Rekeying := fun _ => Equiv.refl _

theorem Content.rekey_none (c : Content) : c.rekey .none = c := by
  obtain ⟨init, _, _, _⟩ := c
  cases init
  case table rows =>
    have hrows : rows.map Rekeying.none.value = rows := by
      apply Rows.ext_get?
      intro k
      have hid : Rekeying.none.value k = id := by
        funext v
        unfold Rekeying.value
        split
        · exact v.rekey_refl
        · split
          · exact v.rekey_refl
          · rfl
      rw [Rows.get?_map, hid, Option.map_id]
      rfl
    simp only [rekey, Relation.rekey, hrows]
  all_goals rfl

theorem Body.rekey_none (b : Body) : b.rekey .none = b := by
  cases b
  case foreign => rfl
  case store s => simp only [rekey, Store.rekey, Content.rekey_none]

theorem Phase.rekey_none (p : Phase) : p.rekey .none = p := by
  cases p <;> simp only [rekey, Content.rekey_none]

theorem Host.Founded.rekeyed_none {h h' : Host} (f : h.Founded) (hd : h'.disk = h.disk)
    (hs : h'.seats = h.seats) :
    Host.Rekeyed (fun _ => .none) h h' where
  disk := by
    rw [hd]
    exact ⟨rfl, fun i => by cases h.disk.bodies[i]? <;> simp only [Option.map, Body.rekey_none]⟩
  seats   := hs ▸ List.forall₂_same.mpr fun _ _ => ⟨rfl, by rw [Seat.Rekeyed, Phase.rekey_none]⟩
  founded := f

namespace Request

variable {h h' : Host} {n : Naming} {q q' : Request} {rs rs' : List Request}

def keyless : Request → Request
  | «open» label options name _ => «open» label options name ""
  | q => q

-- What must not depend on master keys and random bytes in an answer.
def view : Request → Option (Except Failure Reply) → Option (Except Failure Reply)
  | table _ op, a => a.map op.view
  | _, a => a

def isRefused : Option (Except Failure Reply) → Bool
  | some (.error (.sealing _)) => true
  | _ => false

theorem granted_of_done {r : Except Failure Unit} (hg : isRefused (done r) = false) :
    Granted r := by
  rintro reason rfl
  cases hg

theorem run_table_view (label : String) (op : Op) (r : h.Rekeyed ρ h') :
    (table label op).view ((table label op).run n h).1 =
    (table label op).view ((table label op).run n h').1 ∧
      Host.Rekeyed ρ ((table label op).run n h).2 ((table label op).run n h').2 := by
  unfold run Host.onTable
  obtain ⟨hs, hs'⟩ | ⟨s, s', hs, hs', seat⟩ := r.seats.lookup label
  case inl =>
    simp only [Host.seat?, hs, hs']
    exact ⟨trivial, r⟩
  case inr =>
    obtain ⟨hview, left⟩ := Op.run_view op ⟨r.assemble label seat, r.founded.throughout hs⟩
    simp only [Host.seat?, hs, hs']
    exact ⟨congrArg some hview, r.restore label (r.founded.lt_of_seat? hs) seat left.beside
      left.founded⟩

theorem run_view (hk : q.keyless = q'.keyless) (r : h.Rekeyed ρ h')
    (hg : isRefused (q.run n h).1 = false) (hg' : isRefused (q'.run n h').1 = false) :
    q.view (q.run n h).1 = q.view (q'.run n h').1 ∧
    ∃ ρ', Host.Rekeyed ρ' (q.run n h).2 (q'.run n h').2 := by
  cases q <;> cases q' <;> cases hk
  case open.open.refl label o name key key' =>
    obtain ⟨ρ', c⟩ := r.open label n o name key key' (granted_of_done hg) (granted_of_done hg')
    exact ⟨congrArg done c.result, ρ', c.states⟩
  case close.close.refl label =>
    obtain ⟨hresult, r₁⟩ := r.close label
    exact ⟨congrArg (Option.map fun _ => Except.ok Reply.done) hresult.symm, ρ, r₁⟩
  case remove.remove.refl label =>
    obtain ⟨hresult, r₁⟩ := r.remove label
    exact ⟨congrArg (Option.bind · done) hresult, ρ, r₁⟩
  case discard.discard.refl name =>
    have c := r.discard n name
    exact ⟨congrArg done c.result, ρ, c.states⟩
  case table.table.refl label op =>
    obtain ⟨hview, r₁⟩ := run_table_view (n := n) label op r
    exact ⟨hview, ρ, r₁⟩

theorem runAll_view (hk : rs.map keyless = rs'.map keyless) (r : h.Rekeyed ρ h')
    (hg : ∀ a ∈ (runAll n rs h).1, isRefused a = false)
    (hg' : ∀ a ∈ (runAll n rs' h').1, isRefused a = false) :
    List.zipWith view rs (runAll n rs h).1 = List.zipWith view rs (runAll n rs' h').1 := by
  -- A store that is made on the way brings its own exchange, so none is fixed for the run.
  induction rs generalizing rs' h h' ρ
  case nil =>
    cases rs'
    case nil  => rfl
    case cons => cases hk
  case cons q rs ih =>
    cases rs'
    case nil => cases hk
    case cons q' rs' =>
      obtain ⟨hq, hk⟩ := List.cons.inj hk
      obtain ⟨hgq, hgs⟩ := List.forall_mem_cons.mp hg
      obtain ⟨hgq', hgs'⟩ := List.forall_mem_cons.mp hg'
      obtain ⟨head, ρ', r₁⟩ := run_view hq r hgq hgq'
      exact congrArg₂ List.cons head (ih hk r₁ hgs hgs')

-- Two runs of the same requests from the same files and tables, with any master keys and random
-- bytes: as long as none of the keys refuses to seal, every answer is the same, but for which bytes
-- are in the slots of the handle keys and, where they are read and none is missing, what comes of
-- it. What a master key itself says of a sealed key is not looked at, even if it should say that
-- the handle key is missing.
theorem answers_independent_of_keys (n : Naming) (hk : rs.map keyless = rs'.map keyless)
    (hf : h.Founded) (hd : h'.disk = h.disk) (hs : h'.seats = h.seats)
    (hg : ∀ a ∈ (runAll n rs h).1, isRefused a = false)
    (hg' : ∀ a ∈ (runAll n rs' h').1, isRefused a = false) :
    List.zipWith view rs (runAll n rs h).1 = List.zipWith view rs (runAll n rs' h').1 :=
  runAll_view hk (hf.rekeyed_none hd hs) hg hg'

-- A master key that seals by turning round, after two random bytes.
def turning : MasterKey where
  nonceLength := 2
  wrap _ nonce _ plain := .ok (nonce ++ plain.reverse)
  unwrap _ _ sealed := .ok (sealed.drop 2).reverse

-- An empty disk with that key, and other random bytes.
def turned : Host :=
  { Host.bare with keyring := [("r", ⟨turning, []⟩)], entropy := ⟨fun i => i.toUInt8, 7⟩ }

-- The second opening is under the key of the first one, or under another.
def reopening (first second : String) : List Request := [
  .open "t" .default "a" first, .table "t" .readHandleKeys, .table "t" .begin,
  .table "t" (.putScalar .syncToken [1]), .close "t", .open "u" .default "a" second,
  .table "u" .readHandleKeys, .table "u" (.scalar (.handleKey .node)),
  .table "u" (.scalar .syncToken), .discard "b"]

theorem bare_founded : Host.bare.Founded where
  links p _ hp := by
    cases p
    case nil       => cases hp
    case cons q qs => simp [Host.bare, Disk.link?] at hp
  paired i store hs := by
    have hb : Host.bare.body i = .foreign [] := by simp [Host.body, Host.bare]
    obtain rfl : Store.blank = store := by simpa [hb, Body.store?] using hs
    exact fun _ => rfl
  seated _ hr := by cases hr
  held _ hr := by cases hr

theorem turned_answers :
    let rs := reopening "k" "k"
    let rs' := reopening "r" "k"
    let x := runAll Host.plainNaming rs Host.bare
    let y := runAll Host.plainNaming rs' turned
    rs.map keyless = rs'.map keyless ∧ Host.bare.Founded ∧ turned.disk = Host.bare.disk ∧
    turned.seats = Host.bare.seats ∧ (∀ a ∈ x.1, isRefused a = false) ∧
      (∀ a ∈ y.1, isRefused a = false) ∧
    x.2.disk.bodies ≠ y.2.disk.bodies ∧ List.zipWith view rs x.1 = List.zipWith view rs y.1 := by
  intro rs rs' x y
  have hk : rs.map keyless = rs'.map keyless := rfl
  have hx : ∀ a ∈ x.1, isRefused a = false := by decide +kernel
  have hy : ∀ a ∈ y.1, isRefused a = false := by decide +kernel
  have hne : x.2.disk.bodies ≠ y.2.disk.bodies := by decide +kernel
  exact ⟨hk, bare_founded, rfl, rfl, hx, hy, hne,
    answers_independent_of_keys Host.plainNaming hk bare_founded rfl rfl hx hy⟩

def isMissing : Option (Except Failure Reply) → Bool
  | some (.error f) => f.report.kind = "MissingHandleKey"
  | _ => false

def reading (key : String) : List Request :=
  [.open "t" .default "a" key, .table "t" .readHandleKeys]

-- The key `q` refuses its first opening for a reason of its own.
def refusing (reason : Report) (h : Host) : Host :=
  { h with keyring := [("q", ⟨.refusing .transparent none (some 1) reason, []⟩)] }

-- A store that another program has left a node key alone in, sealed by a transparent key.
def halfKeyed : Host :=
  let text := List.replicate 22 65
  let sealed := MasterKey.openLead HandleKeyKind.node.associated ++ text
  let rows := Rows.empty.put (Slot.handleKey .node).key (.blob sealed)
  { Host.bare with disk := ⟨[(["a.db"], .file 0)],
    [.store ⟨{ Content.empty with init := .table rows }, 0, true⟩]⟩ }

-- A handle key is reported missing under the one master key alone, if the other one says so itself;
-- and if there is no parent key, under that one alone which opens the node key.
theorem missing_depends_on_key :
    (reading "k").map keyless = (reading "q").map keyless ∧
    ∀ h ∈ [refusing (.missingHandleKey (.handleKey .node)) Host.bare,
        refusing (.titled .crypto "keystore locked") halfKeyed],
      let x := (runAll Host.plainNaming (reading "k") h).1
      let y := (runAll Host.plainNaming (reading "q") h).1
      (∀ a ∈ x, isRefused a = false) ∧ (∀ a ∈ y, isRefused a = false) ∧
        x.map isMissing ≠ y.map isMissing := by
  refine ⟨rfl, ?_⟩
  decide +kernel

end Request

end AccountCache
