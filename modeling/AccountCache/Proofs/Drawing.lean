import AccountCache.Proofs.Provision

namespace AccountCache

namespace Entropy

variable {e e' : Entropy} {j k : Nat}

def skip (e : Entropy) (k : Nat) : Entropy := { e with drawn := e.drawn + k }

def Agrees (k : Nat) (e e' : Entropy) : Prop :=
  ∀ i, i < k → e'.source (e'.drawn + i) = e.source (e.drawn + i)

theorem Agrees.draw (h : Agrees k e e') : (e'.draw k).1 = (e.draw k).1 :=
  List.map_congr_left fun i hi => h i (List.mem_range.mp hi)

theorem Agrees.left (h : Agrees (j + k) e e') : Agrees j e e' := fun i hi => h i (by omega)

theorem Agrees.right (h : Agrees (j + k) e e') : Agrees k (e.skip j) (e'.skip j) := by
  intro i hi
  have := h (j + i) (by omega)
  rwa [← Nat.add_assoc, ← Nat.add_assoc] at this

theorem skip_drawn : (e.skip k).drawn - e.drawn = k := Nat.add_sub_cancel_left ..

theorem skip_skip : (e.skip j).skip k = e.skip (j + k) := by simp only [skip, Nat.add_assoc]

end Entropy

namespace Table

variable {t : Table}

-- No more random bytes matter than are drawn.
def Draws (f : Entropy → Except Failure Unit × Table × Entropy) : Prop :=
  ∀ e, ∃ k, (f e).2.2 = e.skip k ∧ ∀ e', e.Agrees k e' → f e' = ((f e).1, (f e).2.1, e'.skip k)

theorem draws_nothing (r : Except Failure Unit) (t : Table) : Draws fun e => (r, t, e) :=
  fun _ => ⟨0, rfl, fun _ _ => rfl⟩

theorem Draws.then {f : Entropy → Except Failure Unit × Table × Entropy} (hf : Draws f)
    (g : Except Failure Unit → Table → Except Failure Unit × Table) :
    Draws fun e => ((g (f e).1 (f e).2.1).1, (g (f e).1 (f e).2.1).2, (f e).2.2) := by
  intro e
  obtain ⟨k, hk, same⟩ := hf e
  exact ⟨k, hk, fun e' agree => by simp only [same e' agree]⟩

theorem provisionKey_draws (kind : HandleKeyKind) (t : Table) :
    Draws fun e => provisionKey kind e t := by
  intro e
  have hafter (e : Entropy) : e.afterKey t.key.key.nonceLength =
      e.skip (handleKeyLength + t.key.key.nonceLength) :=
    Entropy.skip_skip
  refine ⟨handleKeyLength + t.key.key.nonceLength, ?_, fun e' agree => ?_⟩
  · simp only [provisionKey_eq, ← hafter]
    cases t.key.sealNew kind e <;> rfl
  · have hkey := agree.left.draw
    have hnonce := agree.right.draw
    have hseal : t.key.sealNew kind e' = t.key.sealNew kind e := by
      simp only [Keyholder.sealNew, hkey]
      exact congrArg (fun nonce => t.key.key.wrap _ nonce _ _) hnonce
    have hcount : t.key.counted kind e' = t.key.counted kind e := by
      simp only [Keyholder.counted, hkey]
    simp only [provisionKey_eq, hseal, hcount, ← hafter]
    cases t.key.sealNew kind e <;> rfl

theorem provisionKeys_draws (kinds : List HandleKeyKind) (t : Table) :
    Draws fun e => provisionKeys kinds e t := by
  induction kinds generalizing t
  case nil => exact draws_nothing (.ok ()) t
  case cons kind kinds ih =>
    intro e
    obtain ⟨j, hj, same⟩ := provisionKey_draws kind t e
    simp only at hj same
    simp only [provisionKeys]
    cases hr : provisionKey kind e t
    case mk r te =>
      obtain ⟨t₁, e₁⟩ := te
      rw [hr] at hj same
      obtain rfl : e₁ = e.skip j := hj
      cases r
      case error f => exact ⟨j, rfl, fun e' agree => by simp only [same e' agree]⟩
      case ok =>
        obtain ⟨k, hk, rest⟩ := ih t₁ (e.skip j)
        refine ⟨j + k, hk.trans Entropy.skip_skip, fun e' agree => ?_⟩
        simp only [same e' agree.left, rest _ agree.right, Entropy.skip_skip]

-- How the making of keys ends: they are committed, or a failure is undone.
def concludeKeys (r : Except Failure Unit) (t : Table) : Except Failure Unit × Table :=
  match r with
  | .error f => (.error f, (abort t).2)
  | .ok _ =>
    match t.conn.commit with
    | (.error f, conn) => (.error (.provisioning f), (abort { t with conn }).2)
    | (.ok _, conn) => (.ok (), { t with conn }.note .debug "provisioned handle keys")

theorem provision_eq (e : Entropy) (t : Table) :
    provision e t =
      let r := provisionKeys HandleKeyKind.all e { t with conn := { t.conn with phase := .begun } }
      ((concludeKeys r.1 r.2.1).1, (concludeKeys r.1 r.2.1).2, r.2.2) := by
  unfold provision
  rcases provisionKeys HandleKeyKind.all e _ with ⟨r, t₁, e₁⟩
  cases r
  case error => rfl
  case ok =>
    simp only [concludeKeys]
    rcases t₁.conn.commit with ⟨x, conn⟩
    cases x <;> rfl

theorem provision_draws (t : Table) : Draws fun e => provision e t := by
  simp only [provision_eq]
  exact (provisionKeys_draws HandleKeyKind.all _).then concludeKeys

def announce (fresh : Bool) (r : Except Failure Unit) (t : Table) : Except Failure Unit × Table :=
  match r with
  | .error f => (.error f, t)
  | .ok _ =>
    (.ok (), t.note .debug
      ("state cache opened: " ++ t.path ++ " (fresh: " ++ toString fresh ++ ")"))

theorem prepare_draws (o : StoreOptions) (inMemory : Bool) (t : Table) :
    Draws fun e => t.prepare o inMemory e := by
  rcases hs : (applyJournal o.journal inMemory t).conn.ensureSchema with ⟨r, conn⟩
  cases r
  case error f =>
    simp only [prepare_of_failure hs]
    exact draws_nothing (.error (.schema f)) { applyJournal o.journal inMemory t with conn }
  case ok fresh =>
    have draws : Draws fun e =>
        if fresh then provision e { applyJournal o.journal inMemory t with conn }
        else (.ok (), { applyJournal o.journal inMemory t with conn }, e) := by
      cases fresh
      case false => exact draws_nothing (.ok ()) { applyJournal o.journal inMemory t with conn }
      case true  => exact provision_draws { applyJournal o.journal inMemory t with conn }
    refine (funext fun e => ?_ : (fun e => t.prepare o inMemory e) = _) ▸ draws.then
      (announce fresh)
    simp only [prepare, hs, announce]
    rcases (if fresh = true then provision e _ else _ : Except Failure Unit × Table × Entropy)
      with ⟨r, t₁, e₁⟩
    cases r <;> rfl

end Table
end AccountCache
