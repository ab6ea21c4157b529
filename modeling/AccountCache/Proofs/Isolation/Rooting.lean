import AccountCache.Proofs.Isolation.Sharing

namespace AccountCache

variable {P Q : Tenant} {n : Naming} {r : Place} {path : String}

namespace Host

variable {h : Host} {rs : List Request}

end Host

namespace Request

variable {D : Disk Body → Prop} {q : Request} {rs : List Request} {h x y : Host}

end Request

namespace Host

variable {h : Host} {label name key : String} {o : StoreOptions}

end Host

namespace Disk

variable {d d₁ : Disk Body}

-- The disk, before or after the root has been made as far as it can be.
def Rooting (n : Naming) (d d₁ : Disk Body) : Prop := d₁ = d ∨ d₁ = (d.makePath n.root).2

-- The tenant cannot tell whether the root has been made: to make it once more, and to delete the
-- files, comes to the same as before.
structure Conceals (P : Tenant) (n : Naming) (d : Disk Body) : Prop where
  again   : ((d.makePath n.root).2.makePath n.root).1 = (d.makePath n.root).1
  deleted : ∀ path ∈ P.files n,
    ((d.makePath n.root).2.unlink path).map (fun _ => ()) = (d.unlink path).map fun _ => ()

-- A root that is there, or that has room for the files once it is made, tells nothing.

theorem Conceals.unlink {f : FileFault} (c : d.Conceals P n) (hx : path ∈ P.files n)
    (hf : d.unlink path = .error f) (hd : d.Rooting n d₁) : d₁.unlink path = .error f := by
  obtain rfl | rfl := hd
  case inl => exact hf
  case inr =>
    have same := c.deleted path hx
    rw [hf] at same
    cases hu : (d.makePath n.root).2.unlink path <;> rw [hu] at same <;> cases same
    rfl

theorem Rooting.makePath (hd : d.Rooting n d₁) :
    (d₁.makePath n.root).2 = (d.makePath n.root).2 := by
  obtain rfl | rfl := hd
  · rfl
  · exact makePath_again ..

theorem Conceals.makePath (c : d.Conceals P n) (hd : d.Rooting n d₁) :
    (d₁.makePath n.root).1 = (d.makePath n.root).1 := by
  obtain rfl | rfl := hd
  · rfl
  · exact c.again

end Disk

namespace Request

variable {h g x y : Host} {q : Request} {rs : List Request} {d : Disk Body}

end Request

end AccountCache
