import AccountCache.Proofs.HandleKeys.Keeping
import AccountCache.Proofs.Isolation.Rooting
import Mathlib.Control.Monad.Basic

namespace AccountCache

variable {P Q : Tenant} {n : Naming} {r : Place}

namespace Host

variable {h : Host} {name : String}

-- A name that is too long is none for a file in a directory that is there, and is not looked at in
-- one that is still to be made.

end Host

namespace Tenant

def first : Tenant := ⟨"a", (· == "t"), (· == "k")⟩

def second : Tenant := ⟨"b", (· == "u"), (· == "q")⟩

def long : Tenant := ⟨String.ofList (List.replicate 300 'x'), (· == "t"), (· == "k")⟩

end Tenant

end AccountCache
