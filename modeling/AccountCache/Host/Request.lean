import AccountCache.Host.Stores
import AccountCache.Table.Op

namespace AccountCache

inductive Request
  | «open» (label : String) (options : StoreOptions) (name key : String)
  | close (label : String)
  | remove (label : String)
  | discard (name : String)
  | table (label : String) (op : Op)

namespace Request

def done : Except Failure Unit → Option (Except Failure Reply) :=
  fun r => some (r.map fun _ => .done)

-- There is no answer where no table is open under the label.
def run (n : Naming) (r : Request) (h : Host) : Option (Except Failure Reply) × Host :=
  match r with
  | «open» label options name key =>
    let (r, h) := h.open label n options name key
    (done r, h)
  | close label =>
    let (r, h) := h.close label
    (r.map fun _ => .ok .done, h)
  | remove label =>
    let (r, h) := h.remove label
    (r.bind done, h)
  | discard name =>
    let (r, h) := h.discard n name
    (done r, h)
  | table label op => h.onTable label op.run

def runAll (n : Naming) : List Request → Host → List (Option (Except Failure Reply)) × Host
  | [], h => ([], h)
  | r :: rs, h =>
    let (a, h) := r.run n h
    let (as, h) := runAll n rs h
    (a :: as, h)

end Request
end AccountCache
