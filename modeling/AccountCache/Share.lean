namespace AccountCache

inductive Share
  | none
  | outgoing
  | incoming
  | pending
  | outgoingAndPending
  deriving DecidableEq

instance : Inhabited Share := ⟨.none⟩

namespace Share

def code : Share → Int64
  | none => 0
  | outgoing => 1
  | incoming => 2
  | pending => 3
  | outgoingAndPending => 4

def ofCode? (n : Int64) : Option Share :=
  if n = 0 then some none
  else if n = 1 then some outgoing
  else if n = 2 then some incoming
  else if n = 3 then some pending
  else if n = 4 then some outgoingAndPending
  else Option.none

def name : Share → String
  | none => "None"
  | outgoing => "Outgoing"
  | incoming => "Incoming"
  | pending => "Pending"
  | outgoingAndPending => "OutgoingAndPending"

@[simp]
theorem ofCode?_code (s : Share) : ofCode? s.code = some s := by
  cases s <;> decide

theorem code_of_ofCode? {n : Int64} {s : Share} (h : ofCode? n = some s) : s.code = n := by
  unfold ofCode? at h
  repeat' split at h
  all_goals simp_all
  all_goals (subst h; rfl)

end Share
end AccountCache
