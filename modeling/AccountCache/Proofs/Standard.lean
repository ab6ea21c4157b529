import AccountCache.Proofs.Follows
import AccountCache.Proofs.Schema

open Relation (ReflTransGen)

namespace AccountCache

theorem Relation.change_isTable {α : Type} {r r' : Relation α} {name : TableName}
    {f : Rows α → Rows α} (h : r.change name f = .ok r') : r'.isTable = true := by
  cases r <;> cases h
  rfl

namespace Content

variable {c c' : Content} {u : Content → Except QueryFault Content}

theorem map_eq_ok {α β : Type} {r : Except QueryFault α} {f : α → β} {b : β} (h : r.map f = .ok b) :
    ∃ a, r = .ok a ∧ f a = b := by
  cases r <;> cases h
  exact ⟨_, rfl, rfl⟩

theorem Update.isStandard (hu : Update u) (h : u c = .ok c') (hc : c.IsStandard) :
    c'.IsStandard := by
  cases hu <;> obtain ⟨r, hr, rfl⟩ := map_eq_ok h
  case putScalar                 => exact { hc with init := Relation.change_isTable hr }
  case putNode | deleteNode      => exact { hc with nodes := Relation.change_isTable hr }
  case putUser | deleteUser      => exact { hc with users := Relation.change_isTable hr }
  case putContact | deleteContact => exact { hc with pcrs := Relation.change_isTable hr }

theorem clear_isStandard {name : TableName} (h : clear name c = .ok c') (hc : c.IsStandard) :
    c'.IsStandard := by
  cases name <;> obtain ⟨r, hr, rfl⟩ := map_eq_ok h
  case init  => exact { hc with init := Relation.change_isTable hr }
  case nodes => exact { hc with nodes := Relation.change_isTable hr }
  case users => exact { hc with users := Relation.change_isTable hr }
  case pcrs  => exact { hc with pcrs := Relation.change_isTable hr }

def emptied (name : TableName) (c : Content) : Content :=
  match name with
  | .init  => { c with init := .table .empty }
  | .nodes => { c with nodes := .table .empty }
  | .users => { c with users := .table .empty }
  | .pcrs  => { c with pcrs := .table .empty }

theorem clear_of_standard (name : TableName) (hc : c.IsStandard) :
    clear name c = .ok (c.emptied name) := by
  have change {α : Type} {r : Relation α} (h : r.isTable = true) :
      r.change name (fun _ => .empty) = .ok (.table .empty) := by
    cases r <;> first | rfl | contradiction
  cases name
  case init  => rw [clear, change hc.init]; rfl
  case nodes => rw [clear, change hc.nodes]; rfl
  case users => rw [clear, change hc.users]; rfl
  case pcrs  => rw [clear, change hc.pcrs]; rfl

end Content

-- Whatever the connection shows or leaves behind has all four tables.
structure Connection.Standard (c : Connection) : Prop where
  body : ∃ s, c.body = .store s ∧ s.content.IsStandard
  seen : ∀ content, c.content? = some content → content.IsStandard

namespace Connection

variable {c c' : Connection} {u : Content → Except QueryFault Content}

theorem Standard.write (hu : ∀ {before after}, u before = .ok after → before.IsStandard →
      after.IsStandard)
    (hc : c.Standard) : (c.write u).2.Standard := by
  obtain ⟨_, h⟩ | ⟨before, after, _, hb, ha, _, h⟩ | ⟨s, after, hs, ha, hi, h⟩ := write_cases c u
  case inl => rw [h]; exact hc
  case inr.inl =>
    rw [h]
    refine ⟨hc.body, fun content hcontent => ?_⟩
    cases hcontent
    exact hu ha (hc.seen before hb)
  case inr.inr =>
    have ⟨s', hb, hstandard⟩ := hc.body
    rw [hb] at hs
    cases hs
    have hafter := hu ha hstandard
    rw [h]
    refine ⟨⟨_, rfl, hafter⟩, fun content hcontent => ?_⟩
    rw [content?_of_not_inTransaction (by exact hi)] at hcontent
    cases hcontent
    exact hafter

theorem Standard.committed (hc : c.Standard) : ∀ content, c.committed? = some content →
    content.IsStandard := by
  have ⟨s, hb, hs⟩ := hc.body
  intro content h
  simp only [committed?, hb, Body.store?, Except.toOption, Option.map_some, Option.some.injEq] at h
  exact h ▸ hs

theorem Standard.committed?_eq_some (hc : c.Standard) : ∃ content, c.committed? = some content := by
  have ⟨s, hb, _⟩ := hc.body
  exact ⟨s.content, by simp only [committed?, hb]; rfl⟩

theorem Standard.content?_eq_some (hc : c.Standard) : ∃ content, c.content? = some content := by
  have ⟨content, hcommitted⟩ := hc.committed?_eq_some
  cases hp : c.phase
  case reading seen _  => exact ⟨seen, by simp only [content?, hp]⟩
  case writing draft _ => exact ⟨draft, by simp only [content?, hp]⟩
  all_goals exact ⟨content, by simp only [content?, hp]; exact hcommitted⟩

theorem Move.standard (m : Move c c') (hc : c.Standard) : c'.Standard := by
  cases m
  case work w =>
    cases w
    case clear name => exact hc.write Content.clear_isStandard
    case statement s =>
      cases s
      case read =>
        exact ⟨by rw [read_body]; exact hc.body, fun content h =>
          hc.seen content (by rwa [read_content?] at h)⟩
      case write hu => exact hc.write hu.isStandard
  case begin =>
    obtain ⟨_, h⟩ | ⟨_, h⟩ := begin_cases c <;> rw [h]
    · exact hc
    · exact ⟨hc.body, hc.committed⟩
  case commit =>
    obtain ⟨_, h⟩ | ⟨draft, _, hp, _, h⟩ | ⟨draft, _, hp, _, h⟩ | ⟨_, _, h⟩ :=
      commit_cases c <;> rw [h]
    · exact hc
    · exact ⟨hc.body, fun content hcontent =>
        hc.seen content (by simpa [content?, hp] using hcontent)⟩
    · have hdraft := hc.seen draft (by simp [content?, hp])
      obtain ⟨s, hb, _⟩ := hc.body
      simp only [hb, Body.update, Body.store?]
      refine ⟨⟨_, rfl, hdraft⟩, fun content hcontent => ?_⟩
      cases hcontent
      exact hdraft
    · exact ⟨hc.body, hc.committed⟩
  case abort => exact ⟨hc.body, hc.committed⟩

theorem moves_standard (m : ReflTransGen Move c c') (hc : c.Standard) : c'.Standard := by
  induction m
  case refl => exact hc
  case tail m ih => exact m.standard ih

end Connection

end AccountCache
