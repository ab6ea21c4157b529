import AccountCache.Proofs.Enumeration
import AccountCache.Proofs.HandleKeys.Keeping

open Relation (ReflTransGen)

namespace AccountCache

namespace Connection

variable {c c' : Connection} {u : Content → Except QueryFault Content}

-- A transaction that has not written sees what is in the file. One that has, found a store in it.
structure Grounded (c : Connection) : Prop where
  looking  : c.phase.isWriting = false → c.content? = c.committed?
  drafting : c.phase.isWriting = true → ∃ s, c.body.store? = .ok s

namespace Grounded

theorem begun (c : Connection) : ({ c with phase := .begun } : Connection).Grounded where
  looking  := fun _ => rfl
  drafting := by simp [Phase.isWriting]

theorem store?_of_content? {before : Content} (g : c.Grounded) (h : c.content? = some before) :
    ∃ s, c.body.store? = .ok s := by
  cases hw : c.phase.isWriting
  case true  => exact g.drafting hw
  case false =>
    obtain ⟨s, hs, _⟩ := committed?_eq_some.mp ((g.looking hw).symm.trans h)
    exact ⟨s, hs⟩

theorem read {α : Type} (q : Content → Except QueryFault α) (g : c.Grounded) :
    (c.read q).2.Grounded := by
  obtain h | ⟨s, _, hs, h⟩ := read_eq_or_look c q <;> rw [h]
  case inl => exact g
  case inr =>
    exact {
      looking  := fun _ => by simp [content?, committed?, hs, Except.toOption]
      drafting := by simp [Phase.isWriting] }

theorem write (u : Content → Except QueryFault Content) (hi : c.inTransaction = true)
    (g : c.Grounded) :
    (c.write u).2.Grounded := by
  obtain ⟨_, h⟩ | ⟨_, _, _, hc, _, _, h⟩ | ⟨_, _, _, _, ho, _⟩ := write_cases c u
  case inl     => rw [h]; exact g
  case inr.inl =>
    rw [h]
    exact { looking := by simp [Phase.isWriting], drafting := fun _ => g.store?_of_content? hc }
  case inr.inr => simp [hi] at ho

theorem work (w : Work c c') (hi : c.inTransaction = true) (g : c.Grounded) : c'.Grounded := by
  cases w
  case clear name => exact g.write _ hi
  case statement s =>
    cases s
    case read q  => exact g.read q
    case write u _ => exact g.write u hi

theorem works (w : ReflTransGen Work c c') (hi : c.inTransaction = true) (g : c.Grounded) :
    c'.Grounded := by
  induction w
  case refl => exact g
  case tail w ws ih => exact ih.work ws ((works_in_transaction w hi).left)

theorem commit (g : c.Grounded) (hi : c.inTransaction = true) :
    (c.phase.isWriting = true ∧ c.mustWait = true ∧
      ∃ c', c.commit = (.error .locked, c') ∧ c'.body = c.body) ∨
    (¬ (c.phase.isWriting = true ∧ c.mustWait = true) ∧
      ∃ c', c.commit = (.ok (), c') ∧ c'.inTransaction = false ∧ c'.content? = c.content?) := by
  obtain ⟨hn, _⟩ | ⟨_, _, hp, hw, h⟩ | ⟨draft, _, hp, hw, h⟩ | ⟨_, hp, h⟩ := commit_cases c
  case inl     => simp [hi] at hn
  case inr.inl => exact .inl ⟨by rw [hp]; rfl, hw, _, h, rfl⟩
  case inr.inr.inl =>
    obtain ⟨s, hs⟩ := g.drafting (by rw [hp]; rfl)
    rw [Body.update_of_ok hs] at h
    exact .inr ⟨by simp [hw], _, h, rfl, by
      simp [content?, hp, Body.store?, Store.commit, Except.toOption]⟩
  case inr.inr.inr => exact .inr ⟨by simp [hp], _, h, rfl, (g.looking hp).symm⟩

end Grounded

theorem mustWait_congr (hb : c'.body = c.body) (hp : c'.peers = c.peers) :
    c'.mustWait = c.mustWait := by
  unfold mustWait
  rw [hb, hp]

end Connection

namespace Table

variable {t : Table}

theorem finish_closes (ending : Ending) (t : Table) :
    (finish ending t).2.inTransaction = false := by
  cases ending
  case drop => rfl
  case commit =>
    unfold finish
    obtain ⟨hi, h⟩ | ⟨_, _, _, _, h⟩ | ⟨_, _, _, _, h⟩ | ⟨_, _, h⟩ := Connection.commit_cases t.conn
    case inl     => rw [commit, onConnection_of_error h]; rfl
    case inr.inl => rw [commit, onConnection_of_error h]; rfl
    case inr.inr.inl => rw [commit, onConnection_of_ok h]; rfl
    case inr.inr.inr => rw [commit, onConnection_of_ok h]; rfl

theorem finish_commit (g : t.conn.Grounded) (hi : t.inTransaction = true) :
    (t.conn.phase.isWriting = true ∧ t.conn.mustWait = true ∧
      (finish .commit t).1 = .error (.query .locked) ∧
        (finish .commit t).2.conn.body = t.conn.body) ∨
    (¬ (t.conn.phase.isWriting = true ∧ t.conn.mustWait = true) ∧
      (finish .commit t).1 = .ok () ∧ (finish .commit t).2.conn.content? = t.conn.content?) := by
  unfold finish
  obtain ⟨hw, hm, _, h, hb⟩ | ⟨hn, _, h, _, hc⟩ := g.commit hi
  case inl => rw [commit, onConnection_of_error h]; exact .inl ⟨hw, hm, rfl, hb⟩
  case inr => rw [commit, onConnection_of_ok h]; exact .inr ⟨hn, rfl, hc⟩

end Table

namespace Op

theorem runAll_in_transaction {steps : List Op} {t : Table}
    (hsteps : ∀ op ∈ steps, op ≠ commit ∧ op ≠ abort) (hi : t.inTransaction = true) :
    Table.Follows Connection.Work t (runAll steps t).2 := by
  induction steps generalizing t
  case nil => exact .refl
  case cons op steps ih =>
    obtain ⟨hc, ha⟩ := hsteps op List.mem_cons_self
    have f := run_follows_work hi hc ha
    have hi' := (Connection.works_in_transaction f.conn hi).left
    exact f.trans (ih (fun op' h => hsteps op' (List.mem_cons_of_mem _ h)) hi')

-- Where the steps of a guard lead as long as none of them ends the transaction.
structure Reaches (t t₁ : Table) : Prop where
  inside   : t₁.inTransaction = true
  body     : t₁.conn.body = t.conn.body
  grounded : t₁.conn.Grounded
  mustWait : t₁.conn.mustWait = t.conn.mustWait

theorem runAll_reaches {steps : List Op} {t : Table}
    (hsteps : ∀ op ∈ steps, op ≠ commit ∧ op ≠ abort)
    (hi : t.inTransaction = false) : Reaches t (runAll steps (Table.begin t).2).2 := by
  rw [Table.begin_of_not_inTransaction hi]
  have f := runAll_in_transaction
    (t := { t with conn := { t.conn with phase := .begun } }) hsteps rfl
  obtain ⟨hi₁, hbody⟩ := Connection.works_in_transaction f.conn rfl
  have hpeers := (Connection.moves_frame f.moves.conn).left
  exact {
    inside   := hi₁
    body     := hbody
    grounded := (Connection.Grounded.begun t.conn).works f.conn rfl
    mustWait := Connection.mustWait_congr hbody hpeers }

-- A guard ends its transaction in every case. Where none of the steps ends it, dropping the guard
-- leaves the file as it was, and committing it succeeds and leaves what the steps have reached,
-- unless they have written to a store without a log while another table reads it: then the file is
-- as it was too. In an open transaction there is no guard, and the transaction stays as it is.
theorem run_guarded_closes (steps : List Op) (ending : Ending) (t : Table) :
    let reached := runAll steps (Table.begin t).2
    let result := (guarded steps ending).run t
    (t.inTransaction = true → result = (.error (.query .nestedBegin), t)) ∧
    (t.inTransaction = false →
      ∃ e, result.1 = .ok (.guarded reached.1 e) ∧ result.2.inTransaction = false ∧
        ((∀ op ∈ steps, op ≠ commit ∧ op ≠ abort) →
          (ending = .drop → e = .ok () ∧ result.2.conn.body = t.conn.body) ∧
          (ending = .commit →
            if reached.2.conn.phase.isWriting ∧ t.conn.mustWait then
              e = .error (.query .locked) ∧ result.2.conn.body = t.conn.body
            else e = .ok () ∧ result.2.conn.content? = reached.2.conn.content?))) := by
  intro reached result
  refine ⟨run_guarded_of_inTransaction steps ending, fun hi => ?_⟩
  have hresult : result = _ := run_guarded_of_not_inTransaction steps ending hi
  rw [hresult]
  refine ⟨_, rfl, Table.finish_closes _ _, fun hsteps => ?_⟩
  have r : Reaches t reached.2 := runAll_reaches hsteps hi
  cases ending
  case drop => exact ⟨fun _ => ⟨rfl, r.body⟩, nofun⟩
  case commit =>
    refine ⟨nofun, fun _ => ?_⟩
    obtain ⟨hw, hm, he, hbody⟩ | ⟨hn, he, hcontent⟩ := Table.finish_commit r.grounded r.inside
    case inl => rw [if_pos ⟨hw, r.mustWait ▸ hm⟩]; exact ⟨he, hbody.trans r.body⟩
    case inr => rw [if_neg (r.mustWait ▸ hn)]; exact ⟨he, hcontent⟩

-- A user is deleted, and a transaction and a guard inside the guard are refused.
def meddling : List Op := [.begin, .deleteUser 5, .guarded [.abort] .drop]

theorem threeUsers_guarded :
    let left ending := ((Op.guarded meddling ending).run threeUsers).2
    threeUsers.inTransaction = false ∧ (∀ op ∈ meddling, op ≠ .commit ∧ op ≠ .abort) ∧
    (left .drop).inTransaction = false ∧ (left .drop).conn.body = threeUsers.conn.body ∧
    (left .commit).inTransaction = false ∧ (left .commit).conn.content? = some
      { Content.blank with
        users := .table <| .put (.put .empty (-3) (.blob [1])) 7 (.blob [3]) } := by
  have hsteps : ∀ op ∈ meddling, op ≠ .commit ∧ op ≠ .abort := by simp [meddling]
  have hreached : (runAll meddling (Table.begin threeUsers).2).2.conn.content? = some
      { Content.blank with
        users := .table <| .put (.put .empty (-3) (.blob [1])) 7 (.blob [3]) } := by
    decide +kernel
  have hwait : threeUsers.conn.mustWait = false := rfl
  obtain ⟨_, _, hdrop, end₁⟩ := (run_guarded_closes meddling .drop threeUsers).right rfl
  obtain ⟨_, _, hcommit, end₂⟩ := (run_guarded_closes meddling .commit threeUsers).right rfl
  have hkept := (end₂ hsteps).right rfl
  rw [if_neg (by simp [hwait])] at hkept
  exact ⟨rfl, hsteps, hdrop, (end₁ hsteps).left rfl |>.right, hcommit, hkept.right.trans hreached⟩

end Op

namespace Host

-- Two tables on one store without a log, of which the second one reads in a transaction.
def watched : Host :=
  (Request.runAll plainNaming [
    .open "a" ⟨.delete, .full⟩ "s" "k", .open "b" ⟨.delete, .full⟩ "s" "k",
    .table "b" .begin, .table "b" (.nodePayload 1)] bare).2

-- A guard puts a user and is committed, in vain.
theorem watched_refuses_commit : ∃ t t', watched.table? "a" = some t ∧ t.inTransaction = false ∧
    (Op.guarded [.putUser 7 [1]] .commit).run t =
      (.ok (.guarded [.ok .done] (.error (.query .locked))), t') ∧
    t'.conn.committed? ≠ (Op.runAll [.putUser 7 [1]] (Table.begin t).2).2.conn.content? := by
  let put (t : Table) := Table.putUser 7 [1] (Table.begin t).2
  let left (t : Table) := Table.finish .commit (put t).2
  have run : (watched.table? "a").map (fun t => (t.inTransaction, (put t).1, (left t).1,
      decide ((left t).2.conn.committed? ≠ (put t).2.conn.content?))) =
      some (false, .ok (), .error (.query .locked), true) := by decide +kernel
  obtain ⟨t, ht, h⟩ := Option.map_eq_some_iff.mp run
  simp only [Prod.mk.injEq, decide_eq_true_eq] at h
  obtain ⟨hi, hput, hend, hlost⟩ := h
  have hrun := Op.run_guarded_of_not_inTransaction [.putUser 7 [1]] .commit hi
  refine ⟨t, _, ht, hi, Prod.ext ?_ rfl, ?_⟩
  · rw [hrun]
    simp only [put, left] at hput hend
    simp only [Op.runAll, Op.run, Op.done, Op.answer, hput, hend]
    rfl
  · rw [hrun]
    exact hlost

end Host
end AccountCache
