import AccountCache.Proofs.Follows

namespace AccountCache

open Connection (Statement Work Move)

namespace Op

def isGuarded : Op → Bool
  | guarded .. => true
  | _ => false

def isStep : Op → Bool
  | advance | advanceHandle => true
  | _ => false

def startsCursor : Op → Bool
  | startCursor _ => true
  | _ => false

def isBracket : Op → Bool
  | begin | commit | abort | truncate => true
  | _ => false

end Op

structure Moment where
  op    : Op
  table : Table

namespace Moment

def reply (m : Moment) : Except Failure Reply := (m.op.run m.table).1

def next (m : Moment) : Table := (m.op.run m.table).2

end Moment

namespace Op

-- How a guard is let go: a commit that fails is followed by an abort.
def closing (ending : Ending) (t : Table) : List Moment :=
  match ending with
  | .drop => [⟨abort, t⟩]
  | .commit =>
    match Table.commit t with
    | (.ok _, _)     => [⟨commit, t⟩]
    | (.error _, t') => [⟨commit, t⟩, ⟨abort, t'⟩]

mutual

def history : Op → Table → List Moment
  | guarded steps ending, t =>
    match Table.begin t with
    | (.error _, _) => [⟨begin, t⟩]
    | (.ok _, t')   => ⟨begin, t⟩ :: (historyAll steps t' ++ closing ending (runAll steps t').2)
  | op, t => [⟨op, t⟩]

def historyAll : List Op → Table → List Moment
  | [], _ => []
  | op :: ops, t => history op t ++ historyAll ops (run op t).2

end

mutual

-- The replies to steps of an enumeration that are found in the reply to an operation.
def stepReplies : Op → Except Failure Reply → List (Except Failure Reply)
  | advance, r | advanceHandle, r => [r]
  | guarded steps _, .ok (.guarded replies _) => stepRepliesAll steps replies
  | _, _ => []

def stepRepliesAll : List Op → List (Except Failure Reply) → List (Except Failure Reply)
  | op :: ops, r :: rs => stepReplies op r ++ stepRepliesAll ops rs
  | _, _ => []

end

end Op

-- The moments are plain and lead from the one table to the other.
inductive Leads : Table → List Moment → Table → Prop
  | nil {t : Table} : Leads t [] t
  | cons {op : Op} {t t' : Table} {ms : List Moment} :
    op.isGuarded = false → Leads (op.run t).2 ms t' → Leads t (⟨op, t⟩ :: ms) t'

namespace Leads

theorem single {op : Op} (h : op.isGuarded = false) (ht : (op.run t).2 = t' := by rfl) :
    Leads t [⟨op, t⟩] t' :=
  ht ▸ .cons h .nil

theorem cons' {op : Op} (h : op.isGuarded = false) (ht : (op.run t).2 = t₁) (l : Leads t₁ ms t₂) :
    Leads t (⟨op, t⟩ :: ms) t₂ :=
  .cons h (ht ▸ l)

theorem append {ms ms' : List Moment} (l : Leads t₁ ms t₂) (l' : Leads t₂ ms' t₃) :
    Leads t₁ (ms ++ ms') t₃ := by
  induction l
  case nil         => exact l'
  case cons h _ ih => exact .cons h (ih l')

theorem cons_inv {m : Moment} {ms : List Moment} (l : Leads t (m :: ms) t') :
    m.op.isGuarded = false ∧ m.table = t ∧ Leads m.next ms t' := by
  cases l
  case cons h l => exact ⟨h, rfl, l⟩

theorem append_inv {ms ms' : List Moment} (l : Leads t₁ (ms ++ ms') t₃) :
    ∃ t₂, Leads t₁ ms t₂ ∧ Leads t₂ ms' t₃ := by
  induction ms generalizing t₁
  case nil => exact ⟨t₁, .nil, l⟩
  case cons m ms ih =>
    have ⟨h, ht, l⟩ := l.cons_inv
    have ⟨t₂, l₁, l₂⟩ := ih l
    subst ht
    exact ⟨t₂, .cons h l₁, l₂⟩

end Leads

namespace Op

theorem closing_leads (ending : Ending) (t : Table) :
    Leads t (closing ending t) (Table.finish ending t).2 := by
  cases ending
  case drop => exact .single rfl
  case commit =>
    have ht : (Op.commit.run t).2 = (Table.commit t).2 := rfl
    unfold closing Table.finish
    cases h : Table.commit t
    case mk r t' =>
      rw [h] at ht
      cases r
      case ok    => exact .single rfl ht
      case error => exact .cons' rfl ht (.single rfl)

theorem run_guarded (steps : List Op) (ending : Ending) (t : Table) :
    (∃ f, Table.begin t = (.error f, t) ∧ run (guarded steps ending) t = (.error f, t)) ∨
    ∃ t', Table.begin t = (.ok (), t') ∧
      run (guarded steps ending) t =
        (.ok (.guarded (runAll steps t').1 (Table.finish ending (runAll steps t').2).1),
          (Table.finish ending (runAll steps t').2).2) := by
  cases hi : t.inTransaction
  case true =>
    have hb := Table.begin_of_inTransaction hi
    refine .inl ⟨_, hb, ?_⟩
    simp [run, answer, Table.guarded, hb, Except.map]
  case false =>
    have hb := Table.begin_of_not_inTransaction hi
    refine .inr ⟨_, hb, ?_⟩
    simp [run, answer, Table.guarded, hb, Except.map]

theorem run_guarded_of_inTransaction {t : Table} (steps : List Op) (ending : Ending)
    (hi : t.inTransaction = true) :
    (guarded steps ending).run t = (.error (.query .nestedBegin), t) := by
  have hbegin := Table.begin_of_inTransaction hi
  obtain ⟨_, h, hrun⟩ | ⟨_, h, _⟩ := run_guarded steps ending t <;> cases hbegin.symm.trans h
  exact hrun

theorem run_guarded_of_not_inTransaction {t : Table} (steps : List Op) (ending : Ending)
    (hi : t.inTransaction = false) :
    let reached := runAll steps (Table.begin t).2
    (guarded steps ending).run t =
      (.ok (.guarded reached.1 (Table.finish ending reached.2).1),
        (Table.finish ending reached.2).2) := by
  have hbegin := Table.begin_of_not_inTransaction hi
  obtain ⟨_, h, _⟩ | ⟨_, h, hrun⟩ := run_guarded steps ending t <;> cases hbegin.symm.trans h
  rw [hbegin]
  exact hrun

mutual

theorem history_leads : (op : Op) → (t : Table) → Leads t (history op t) (run op t).2
  | guarded steps ending, t => by
    have ht : (Op.begin.run t).2 = (Table.begin t).2 := rfl
    rw [history]
    obtain ⟨f, hb, h⟩ | ⟨t', hb, h⟩ := run_guarded steps ending t
    case inl =>
      rw [hb] at ht ⊢
      exact h ▸ .single rfl ht
    case inr =>
      rw [hb] at ht ⊢
      exact h ▸ .cons' rfl ht ((historyAll_leads steps t').append (closing_leads ending _))
  | scalar .., _ | putScalar .., _ | readHandleKeys, _ | nodePayload .., _
  | fingerprintPayload .., _ | nodeRecord .., _ | countChildren .., _ | putNode .., _
  | deleteNode .., _ | putUser .., _ | deleteUser .., _ | putContact .., _ | deleteContact .., _
  | startCursor .., _ | advance, _ | advanceHandle, _ | begin, _ | commit, _ | abort, _
  | truncate, _ | checkIntegrity, _ => .single rfl

theorem historyAll_leads : (ops : List Op) → (t : Table) →
    Leads t (historyAll ops t) (runAll ops t).2
  | [], _ => .nil
  | op :: ops, t => (history_leads op t).append (historyAll_leads ops (run op t).2)

end

theorem closing_has_no_step (ending : Ending) (t : Table) :
    (closing ending t).filter (·.op.isStep) = [] := by
  unfold closing
  split
  · rfl
  · split <;> rfl

mutual

theorem stepReplies_run : (op : Op) → (t : Table) →
    stepReplies op (run op t).1 = ((history op t).filter (·.op.isStep)).map Moment.reply
  | guarded steps ending, t => by
    rw [history]
    obtain ⟨f, hb, h⟩ | ⟨t', hb, h⟩ := run_guarded steps ending t
    case inl => rw [h, hb]; rfl
    case inr =>
      rw [h, hb, List.filter_cons_of_neg (by simp [isStep]), List.filter_append,
        closing_has_no_step, List.append_nil]
      exact stepRepliesAll_runAll steps t'
  | advance, _ | advanceHandle, _ => rfl
  | scalar .., _ | putScalar .., _ | readHandleKeys, _ | nodePayload .., _
  | fingerprintPayload .., _ | nodeRecord .., _ | countChildren .., _ | putNode .., _
  | deleteNode .., _ | putUser .., _ | deleteUser .., _ | putContact .., _ | deleteContact .., _
  | startCursor .., _ | begin, _ | commit, _ | abort, _ | truncate, _ | checkIntegrity, _ => rfl

theorem stepRepliesAll_runAll : (ops : List Op) → (t : Table) →
    stepRepliesAll ops (runAll ops t).1 =
      ((historyAll ops t).filter (·.op.isStep)).map Moment.reply
  | [], _ => rfl
  | op :: ops, t => by
    simp only [runAll, stepRepliesAll, historyAll, List.filter_append, List.map_append,
      stepReplies_run op t, stepRepliesAll_runAll ops (run op t).2]

end

theorem run_follows_statement {op : Op} {t : Table} (hp : op.isGuarded = false)
    (hb : op.isBracket = false) : Table.Follows Statement t (op.run t).2 := by
  cases op <;> try contradiction
  case readHandleKeys => exact Table.readHandleKeys_follows.statements
  case nodeRecord     => exact Table.nodeRecord_follows.statements
  case startCursor    => exact Table.startCursor_follows.statements
  case advance        => exact Table.step_follows.statements
  case advanceHandle  => exact Table.step_follows.statements
  case putScalar s bytes =>
    simp only [run, done, answer, Table.putScalar]
    split
    case isTrue    => exact .refl
    case isFalse h => exact Table.write_follows (.putScalar (by simpa using h))
  case putNode       => exact Table.write_follows .putNode
  case deleteNode    => exact Table.write_follows .deleteNode
  case putUser       => exact Table.write_follows .putUser
  case deleteUser    => exact Table.write_follows .deleteUser
  case putContact    => exact Table.write_follows .putContact
  case deleteContact => exact Table.write_follows .deleteContact
  all_goals exact Table.read_follows.statements

theorem run_follows {op : Op} {t : Table} (hp : op.isGuarded = false) :
    Table.Follows Move t (op.run t).2 := by
  cases hb : op.isBracket
  case false => exact (run_follows_statement hp hb).works.moves
  case true =>
    cases op <;> try contradiction
    case begin    => exact Table.begin_follows
    case commit   => exact Table.commit_follows
    case abort    => exact Table.abort_follows
    case truncate => exact Table.truncate_follows

theorem run_follows_work {op : Op} {t : Table} (hi : t.inTransaction = true)
    (hc : op ≠ commit) (ha : op ≠ abort) : Table.Follows Work t (op.run t).2 := by
  have hb := Table.begin_of_inTransaction hi
  cases op
  case guarded steps ending =>
    obtain ⟨_, _, h⟩ | ⟨_, h, _⟩ := run_guarded steps ending t
    · rw [h]; exact .refl
    · simp [hb] at h
  case begin    => simp only [run, done, answer, hb]; exact .refl
  case truncate => exact Table.truncate_follows_of_inTransaction hi
  case commit   => contradiction
  case abort    => contradiction
  all_goals exact (run_follows_statement rfl rfl).works

end Op

theorem Leads.follows {ms : List Moment} (l : Leads t ms t') : Table.Follows Move t t' := by
  induction l
  case nil         => exact .refl
  case cons h _ ih => exact (Op.run_follows h).trans ih

end AccountCache
