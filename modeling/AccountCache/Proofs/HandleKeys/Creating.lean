import AccountCache.Proofs.HandleKeys.Sealing
import AccountCache.Proofs.Host.Ready
import AccountCache.Proofs.Preservation

namespace AccountCache

namespace Host

variable {h h' : Host} {n : Naming} {path name label key : String} {i : Nat} {s : Seat} {b : Birth}
  {w : Wipe} {gone : Bool} {o : StoreOptions}

-- There is a blank file that no store can be made of.
structure Stuck (n : Naming) (path : String) (h : Host) : Prop where
  reaches : h.disk.Reaches (Place.steps n.root)
  blank   : ∃ i, h.disk.file? path = some i ∧ h.disk.bodies[i]? = some (.foreign [])
  blocked : h.disk.find? (walPath path) = some .directory ∨ ¬Fits path h.disk

-- No table is open on the store, whose slots hold what was stored unless it is gone.
structure Rests (n : Naming) (path : String) (b : Birth) (gone : Bool) (h : Host) : Prop where
  seats : h.seats = []
  short : Place.isTooLong (baseName path ++ journalSuffix) = false
  store : ∃ i c, h.Holds n path i c ∧ c.IsStandard ∧ c.keySlots = Wipe.leaves gone b.stored

-- The table has the store to itself, and finds in the slots what was stored as far as it is not
-- wiped.
structure Sole (n : Naming) (path label : String) (b : Birth) (w : Wipe) (s : Seat)
    (h : Host) : Prop
    extends Ready n path label s h where
  only   : h.seats = [(label, s)]
  short  : Place.isTooLong (baseName path ++ journalSuffix) = false
  path   : s.path = path
  lone   : (h.assemble label s).conn.Lone
  tracks : (h.assemble label s).conn.Tracks b.stored w

-- Only the one master key has been called.
def Spares (key : String) (h h' : Host) : Prop := ∀ k, k ≠ key → h'.keyholder k = h.keyholder k

-- What comes of an opening that finds no store.
inductive Creates (n : Naming) (path label key : String) (h : Host) :
    Except Failure Unit → Host → Prop
  | early {f : OpenFault} :
      Creates n path label key h (.error (.opening f)) { h with disk := h.rooted n }
  | stuck {f : Failure} {h' : Host} : (∃ g, f = .opening g) ∨ (∃ g, f = .schema g) → h'.seats = [] →
    (∀ k, h'.keyholder k = h.keyholder k) → Stuck n path h' →
      Creates n path label key h (.error f) h'
  | spoilt {f : Failure} {h' : Host} : (h.rooted n).find? (walPath path) ≠ some .directory →
    Fits path (h.rooted n) → h'.seats = [] → h'.disk.Reaches (Place.steps n.root) →
    (∃ i, h'.disk.file? path = some i) → Spares key h h' →
    Birth.Asks ⟨h.keyholder key, h.entropy⟩ (.error f) (h'.keyholder key) →
    Creates n path label key h (.error f) h'
  | made {h' : Host} {s : Seat} : (h.rooted n).find? (walPath path) ≠ some .directory →
    Fits path (h.rooted n) → Sole n path label ⟨h.keyholder key, h.entropy⟩ .none s h' →
      Spares key h h' →
    Birth.Asks ⟨h.keyholder key, h.entropy⟩ (.ok ()) (h'.keyholder key) →
    Creates n path label key h (.ok ()) h'

theorem peers_of_alone (ha : ∀ r ∈ h.seats, r.1 = label) (i : Nat) :
    h.peers label i = .ofPhases [] := by
  have none : (h.seatsOn i).filter (fun r => r.1 ≠ label) = [] := by
    apply List.filter_eq_nil_iff.mpr
    intro r hr
    simp [ha r (List.mem_filter.mp hr).left]
  rw [peers, none]
  rfl

theorem Stops.creates (hm : path ≠ memoryPath) (hf : Finds n path h.disk (.foreign []))
    (hs : h.seats = [])
    (f : OpenFault) : Stops n path h h' → Creates n path label key h (.error (.opening f)) h'
  | .early => .early
  | .barred (i := i) l _ hb => by
    have hblank : h'.isJammed path i ≠ true := by simp [isJammed, l.body_eq hf, Body.isBlank]
    refine .stuck (.inl ⟨f, rfl⟩) (l.seats.trans hs) l.keyholder ?_
    exact ⟨l.reaches, ⟨i, l.file hm, l.finds hf⟩, .inl (hb.resolve_left hblank)⟩
  | .unread (i := i) label a hw => by
    have hb : h'.body i = .foreign [] := a.body_eq hf
    have hp : h'.peers label i = .ofPhases [] := peers_of_alone (by rw [a.seats, hs]; simp) i
    obtain ⟨g, hg⟩ | hpend := hw
    · rw [hb] at hg; cases hg
    · rw [hp] at hpend; cases hpend

theorem assemble_of_alone (ha : ∀ r ∈ h.seats, r.1 = label) (hf : h.disk.file? s.path = some s.body)
    (hm : s.inMemory = false) (hfits : Fits s.path h.disk) :
    (h.assemble label s).conn = ⟨h.body s.body, s.phase, .ofPhases [], none⟩ := by
  have ho : h.obstacle s.path s.body = none := by
    rw [obstacle_of_file hf, if_pos hfits]
  simp only [assemble, peers_of_alone ha, hm, ho, ite_self]

theorem assign_alone {seats : List (String × Seat)} (hs : ∀ r ∈ seats, r.1 = label) :
    ∀ r ∈ assign label s seats, r.1 = label := by
  intro r hr
  obtain rfl | hr := mem_of_mem_assign hr
  · rfl
  · exact hs r hr

theorem install_conn {h₂ : Host} {t : Table} (label key : String) (e : Entropy)
    (hm : path ≠ memoryPath)
    (hf : h₂.disk.file? path = some i) (hb : i < h₂.disk.bodies.length) (hs : h₂.seats = [])
    (hl : t.conn.Lone) (hfits : Fits path h₂.disk) :
    ((h₂.install label (newSeat path key i) t e).assemble label
      { newSeat path key i with phase := t.conn.phase, cursor := t.cursor }).conn = t.conn := by
  have ha : ∀ r ∈ (h₂.install label (newSeat path key i) t e).seats, r.1 = label := by
    rw [install_seats, hs]
    exact assign_alone (by simp)
  have hbody : (h₂.install label (newSeat path key i) t e).body i = t.conn.body :=
    install_body (s := newSeat path key i) hb
  have he := assemble_of_alone
    (s := { newSeat path key i with phase := t.conn.phase, cursor := t.cursor })
    ha (install_file (s := newSeat path key i) hf) (decide_eq_false hm)
    ((fits_congr install_parallel).mpr hfits)
  apply he.trans
  simp only [newSeat] at hbody ⊢
  simp only [hbody, ← hl.peers, ← hl.obstacle]

theorem sole_of_install {h₂ : Host} {t : Table} {e : Entropy} (a : Arrives n path h i h₂)
    (hm : path ≠ memoryPath) (hb : i < h₂.disk.bodies.length) (hs : h₂.seats = [])
    (hi : t.conn.phase = .idle) (hl : t.conn.Lone) (ht : t.conn.Tracks b.stored w)
    (hfits : Fits path h₂.disk) :
    (h₂.install label (newSeat path key i) t e).Sole n path label b w
      { newSeat path key i with phase := t.conn.phase, cursor := t.cursor } := by
  have hc := install_conn label key e hm (a.file hm) hb hs hl hfits
  have hpend : (h₂.peers label i).pending = false := by
    rw [peers_of_alone (by rw [hs]; simp)]
    rfl
  have ⟨store, hstore, hstandard⟩ := hl.body
  have ready := ready_of_install key e a hm hfits.right hpend hi
    ((install_body (s := newSeat path key i) hb).trans hstore) hstandard
  refine { toReady := ready, only := ?_, short := hfits.left, path := rfl, lone := hc ▸ hl,
           tracks := hc ▸ ht }
  rw [install_seats, hs]
  rfl

-- A blank file that was too much for the journal is left as it was.
theorem stuck_of_install {h₂ : Host} {t : Table} {e : Entropy} (a : Arrives n path h i h₂)
    (hm : path ≠ memoryPath) (hb : i < h₂.disk.bodies.length) (ht : t.conn.body = .foreign [])
    (hfits : ¬Fits path h₂.disk) : (h₂.install label (newSeat path key i) t e).Stuck n path where
  reaches := a.reaches.mono fun p => (install_parallel p).mp
  blank   := ⟨i, install_file (s := newSeat path key i) (a.file hm),
    ht ▸ install_bodies (s := newSeat path key i) hb⟩
  blocked := .inr (mt (fits_congr install_parallel).mp hfits)

theorem settle_creates {h₂ : Host} (a : Arrives n path h i h₂) (hm : path ≠ memoryPath)
    (hf : Finds n path h.disk (.foreign [])) (hs : h.seats = []) :
    Creates n path label key h (h₂.settle label o (newSeat path key i)).1
      (h₂.settle label o (newSeat path key i)).2 := by
  have hlt := a.lt hf
  have hseats : h₂.seats = [] := a.seats.trans hs
  have hmem : (newSeat path key i).inMemory = false := decide_eq_false hm
  have hkey : (h₂.assemble label (newSeat path key i)).key = h.keyholder key := a.keyholder key
  have hbody : (h₂.assemble label (newSeat path key i)).conn.body = .foreign [] := a.body_eq hf
  have hpeers : (h₂.assemble label (newSeat path key i)).conn.peers = .ofPhases [] :=
    peers_of_alone (by rw [hseats]; simp) i
  have hlog : (h.rooted n).find? (walPath path) ≠ some .directory :=
    fun hd => a.free hm (.inr (a.parallel.find?_eq_directory.mp hd))
  have keys := Table.prepare_of_blank (t := h₂.assemble label (newSeat path key i)) o h₂.entropy rfl
    hbody hpeers
  rw [hkey, ← hmem] at keys
  have hidle := Table.prepare_idle (t := h₂.assemble label (newSeat path key i)) (s := .blank) o
    (newSeat path key i).inMemory h₂.entropy rfl (by rw [hbody]; rfl)
  have hfits := newSeat_obstacle label key hm (a.file hm)
  have hrooted : Fits path h₂.disk ↔ Fits path (h.rooted n) := fits_congr a.parallel
  unfold settle
  cases hp : (h₂.assemble label (newSeat path key i)).prepare o
    (newSeat path key i).inMemory h₂.entropy
  case mk r te =>
    obtain ⟨t, e⟩ := te
    rw [hp] at keys hidle
    obtain ⟨held, spares⟩ : (h₂.install label (newSeat path key i) t e).keyholder key = t.key ∧ _ :=
      install_keyholder
    have spares' : Spares key h (h₂.install label (newSeat path key i) t e) :=
      fun k hk => (spares k hk).trans (a.keyholder k)
    -- Without a place for a journal nothing is made; with one, only the keys can fail.
    obtain ⟨f, ho, hr, hsame, hk⟩ | ⟨ho, asks, hok⟩ := keys
    case inl =>
      cases hr
      have hblank : t.conn.body = .foreign [] := (congrArg Connection.body hsame).trans hbody
      have stuck : (h₂.install label (newSeat path key i) t e).Stuck n path :=
        stuck_of_install a hm hlt hblank fun hf => by cases ho.symm.trans (hfits.trans (if_pos hf))
      have hheld : t.key = h₂.keyholder key := hk.trans (a.keyholder key).symm
      exact .stuck (.inr ⟨f, rfl⟩) hseats
        (fun k => (install_keyholder_of_eq hheld k).trans (a.keyholder k))
        ⟨stuck.reaches, stuck.blank, stuck.blocked⟩
    case inr =>
      have fits : Fits path h₂.disk := Decidable.byContradiction fun hn => by
        cases ho.symm.trans (hfits.trans (if_neg hn))
      rw [a.entropy, ← held] at asks
      cases r
      case error f =>
        exact .spoilt hlog (hrooted.mp fits) hseats (a.reaches.mono fun p =>
          (install_parallel p).mp)
          ⟨i, install_file (s := newSeat path key i) (a.file hm)⟩ spares' asks
      case ok =>
        obtain ⟨lone, tracks⟩ := hok rfl
        exact .made hlog (hrooted.mp fits) (sole_of_install a hm hlt hseats (hidle rfl).left lone
          (a.entropy ▸ tracks) fits) spares' asks

theorem openNamed_creates (hp : n.path name = .ok path) (hm : path ≠ memoryPath)
    (hf : Finds n path h.disk (.foreign [])) (hs : h.seats = []) :
    Creates n path label key h (h.openNamed label n o name key).1
      (h.openNamed label n o name key).2 := by
  obtain ⟨f, h', ho, stops⟩ | ⟨i, h₂, a, _, _, ho⟩ := openNamed_cases (h := h) label o
    key hp
  case inl => rw [ho]; exact stops.creates hm hf hs f
  case inr => rw [ho]; exact settle_creates a hm hf hs

theorem open_sole (hp : n.path name = .ok path) (hm : path ≠ memoryPath)
    (hf : Finds n path h.disk (.foreign []))
    (hs : h.seats = []) (ho : (h.open label n o name key).1 = .ok ()) :
    ∃ s, (h.open label n o name key).2.Sole n path label ⟨h.keyholder key, h.entropy⟩ .none s := by
  have creates : Creates n path label key h (h.openNamed label n o name key).1
      (h.openNamed label n o name key).2 := openNamed_creates hp hm hf hs
  rw [open_of_no_seats hs] at ho ⊢
  rw [ho] at creates
  cases creates
  case made so _ _ => exact ⟨_, so⟩

theorem Stuck.openNamed (st : h.Stuck n path) (label : String) (o : StoreOptions) (key : String)
    (hp : n.path name = .ok path) (hm : path ≠ memoryPath) (hs : h.seats = []) :
    let r := h.openNamed label n o name key
    (∃ f, r.1 = .error f ∧ ((∃ g, f = .opening g) ∨ ∃ g, f = .schema g)) ∧ r.2.seats = [] ∧
      r.2.Stuck n path ∧ ∀ k, r.2.keyholder k = h.keyholder k := by
  intro r
  have hroot : h.rooted n = h.disk := congrArg Prod.snd (Disk.makePath_of_reaches st.reaches)
  have ⟨i, hfile, hb⟩ := st.blank
  have hf : Finds n path h.disk (.foreign []) := by
    refine .file hm ?_
    rw [found?, show (h.disk.makePath n.root).2 = h.disk from hroot, hfile]
    exact hb
  have free (hlog : (h.rooted n).find? (walPath path) ≠ some .directory)
      (hfits : Fits path (h.rooted n)) : False := by
    rw [hroot] at hlog hfits
    exact st.blocked.elim hlog (absurd hfits)
  have c : Creates n path label key h r.1 r.2 := openNamed_creates hp hm hf hs
  generalize hr : r = out at c
  obtain ⟨answer, h'⟩ := out
  cases c
  case early f               =>
    exact ⟨⟨_, rfl, .inl ⟨f, rfl⟩⟩, hs, by rw [hroot]; exact st, fun _ => rfl⟩
  case stuck hg hs' hk st'   => exact ⟨⟨_, rfl, hg⟩, hs', st', hk⟩
  case spoilt _ _ _ _        => exact (free ‹_› ‹_›).elim
  case made hlog hfits _ _ _ => exact (free hlog hfits).elim

theorem Rests.openNamed (rests : h.Rests n path b gone) (label : String) (o : StoreOptions)
    (key : String) (hp : n.path name = .ok path) (hm : path ≠ memoryPath) :
    ∃ h' s, h.openNamed label n o name key = (.ok (), h') ∧ h'.Sole n path label b ⟨gone, false⟩ s ∧
      ∀ k, h'.keyholder k = h.keyholder k := by
  obtain ⟨i, c, hh, hc, hslots⟩ := rests.store
  have hpend : (h.peers label i).pending = false := by
    rw [peers_of_alone (by rw [rests.seats]; simp)]
    rfl
  obtain ⟨h', ho, hh', hseats, _, hk⟩ := openNamed_of_standard label o key hp hm hh hc hpend
  have only : h'.seats = [(label, newSeat path key i)] := by
    rw [hseats, rests.seats]
    rfl
  have alone : ∀ r ∈ h'.seats, r.1 = label := by simp [only]
  obtain ⟨store, hb, hstore⟩ := hh'.body
  have hconn := assemble_of_alone (s := newSeat path key i) alone hh'.file (decide_eq_false hm)
    ⟨rests.short, hh'.journal⟩
  have lone : (h'.assemble label (newSeat path key i)).conn.Lone := by
    rw [hconn]
    exact Connection.lone_of_idle rfl hb (hstore ▸ hc) rfl rfl
  refine ⟨h', newSeat path key i, ho, ?_, hk⟩
  refine
    { seat     := by rw [seat?, hseats, lookup_assign, if_pos rfl]
      holds    := ⟨c, hh'⟩
      free     := fun r hr hne => absurd (alone r hr) hne
      standard := lone.toStandard
      only, short := rests.short, path := rfl, lone
      tracks   := .settled rfl (fun content hcontent => ?_) rfl }
  obtain ⟨s', hs', hcontent'⟩ := Connection.committed?_eq_some.mp hcontent
  cases (congrArg Body.store? hb).symm.trans hs'
  rw [← hcontent', hstore]
  exact hslots

end Host
end AccountCache
