import Dahdi.Library.GuardedRun
import Dahdi.Conference.Setconf

/-!
A conference has an alias as long as it has a member. Operations that take the
last member out and do not look after the alias break this, and they are the
only ones.
-/
namespace ConferenceMembership
open Conference GuardedRun InverseTables

/-- The bookkeeping of the aliases. -/
structure AliasLaw (s : State) : Prop where
  inverse : ∀ x a, x ≠ 0 → a ≠ 0 → (s.tables.confalias x = a ↔ s.tables.confrev a = x)
  owned : ∀ x, s.tables.confalias x ≠ 0 ↔ ∃ a ∈ s.registered, chanInConf (s.chans a) x = true
  member : ∀ a ∈ s.registered, ∀ x, chanInConf (s.chans a) x = true →
    (s.chans a).confn = s.tables.confalias x

/-- The same inside an operation: channels that are about to be closed still count,
    and one conference may have lost its last member. -/
structure Booked (s : State) (pending : List Nat) (but : Int) : Prop where
  tables : AliasOk s.tables
  member : ∀ a ∈ s.registered, ∀ x, chanInConf (s.chans a) x = true →
    s.tables.confalias x ≠ 0 ∧ (s.chans a).confn = s.tables.confalias x
  held : ∀ x, x ≠ but → s.tables.confalias x ≠ 0 →
    ∃ a ∈ s.registered ++ pending, chanInConf (s.chans a) x = true

/-- Nothing that the bookkeeping looks at differs. -/
structure SameBooks (s s' : State) : Prop where
  tables : s'.tables = s.tables
  registered : s'.registered = s.registered
  fields : ∀ a, (s'.chans a).confna = (s.chans a).confna ∧
    (s'.chans a).confmode = (s.chans a).confmode ∧ (s'.chans a).confn = (s.chans a).confn

def OnlyMember (s : State) (chan : Nat) : Prop :=
  isMixing (s.chans chan).confmode = true ∧
    ∀ b ∈ s.registered, chanInConf (s.chans b) (s.chans chan).confna = true → b = chan

section Books
variable {s s' : State} {pending rest : List Nat} {but x : Int} {a : Nat} {c : Chan}

theorem law_booked (booked : Booked s [] 0) : AliasLaw s := by
  obtain ⟨tables, member, held⟩ := booked
  refine ⟨tables.inverse.inverse, fun x => ⟨fun used => ?_, ?_⟩, fun a inside x here => (member a inside x here).2⟩
  · have some : x ≠ 0 := by
      rintro rfl
      exact used tables.inverse.zero
    simpa using held x some used
  · rintro ⟨a, inside, here⟩
    exact (member a inside x here).1

theorem booked_law (ok : AliasOk s.tables) (law : AliasLaw s) : Booked s [] 0 := by
  refine ⟨ok, fun a inside x here => ⟨?_, law.member a inside x here⟩, fun x _ used => ?_⟩
  · exact (law.owned x).mpr ⟨a, inside, here⟩
  · simpa using (law.owned x).mp used

theorem same_symm (same : SameBooks s s') : SameBooks s' s := by
  refine ⟨same.tables.symm, same.registered.symm, fun a => ?_⟩
  obtain ⟨confna, confmode, confn⟩ := same.fields a
  exact ⟨confna.symm, confmode.symm, confn.symm⟩

/-- Only the conference fields of the channels matter. -/
theorem booked_congr (same : SameBooks s s') (booked : Booked s pending but) :
    Booked s' pending but := by
  have inConf : ∀ a x, chanInConf (s'.chans a) x = chanInConf (s.chans a) x := by
    intro a x
    obtain ⟨confna, confmode, _⟩ := same.fields a
    rw [chanInConf, chanInConf, confna, confmode]
  refine ⟨by rw [same.tables]; exact booked.tables, ?_, ?_⟩
  · intro a inside x here
    rw [same.registered] at inside
    rw [inConf] at here
    rw [same.tables, (same.fields a).2.2]
    exact booked.member a inside x here
  · intro x other used
    rw [same.tables] at used
    rw [same.registered]
    obtain ⟨a, inside, here⟩ := booked.held x other used
    exact ⟨a, inside, by rw [inConf]; exact here⟩

theorem same_change {c : Chan} (fields : c.confna = (s.chans a).confna ∧
    c.confmode = (s.chans a).confmode ∧ c.confn = (s.chans a).confn) :
    SameBooks s (setChan s a c) := by
  refine ⟨rfl, rfl, fun b => ?_⟩
  by_cases here : b = a
  · subst here
    rw [set_chan_same]
    exact fields
  · rw [set_chan_other s c here]
    exact ⟨rfl, rfl, rfl⟩

theorem same_preec (s : State) (p : Nat) (allocated : Bool) :
    SameBooks s (setPreec s p allocated) := same_change ⟨rfl, rfl, rfl⟩

theorem booked_full (booked : Booked s pending but)
    (held : s.tables.confalias but ≠ 0 → ∃ a ∈ s.registered ++ pending, chanInConf (s.chans a) but = true) :
    Booked s pending 0 := by
  refine ⟨booked.tables, booked.member, fun x _ used => ?_⟩
  by_cases here : x = but
  · subst here
    exact held used
  · exact booked.held x here used

/-- dahdi_check_conf settles the account of its conference. -/
theorem check_books (booked : Booked s pending x) (checked : checkConf s false x = .ok s') :
    Booked s' pending 0 ∧ s'.chans = s.chans ∧ s'.registered = s.registered := by
  rcases check_conf_spec (x := x) booked.tables false with
    ⟨_, _, fault⟩ | ⟨_, locked, _⟩ | ⟨quiet, done⟩ | ⟨none, _, t, _, done, ok, confalias⟩
  · rw [fault] at checked
    cases checked
  · cases locked
  · obtain rfl := Except.ok.inj (done.symm.trans checked)
    refine ⟨booked_full booked fun used => ?_, rfl, rfl⟩
    have range := booked.tables.conf x used
    rcases quiet with low | unused | ⟨_, members⟩
    · omega
    · exact absurd unused used
    · obtain ⟨a, inside, here⟩ := List.any_eq_true.mp members
      exact ⟨a, List.mem_append_left _ inside, here⟩
  · obtain rfl := Except.ok.inj (done.symm.trans checked)
    have linked := clear_linked ⟨booked.tables, booked.member⟩ ok confalias (any_in_conf.mp none)
    refine ⟨⟨ok, linked.member, ?_⟩, rfl, rfl⟩
    intro y _ used
    simp only [set_tables_tables, confalias] at used
    have other : y ≠ x := by
      rintro rfl
      simp at used
    rw [Function.update_of_ne other] at used
    exact booked.held y other used

/-- With the books in order there is nothing to settle. -/
theorem check_same (booked : Booked s [] 0) (checked : checkConf s false x = .ok s') : s' = s := by
  rcases check_conf_spec (x := x) booked.tables false with
    ⟨_, _, fault⟩ | ⟨_, locked, _⟩ | ⟨_, done⟩ | ⟨none, used, _⟩
  · rw [fault] at checked
    cases checked
  · cases locked
  · exact Except.ok.inj (checked.symm.trans done)
  · have some : x ≠ 0 := by
      rintro rfl
      exact used booked.tables.inverse.zero
    obtain ⟨a, inside, here⟩ := booked.held x some used
    rw [List.append_nil] at inside
    exact absurd here (by simpa using List.any_eq_false.mp none a inside)

/-- A channel that leaves its conference. -/
theorem leave_books (booked : Booked s (a :: rest) 0) (gone : isMixing c.confmode = false) :
    Booked (setChan s a c) rest (s.chans a).confna := by
  have apart : ∀ x, chanInConf c x = false := by
    intro x
    rw [chanInConf, gone, Bool.and_false]
  refine ⟨booked.tables, ?_, ?_⟩
  · intro b inside x here
    by_cases same : b = a
    · subst same
      rw [set_chan_same, apart] at here
      cases here
    · rw [set_chan_other s c same] at here ⊢
      exact booked.member b inside x here
  · intro x other used
    have some : x ≠ 0 := by
      rintro rfl
      exact used booked.tables.inverse.zero
    obtain ⟨b, inside, here⟩ := booked.held x some used
    have differ : b ≠ a := by
      rintro rfl
      exact other (in_conf_iff.mp here).1.symm
    rw [List.mem_append, List.mem_cons] at inside
    refine ⟨b, ?_, by rw [set_chan_other s c differ]; exact here⟩
    rw [List.mem_append]
    rcases inside with registered | same | pending
    · exact Or.inl registered
    · exact absurd same differ
    · exact Or.inr pending

theorem booked_more (booked : Booked s pending but) (a : Nat) : Booked s (a :: pending) but := by
  refine ⟨booked.tables, booked.member, fun x other used => ?_⟩
  obtain ⟨b, inside, here⟩ := booked.held x other used
  refine ⟨b, ?_, here⟩
  rw [List.mem_append] at inside ⊢
  exact inside.imp_right (List.mem_cons_of_mem a)

/-- Leaving without a look at the alias is right just when another member stays. -/
theorem leave_iff (booked : Booked s [] 0) (inside : a ∈ s.registered)
    (gone : isMixing c.confmode = false) :
    Booked (setChan s a c) [] 0 ↔ ¬ OnlyMember s a := by
  have left := leave_books (c := c) (booked_more booked a) gone
  constructor
  · rintro after ⟨mixing, alone⟩
    obtain ⟨used, _⟩ := booked.member a inside _ (in_conf_here mixing)
    have some : (s.chans a).confna ≠ 0 := by
      intro zero
      rw [zero] at used
      exact used booked.tables.inverse.zero
    obtain ⟨b, member, here⟩ := after.held _ some used
    rw [List.append_nil, set_chan_registered] at member
    have differ : b ≠ a := by
      rintro rfl
      rw [set_chan_same, chanInConf, gone, Bool.and_false] at here
      cases here
    rw [set_chan_other s c differ] at here
    exact differ (alone b member here)
  · intro shared
    refine booked_full left fun used => ?_
    by_cases mixing : isMixing (s.chans a).confmode = true
    · have other : ∃ b ∈ s.registered, chanInConf (s.chans b) (s.chans a).confna = true ∧ b ≠ a := by
        by_contra none
        refine shared ⟨mixing, fun b member here => ?_⟩
        by_contra differ
        exact none ⟨b, member, here, differ⟩
      obtain ⟨b, member, here, differ⟩ := other
      exact ⟨b, by simpa using member, by rw [set_chan_other s c differ]; exact here⟩
    · rw [set_chan_tables] at used
      have some : (s.chans a).confna ≠ 0 := by
        intro zero
        rw [zero] at used
        exact used booked.tables.inverse.zero
      obtain ⟨b, member, here⟩ := booked.held _ some used
      have differ : b ≠ a := by
        rintro rfl
        exact mixing (in_conf_iff.mp here).2
      exact ⟨b, member, by rw [set_chan_other s c differ]; exact here⟩

end Books

section Leaving
variable {s s' : State} {pending rest : List Nat} {a : Nat}

theorem normal_unmixed : isMixing 0 = false := by decide

theorem drop_books {but : Int} (booked : Booked s pending but) (a : Nat) :
    Booked (dropPreecho s a) pending but ∧ (dropPreecho s a).registered = s.registered ∧
      ((dropPreecho s a).chans a).confna = (s.chans a).confna := by
  unfold dropPreecho
  cases (s.chans a).confChan with
  | none => exact ⟨booked, rfl, rfl⟩
  | some p =>
    simp only
    split
    · refine ⟨booked_congr (same_preec s p false) booked, rfl, ?_⟩
      by_cases here : a = p
      · subst here
        simp [setPreec]
      · rw [setPreec, set_chan_other s _ here]
    · exact ⟨booked, rfl, rfl⟩

theorem close_books (booked : Booked s (a :: rest) 0) (done : closeChannel s a = .ok s') :
    Booked s' rest 0 ∧ s'.registered = s.registered := by
  obtain ⟨booked₁, registered, confna⟩ := drop_books booked a
  unfold closeChannel at done
  simp only at done
  generalize dropPreecho s a = s₁ at booked₁ registered confna done
  have left := leave_books (c := closed (s₁.chans a)) booked₁ normal_unmixed
  rw [confna] at left
  split at done
  · obtain ⟨after, _, same⟩ := check_books left done
    exact ⟨after, same.trans registered⟩
  · rename_i zero
    obtain rfl := Except.ok.inj done
    rw [not_not.mp zero] at left
    exact ⟨left, registered⟩

theorem cleanup_books {pos : Nat} (booked : Booked s pending 0)
    (done : chanCleanup s a pos = .ok s') : Booked s' pending 0 ∧ s'.registered = s.registered := by
  unfold chanCleanup at done
  split at done
  · have unchecked : (s.chans pos).confna = 0 ∨ s.tables.confalias (s.chans pos).confna = 0 := by
      by_cases zero : (s.chans pos).confna = 0
      · exact Or.inl zero
      · right
        rw [if_pos zero] at done
        rcases check_conf_spec (x := (s.chans pos).confna) booked.tables true with
          ⟨_, _, fault⟩ | ⟨_, _, fault⟩ | ⟨quiet, _⟩ | ⟨_, used, _, _, checked, _⟩
        · rw [fault] at done
          cases done
        · rw [fault] at done
          cases done
        · rcases quiet with low | unused | ⟨locked, _⟩
          · by_contra used
            have := (booked.tables.conf _ used).1
            omega
          · exact unused
          · cases locked
        · by_contra used
          unfold checkConf at checked
          have range := booked.tables.conf _ used
          rw [if_neg (by omega)] at checked
          have inside : inBounds (s.chans pos).confna := ⟨by omega, range.2⟩
          simp [hasAlias, inside, used] at checked
    have same : ∀ s₁, (if (s.chans pos).confna ≠ 0 then checkConf s true (s.chans pos).confna else .ok s) =
        .ok s₁ → s₁ = s := by
      intro s₁ checked
      split at checked
      · rename_i some
        have unused := unchecked.resolve_left some
        unfold checkConf at checked
        split at checked
        · exact (Except.ok.inj checked).symm
        · unfold hasAlias at checked
          split at checked
          · rename_i fault
            split at fault
            · cases checked
            · cases fault
          · exact (Except.ok.inj checked).symm
          · rename_i used
            split at used
            · cases used
            · simp [unused] at used
      · exact (Except.ok.inj checked).symm
    split at done
    · cases done
    · rename_i s₁ checked
      obtain rfl := same s₁ checked
      obtain rfl := Except.ok.inj done
      have left := leave_books (c := cleaned (s₁.chans pos)) (booked_more booked pos) normal_unmixed
      refine ⟨booked_full left fun used => ?_, rfl⟩
      rcases unchecked with zero | unused
      · rw [zero] at used
        exact absurd booked.tables.inverse.zero used
      · exact absurd unused used
  · obtain rfl := Except.ok.inj done
    exact ⟨booked, rfl⟩

theorem cleanup_all_books {poss : List Nat} (booked : Booked s pending 0)
    (done : cleanupAll a poss s = .ok s') : Booked s' pending 0 ∧ s'.registered = s.registered := by
  induction poss generalizing s with
  | nil =>
    obtain rfl := Except.ok.inj done
    exact ⟨booked, rfl⟩
  | cons pos poss ih =>
    unfold cleanupAll at done
    split at done
    · cases done
    · rename_i s₁ cleanup
      obtain ⟨booked₁, registered⟩ := cleanup_books booked cleanup
      obtain ⟨after, same⟩ := ih booked₁ done
      exact ⟨after, same.trans registered⟩

theorem unreg_books (booked : Booked s (a :: rest) 0) (done : chanUnreg s a = .ok s') :
    Booked s' rest 0 ∧ s'.registered = s.registered := by
  unfold chanUnreg at done
  split at done
  · cases done
  · rename_i s₁ cleanup
    obtain ⟨booked₁, registered⟩ := cleanup_all_books booked cleanup
    have renumbered : SameBooks s₁ (setChan s₁ a { s₁.chans a with channo := -1 }) :=
      same_change ⟨rfl, rfl, rfl⟩
    obtain ⟨after, same⟩ := close_books (booked_congr renumbered booked₁) done
    exact ⟨after, same.trans registered⟩

theorem unreg_all_books (booked : Booked s pending 0) (done : unregAll pending s = .ok s') :
    Booked s' [] 0 := by
  induction pending generalizing s with
  | nil =>
    obtain rfl := Except.ok.inj done
    exact booked
  | cons a rest ih =>
    unfold unregAll at done
    split at done
    · cases done
    · rename_i s₁ unreg
      exact ih (unreg_books booked unreg).1 done

theorem delist_mem {chans : List Nat} {b : Nat} :
    b ∈ (delist s chans).registered ↔ b ∈ s.registered ∧ b ∉ chans := by
  simp [delist, State.registered, or_and_right]

theorem unregister_books {chans : List Nat} (booked : Booked s [] 0)
    (done : unregister s chans = .ok s') : Booked s' [] 0 := by
  have delisted : Booked (delist s chans) chans 0 := by
    refine ⟨booked.tables, fun b inside => booked.member b (delist_mem.mp inside).1, ?_⟩
    intro x some used
    obtain ⟨b, inside, here⟩ := booked.held x some used
    rw [List.append_nil] at inside
    refine ⟨b, ?_, here⟩
    rw [List.mem_append, delist_mem]
    by_cases goes : b ∈ chans
    · exact Or.inr goes
    · exact Or.inl ⟨inside, goes⟩
  exact unreg_all_books delisted done

end Leaving

section Joining
variable {s s' : State} {chan : Nat} {confChan : Option Nat} {confno : Int} {confmode : Confmode}

/-- The new conference is in order; the old one may have lost its last member. -/
theorem join_books (booked : Booked s [] 0) (inside : chan ∈ s.registered)
    (range : isMixing confmode = true → 1 ≤ confno ∧ confno ≤ maxConf)
    (done : setconfJoin s chan confChan confno confmode = .ok s') :
    Booked s' [] (s.chans chan).confna ∧ (isMixing confmode = false →
      s' = setChan s chan (joining (s.chans chan) confChan confno confmode)) := by
  obtain ⟨linked, others, registered, plain⟩ := join_linked ⟨booked.tables, booked.member⟩ range done
  refine ⟨⟨linked.tables, linked.member, ?_⟩, plain⟩
  intro y other used
  have nonzero : y ≠ 0 := by
    rintro rfl
    exact used linked.tables.inverse.zero
  rw [registered, List.append_nil]
  rcases others y with ⟨same, elsewhere⟩ | ⟨_, joined⟩
  · rw [same] at used
    obtain ⟨b, member, inConf⟩ := booked.held y nonzero used
    rw [List.append_nil] at member
    have differ : b ≠ chan := by
      rintro rfl
      exact other (in_conf_iff.mp inConf).1.symm
    exact ⟨b, member, by rw [elsewhere b differ]; exact inConf⟩
  · exact ⟨chan, inside, joined⟩

/-- The call returns before it has looked after the old conference. -/
def ReturnsEarly (s : State) (confChan : Option Nat) (confmode : Confmode) (kmalloc : Bool) : Prop :=
  ∃ p, confChan = some p ∧ preecho (confmode &&& modeMask) = true ∧
    (s.chans p).readchunkpreec = false ∧ kmalloc = true

theorem preec_books {but : Int} {kmalloc : Bool} (booked : Booked s [] but) :
    Booked (setconfPreec s confChan confmode kmalloc).2 [] but := by
  unfold setconfPreec
  cases confChan with
  | none => exact booked
  | some p =>
    simp only
    split
    · split
      · exact booked_congr (same_preec s p true) booked
      · exact booked
    · exact booked_congr (same_preec s p false) booked

theorem finish_books {oldconf hw r : Int} {kmalloc : Bool} (booked : Booked s [] oldconf)
    (regular : ¬ ReturnsEarly s confChan confmode kmalloc)
    (done : setconfFinish s oldconf confChan confmode kmalloc hw = .ok (r, s')) : Booked s' [] 0 := by
  have after := @preec_books s confChan confmode oldconf kmalloc booked
  unfold setconfFinish at done
  split at done
  · rename_i p enabled
    refine absurd ?_ regular
    simp only [setconfPreec] at enabled
    split at enabled
    · rename_i mode
      split at enabled
      · rename_i allocated
        simp only [Bool.and_eq_true, Bool.not_eq_true'] at allocated
        exact ⟨p, rfl, mode, allocated⟩
      · cases enabled
    · cases enabled
  · rename_i preec s₁ _ result
    rw [result] at after
    cases checked : checkConf s₁ false oldconf with
    | error fault =>
      rw [checked] at done
      cases done
    | ok s₂ =>
      rw [checked] at done
      obtain ⟨_, rfl⟩ := Prod.mk.inj (Except.ok.inj done)
      exact (check_books after checked).1

theorem finish_early {oldconf hw r but : Int} {kmalloc : Bool}
    (early : ReturnsEarly s confChan confmode kmalloc)
    (done : setconfFinish s oldconf confChan confmode kmalloc hw = .ok (r, s')) :
    Booked s' [] but ↔ Booked s [] but := by
  obtain ⟨p, rfl, mode, unallocated, rfl⟩ := early
  have enabled : setconfPreec s (some p) confmode true = (.enable, setPreec s p true) := by
    simp only [setconfPreec, mode, ↓reduceIte, unallocated, Bool.not_false, Bool.and_self]
  simp only [setconfFinish, enabled] at done
  have same : SameBooks s s' := by
    obtain ⟨_, rfl⟩ := Prod.mk.inj (Except.ok.inj done)
    split
    · have once := same_preec s p true
      have twice := same_preec (setPreec s p true) p false
      refine ⟨rfl, rfl, fun a => ?_⟩
      obtain ⟨confna, confmode, confn⟩ := twice.fields a
      obtain ⟨confna₁, confmode₁, confn₁⟩ := once.fields a
      exact ⟨confna.trans confna₁, confmode.trans confmode₁, confn.trans confn₁⟩
    · exact same_preec s p true
  exact ⟨booked_congr (same_symm same), booked_congr same⟩

theorem early_mode {kmalloc : Bool} (early : ReturnsEarly s confChan confmode kmalloc) :
    isMixing confmode = false ∧ confmode ≠ 0 := by
  obtain ⟨p, _, mode, _⟩ := early
  constructor
  · by_contra mixing
    simp only [Bool.not_eq_false] at mixing
    rw [(mixing_not_monitors mixing).2] at mode
    cases mode
  · intro zero
    rw [zero] at mode
    cases mode

theorem early_joined {c : Chan} {kmalloc : Bool}
    (buffer : c.readchunkpreec = (s.chans chan).readchunkpreec) :
    ReturnsEarly (setChan s chan c) confChan confmode kmalloc ↔
      ReturnsEarly s confChan confmode kmalloc := by
  have same : ∀ p, ((setChan s chan c).chans p).readchunkpreec = (s.chans p).readchunkpreec := by
    intro p
    by_cases here : p = chan
    · subst here
      rw [set_chan_same]
      exact buffer
    · rw [set_chan_other s c here]
  unfold ReturnsEarly
  simp only [same]

/-- The request sets another mode without a look at the conference the channel leaves. -/
def Abandons (s : State) (file : Nat) (conf : Confinfo) (kmalloc : Bool) : Prop :=
  ∃ chan confChan, setconfCheck s file conf = some (chan, confChan) ∧
    1 ≤ setconfNumber s.tables conf.confno ∧
    ReturnsEarly s confChan conf.confmode kmalloc ∧ OnlyMember s chan

theorem abandons_iff {file : Nat} {conf : Confinfo} {kmalloc : Bool}
    (checked : setconfCheck s file conf = some (chan, confChan)) :
    Abandons s file conf kmalloc ↔ 1 ≤ setconfNumber s.tables conf.confno ∧
      ReturnsEarly s confChan conf.confmode kmalloc ∧ OnlyMember s chan := by
  constructor
  · rintro ⟨chan', confChan', checked', rest⟩
    obtain ⟨rfl, rfl⟩ := Prod.mk.inj (Option.some.inj (checked.symm.trans checked'))
    exact rest
  · intro rest
    exact ⟨chan, confChan, checked, rest⟩

theorem setconf_books {file : Nat} {conf : Confinfo} {kmalloc : Bool} {hw r : Int}
    (booked : Booked s [] 0) (done : setconf s file conf kmalloc hw = .ok (r, s')) :
    AliasOk s'.tables ∧ (Booked s' [] 0 ↔ ¬ Abandons s file conf kmalloc) := by
  unfold setconf at done
  split at done
  · rename_i refused
    obtain ⟨_, rfl⟩ := Prod.mk.inj (Except.ok.inj done)
    refine ⟨booked.tables, iff_of_true booked ?_⟩
    rintro ⟨chan, confChan, checked, _⟩
    rw [refused] at checked
    cases checked
  · rename_i chan confChan checked
    obtain ⟨inside, target⟩ := check_inversion checked
    have mixes := conf_chan_mixing target
    split at done
    · cases done
    · rename_i s₁ unused
      obtain rfl := check_same booked unused
      simp only at done
      split at done
      · rename_i busy
        obtain ⟨_, rfl⟩ := Prod.mk.inj (Except.ok.inj done)
        refine ⟨booked.tables, iff_of_true booked ?_⟩
        rintro ⟨_, _, _, number, _⟩
        omega
      · rename_i number
        split at done
        · cases done
        · rename_i s₂ joined
          have range : isMixing conf.confmode = true → 1 ≤ setconfNumber s₁.tables conf.confno ∧
              setconfNumber s₁.tables conf.confno ≤ maxConf := by
            intro mixing
            have some : conf.confmode ≠ 0 := by
              intro zero
              rw [zero] at mixing
              cases mixing
            refine ⟨?_, setconf_number _ (mixes mixing).2⟩
            by_contra low
            exact number ⟨by omega, some⟩
          obtain ⟨booked₂, plain⟩ := join_books booked inside range joined
          have alike : ReturnsEarly s₂ confChan conf.confmode kmalloc ↔
              ReturnsEarly s₁ confChan conf.confmode kmalloc := by
            cases unmixed : isMixing conf.confmode with
            | true =>
              have regular := (mixing_not_monitors unmixed).2
              simp only [ReturnsEarly, regular, Bool.false_eq_true, false_and, and_false,
                exists_false]
            | false =>
              rw [plain unmixed]
              exact early_joined (joining_readchunkpreec _)
          by_cases early : ReturnsEarly s₂ confChan conf.confmode kmalloc
          · refine ⟨((finish_early early done).mpr booked₂).tables, ?_⟩
            obtain ⟨unmixed, some⟩ := early_mode early
            rw [finish_early early done, plain unmixed,
              leave_iff booked inside (by rw [joining_confmode]; exact unmixed)]
            rw [alike] at early
            have placed : 1 ≤ setconfNumber s₁.tables conf.confno := by
              by_contra low
              exact number ⟨by omega, some⟩
            rw [abandons_iff checked]
            simp only [placed, early, true_and]
          · have after := finish_books booked₂ early done
            refine ⟨after.tables, iff_of_true after ?_⟩
            rw [abandons_iff checked]
            rintro ⟨_, returns, _⟩
            exact early (alike.mpr returns)

end Joining

section Runs
variable {s s' : State} {a : Nat}

theorem reinit_books (booked : Booked s [] 0) (inside : a ∈ s.registered)
    (done : initializeChannel s a = .ok s') : AliasOk s'.tables ∧
      (Booked s' [] 0 ↔ if (s.chans a).sigDacs then isMixing (s.chans a).confmode = false
        else ¬ OnlyMember s a) := by
  unfold initializeChannel at done
  split at done
  · cases done
  · rename_i s₁ unused
    have same : s₁ = s := by
      split at unused
      · exact check_same booked unused
      · exact (Except.ok.inj unused).symm
    obtain rfl := same
    obtain rfl := Except.ok.inj done
    refine ⟨booked.tables, ?_⟩
    cases dacs : (s₁.chans a).sigDacs with
    | false =>
      have gone : isMixing (initialized (s₁.chans a)).confmode = false := by
        simp only [initialized, dacs, Bool.false_eq_true, ↓reduceIte, normal_unmixed]
      exact leave_iff booked inside gone
    | true =>
      have kept : (initialized (s₁.chans a)).confna = (s₁.chans a).confna ∧
          (initialized (s₁.chans a)).confmode = (s₁.chans a).confmode ∧
          (initialized (s₁.chans a)).confn = 0 := by
        simp only [initialized, dacs, ↓reduceIte, and_self]
      obtain ⟨confna, confmode, confn⟩ := kept
      simp only [↓reduceIte]
      constructor
      · intro after
        by_contra mixing
        simp only [Bool.not_eq_false] at mixing
        have here := in_conf_here mixing
        obtain ⟨used, _⟩ := booked.member a inside _ here
        have there := (after.member a inside (s₁.chans a).confna
          (by rw [set_chan_same, in_conf_iff, confna, confmode]; exact ⟨rfl, mixing⟩)).2
        rw [set_chan_same, confn, set_chan_tables] at there
        exact used there.symm
      · intro unmixed
        have gone : isMixing (initialized (s₁.chans a)).confmode = false := by
          rw [confmode]
          exact unmixed
        refine (leave_iff booked inside gone).mpr ?_
        rintro ⟨mixing, _⟩
        rw [unmixed] at mixing
        cases mixing

theorem chanconfig_books {clear : Bool} {dacs : Option Int} (booked : Booked s [] 0)
    (inside : a ∈ s.registered) : AliasOk (chanconfig s a clear dacs).2.tables ∧
      (Booked (chanconfig s a clear dacs).2 [] 0 ↔
        ((∃ idlebits, dacs = some idlebits ∧ chanFromNum s idlebits ≠ none) → ¬ OnlyMember s a)) := by
  unfold chanconfig
  cases dacs with
  | none =>
    refine ⟨booked.tables, iff_of_true (booked_congr (same_change ⟨rfl, rfl, rfl⟩) booked) ?_⟩
    rintro ⟨_, none, _⟩
    cases none
  | some idlebits =>
    simp only
    split
    · rename_i missing
      refine ⟨booked.tables, iff_of_true booked ?_⟩
      rintro ⟨_, same, found⟩
      obtain rfl := Option.some.inj same
      exact absurd missing found
    · rename_i dacsChan found
      have gone : isMixing confDigitalmon = false := by decide
      refine ⟨booked.tables, (leave_iff booked inside gone).trans ?_⟩
      simp [found]

/-- The operation does not leave a conference without members, or it looks after
    the alias when it does. -/
def Releases (s : State) : Op → Prop
  | .setconf file conf kmalloc _ => ¬ Abandons s file conf kmalloc
  | .close _ => True
  | .reinit chan =>
    if (s.chans chan).sigDacs then isMixing (s.chans chan).confmode = false else ¬ OnlyMember s chan
  | .unregister _ => True
  | .chanconfig chan _ dacs =>
    (∃ idlebits, dacs = some idlebits ∧ chanFromNum s idlebits ≠ none) → ¬ OnlyMember s chan

/-- The channels an operation is called with are registered. -/
def Called (s : State) : Op → Prop
  | .setconf .. => True
  | .close chan => chan ∈ s.registered
  | .reinit chan => chan ∈ s.registered
  | .unregister _ => True
  | .chanconfig chan _ _ => chan ∈ s.registered

/-- Complete operations one after the other. -/
def conferences : System State Op where
  start := Idle
  step s op s' := Called s op ∧ applyOp s op = .ok s'

theorem idle_books (idle : Idle s) : Booked s [] 0 := by
  refine ⟨?_, ?_, ?_⟩
  · rw [idle.tables]
    exact ⟨inverse_zero, by simp, by simp, by simp⟩
  · intro a _ x here
    rw [chanInConf, (idle.chans a).2.1, normal_unmixed, Bool.and_false] at here
    cases here
  · intro x _ used
    rw [idle.tables] at used
    exact absurd rfl used

theorem op_books {op : Op} (booked : Booked s [] 0) (step : conferences.step s op s') :
    AliasOk s'.tables ∧ (Booked s' [] 0 ↔ Releases s op) := by
  obtain ⟨called, done⟩ := step
  cases op with
  | setconf file conf kmalloc hw =>
    simp only [applyOp] at done
    cases result : setconf s file conf kmalloc hw with
    | error fault =>
      rw [result] at done
      cases done
    | ok r =>
      rw [result] at done
      obtain rfl := Except.ok.inj done
      exact setconf_books booked result
  | close chan =>
    have after := (close_books (booked_more booked chan) done).1
    exact ⟨after.tables, iff_of_true after trivial⟩
  | reinit chan => exact reinit_books booked called done
  | unregister chans =>
    have after := unregister_books booked done
    exact ⟨after.tables, iff_of_true after trivial⟩
  | chanconfig chan clear dacs =>
    obtain rfl := Except.ok.inj done
    exact chanconfig_books booked called

theorem books_run (reached : Reach conferences Releases s) : Booked s [] 0 := by
  refine @invariant_run _ _ _ _ (fun s => Booked s [] 0) ?_ ?_ s reached
  · intro s idle
    exact idle_books idle
  · intro s op s' booked releases step
    exact (op_books booked step).2.mpr releases

/-- The bookkeeping is right in every state, and an operation keeps it so just when
    it does not forget the conference it empties. -/
theorem aliases_follow_members (reached : Reach conferences Releases s) :
    AliasLaw s ∧ ∀ op s', conferences.step s op s' → (AliasLaw s' ↔ Releases s op) := by
  have booked := books_run reached
  refine ⟨law_booked booked, fun op s' step => ?_⟩
  obtain ⟨tables, releases⟩ := op_books booked step
  constructor
  · intro law
    exact releases.mp (booked_law tables law)
  · intro allowed
    exact law_booked (releases.mpr allowed)

end Runs

section Concrete

/-- One span with channels 1 and 2. -/
def freshSpan : State where
  chans a := freshChan (a + 1) false
  spanChans := [0, 1]
  pseudos := []
  tables := ⟨fun _ => 0, fun _ => 0, 0⟩
  sums := ⟨fun _ => silence, fun _ => silence, fun _ => silence⟩

theorem fresh_idle : Idle freshSpan := ⟨rfl, fun _ => ⟨rfl, rfl, rfl⟩⟩

/-- The state after the operations that complete. -/
def afterOps (s : State) : List Op → State
  | [] => s
  | op :: ops =>
    match applyOp s op with
    | .ok s' => afterOps s' ops
    | .error _ => s

/-- Channel 1 joins conference 5 as a talker and a listener. -/
def joinFive : Op := .setconf 0 ⟨1, 5, 0x304⟩ true 0

theorem join_five : applyOp freshSpan joinFive = .ok (afterOps freshSpan [joinFive]) := rfl

/-- A channel that is initialized again leaves the alias of its conference behind. -/
theorem reinit_keeps_alias : ∃ s, Reach conferences anyStep s ∧ ¬ AliasLaw s := by
  have first : conferences.step freshSpan joinFive (afterOps freshSpan [joinFive]) :=
    ⟨trivial, join_five⟩
  have second : conferences.step (afterOps freshSpan [joinFive]) (.reinit 0)
      (afterOps freshSpan [joinFive, .reinit 0]) := by
    have inside : 0 ∈ (afterOps freshSpan [joinFive]).registered := by decide +kernel
    exact ⟨inside, rfl⟩
  refine ⟨_, .step (.step (.start fresh_idle) trivial first) trivial second, fun law => ?_⟩
  have used : (afterOps freshSpan [joinFive, .reinit 0]).tables.confalias 5 ≠ 0 := by
    decide +kernel
  obtain ⟨a, inside, here⟩ := (law.owned 5).mp used
  have nobody : ∀ a ∈ (afterOps freshSpan [joinFive, .reinit 0]).registered,
      chanInConf ((afterOps freshSpan [joinFive, .reinit 0]).chans a) 5 = false := by
    decide +kernel
  rw [nobody a inside] at here
  cases here

theorem aliases_follow_members_join :
    AliasLaw (afterOps freshSpan [joinFive]) ∧
      (afterOps freshSpan [joinFive]).tables.confalias 5 = 1 := by
  have step : conferences.step freshSpan joinFive (afterOps freshSpan [joinFive]) :=
    ⟨trivial, join_five⟩
  have releases : Releases freshSpan joinFive := by
    rintro ⟨chan, confChan, _, _, _, mixing, _⟩
    have unmixed : isMixing (freshSpan.chans chan).confmode = false := normal_unmixed
    rw [unmixed] at mixing
    cases mixing
  refine ⟨(aliases_follow_members (.step (.start fresh_idle) releases step)).1, ?_⟩
  decide +kernel

end Concrete

end ConferenceMembership
