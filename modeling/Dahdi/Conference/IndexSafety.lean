import Dahdi.Library.GuardedRun
import Dahdi.Conference.Turns

/-!
Every index into confalias, confrev and the accumulators is inside the arrays, as long
as a monitored channel has a number that a conference could have and a new conference
finds an alias.
-/
namespace ConferenceIndex
open Conference GuardedRun InverseTables

/-- What DAHDI_SETCONF and the ticks keep so that no index goes astray. -/
structure Safe (s : State) : Prop where
  tables : AliasOk s.tables
  size : s.tables.maxconfs ≤ maxConf
  confn : ∀ a ∈ s.registered, isMixing (s.chans a).confmode = true → inBounds (s.chans a).confn
  confna : ∀ a ∈ s.registered, (s.chans a).confna ≤ maxConf
  monitored : ∀ a ∈ s.registered, monitors (s.chans a).confmode = true →
    (s.chans a).confChan ≠ none

section Tables
variable {t t' : Tables} {x a : Int}

theorem maxconfs_size (confrev : Int → Int) (x : Nat) : maxconfsFrom confrev x ≤ x + 1 := by
  induction x with
  | zero => simp [maxconfsFrom]
  | succ x ih =>
    unfold maxconfsFrom
    split
    · omega
    · omega

theorem recalc_size (t : Tables) : (recalcMaxconfs t).maxconfs ≤ maxConf := by
  have bound := maxconfs_size t.confrev (maxConf - 1).toNat
  simp only [recalcMaxconfs, maxConf] at bound ⊢
  omega

theorem get_alias_size (size : t.maxconfs ≤ maxConf) (given : getConfAlias t x = .ok (a, t')) :
    t'.maxconfs ≤ maxConf := by
  unfold getConfAlias at given
  split at given
  · cases given
  · split at given
    · obtain ⟨_, rfl⟩ := Prod.mk.inj (Except.ok.inj given)
      exact size
    · simp only at given
      split at given
      · cases given
      · obtain ⟨_, rfl⟩ := Prod.mk.inj (Except.ok.inj given)
        exact recalc_size _

theorem clear_alias_size (cleared : clearAlias t x = .ok t') : t'.maxconfs ≤ maxConf := by
  unfold clearAlias at cleared
  split at cleared
  · cases cleared
  · obtain rfl := Except.ok.inj cleared
    exact recalc_size _

end Tables

section Setconf
variable {s s' : State} {chan : Nat} {confChan : Option Nat} {x confno : Int} {confmode : Confmode}

theorem safe_tables {t : Tables} (safe : Safe s) (ok : AliasOk t) (size : t.maxconfs ≤ maxConf) :
    Safe (setTables s t) := ⟨ok, size, safe.confn, safe.confna, safe.monitored⟩

theorem safe_change {c : Chan} (safe : Safe s)
    (confn : isMixing c.confmode = true → inBounds c.confn) (confna : c.confna ≤ maxConf)
    (monitored : monitors c.confmode = true → c.confChan ≠ none) : Safe (setChan s chan c) := by
  refine ⟨safe.tables, safe.size, ?_, ?_, ?_⟩
  · intro a inside mixing
    by_cases here : a = chan
    · rw [here, set_chan_same] at mixing ⊢
      exact confn mixing
    · rw [set_chan_other s c here] at mixing ⊢
      exact safe.confn a inside mixing
  · intro a inside
    by_cases here : a = chan
    · rw [here, set_chan_same]
      exact confna
    · rw [set_chan_other s c here]
      exact safe.confna a inside
  · intro a inside monitor
    by_cases here : a = chan
    · rw [here, set_chan_same] at monitor ⊢
      exact monitored monitor
    · rw [set_chan_other s c here] at monitor ⊢
      exact safe.monitored a inside monitor

/-- Only the place of the channels in their conferences matters. -/
theorem safe_congr (safe : Safe s) (tables : s'.tables = s.tables)
    (registered : s'.registered = s.registered)
    (same : ∀ a, (s'.chans a).confna = (s.chans a).confna ∧
      (s'.chans a).confmode = (s.chans a).confmode ∧ (s'.chans a).confn = (s.chans a).confn ∧
      (s'.chans a).confChan = (s.chans a).confChan) : Safe s' := by
  obtain ⟨ok, size, confn, confna, monitored⟩ := safe
  refine ⟨by rw [tables]; exact ok, by rw [tables]; exact size, ?_, ?_, ?_⟩
  · intro a inside mixing
    obtain ⟨_, mode, number, _⟩ := same a
    rw [registered] at inside
    rw [mode] at mixing
    rw [number]
    exact confn a inside mixing
  · intro a inside
    rw [registered] at inside
    rw [(same a).1]
    exact confna a inside
  · intro a inside monitor
    obtain ⟨_, mode, _, target⟩ := same a
    rw [registered] at inside
    rw [mode] at monitor
    rw [target]
    exact monitored a inside monitor

theorem safe_preec (safe : Safe s) (p : Nat) (allocated : Bool) : Safe (setPreec s p allocated) := by
  refine safe_congr safe rfl rfl fun a => ?_
  by_cases here : a = p
  · rw [setPreec, here, set_chan_same]
    exact ⟨rfl, rfl, rfl, rfl⟩
  · rw [setPreec, set_chan_other s _ here]
    exact ⟨rfl, rfl, rfl, rfl⟩

/-- dahdi_check_conf of a number that a conference can have. -/
theorem check_safe (safe : Safe s) (high : x ≤ maxConf) : ∃ s', checkConf s false x = .ok s' ∧
    Safe s' ∧ s'.registered = s.registered ∧ s'.chans = s.chans ∧
    (s' = s ∨ s.tables.confalias x ≠ 0 ∧ FreeAlias s'.tables ∧
      ∀ y, y ≠ x → s'.tables.confalias y = s.tables.confalias y) := by
  rcases check_conf_spec (x := x) safe.tables false with
    ⟨outside, low, _⟩ | ⟨_, locked, _⟩ | ⟨_, done⟩ | ⟨_, used, t, cleared, done, ok, confalias⟩
  · exact absurd ⟨by omega, high⟩ outside
  · cases locked
  · exact ⟨s, done, safe, rfl, rfl, Or.inl rfl⟩
  · refine ⟨_, done, safe_tables safe ok (clear_alias_size cleared), rfl, rfl, Or.inr ⟨used, ?_, ?_⟩⟩
    · have range := safe.tables.conf x used
      obtain ⟨low, below, _⟩ := alias_range safe.tables used
      obtain ⟨t', same, _, _, confrev⟩ := clear_alias_spec (x := x) safe.tables ⟨by omega, high⟩
      obtain rfl := Except.ok.inj (cleared.symm.trans same)
      refine ⟨s.tables.confalias x, low, below, ?_⟩
      rw [set_tables_tables, confrev, Function.update_self]
    · intro y other
      rw [set_tables_tables, confalias, Function.update_of_ne other]

theorem joining_fields (c : Chan) (confChan : Option Nat) (confno : Int) (confmode : Confmode) :
    (joining c confChan confno confmode).confn = 0 ∧
      (joining c confChan confno confmode).confChan = confChan := by
  simp only [joining, and_self]

/-- The critical section of dahdi_ioctl_setconf, for a number that a conference can have. -/
theorem join_safe (safe : Safe s) (high : confno ≤ maxConf)
    (low : isMixing confmode = true → 1 ≤ confno)
    (monitored : monitors confmode = true → confChan ≠ none) :
    ((∃ s', setconfJoin s chan confChan confno confmode = .ok s') ↔
      (isMixing confmode = true → s.tables.confalias confno ≠ 0 ∨ FreeAlias s.tables)) ∧
    ∀ s', setconfJoin s chan confChan confno confmode = .ok s' → Safe s' := by
  have plain : Safe (setChan s chan (joining (s.chans chan) confChan confno confmode)) := by
    obtain ⟨confn, target⟩ := joining_fields (s.chans chan) confChan confno confmode
    refine safe_change safe ?_ ?_ ?_
    · intro _
      rw [confn]
      decide
    · rw [joining_confna]
      exact high
    · rw [joining_confmode, target]
      exact monitored
  have joined : ∀ a t, getConfAlias s.tables confno = .ok (a, t) → inBounds a → AliasOk t →
      isMixing confmode = true →
      Safe (setTables (setChan s chan
        { joining (s.chans chan) confChan confno confmode with confn := a }) t) := by
    intro a t given inside ok mixing
    have target := (joining_fields (s.chans chan) confChan confno confmode).2
    refine safe_tables (safe_change safe (fun _ => inside) ?_ ?_) ok (get_alias_size safe.size given)
    · simp only [joining_confna]
      exact high
    · simp only [joining_confmode, target]
      exact monitored
  unfold setconfJoin
  simp only
  split
  · rename_i mixing
    have low := low mixing.2
    rcases get_alias_spec safe.tables low high with
      ⟨used, given⟩ | ⟨unused, full, fault⟩ | ⟨unused, a, t, given, first, last, free, ok, _, _⟩
    · rw [given]
      refine ⟨iff_of_true ⟨_, rfl⟩ fun _ => Or.inl used, fun s' done => ?_⟩
      obtain rfl := Except.ok.inj done
      exact joined _ _ given (alias_in_bounds safe.tables confno) safe.tables mixing.2
    · rw [fault]
      refine ⟨iff_of_false ?_ ?_, ?_⟩
      · rintro ⟨s', done⟩
        cases done
      · intro room
        rcases room mixing.2 with used | free
        · exact used unused
        · exact full free
      · intro s' done
        cases done
    · rw [given]
      refine ⟨iff_of_true ⟨_, rfl⟩ fun _ => Or.inr ⟨a, first, last, free⟩, fun s' done => ?_⟩
      obtain rfl := Except.ok.inj done
      exact joined _ _ given ⟨by omega, by omega⟩ ok mixing.2
  · rename_i unmixed
    have gone : isMixing confmode = false := by
      by_contra mixing
      simp only [Bool.not_eq_false] at mixing
      have := low mixing
      exact unmixed ⟨by omega, mixing⟩
    refine ⟨iff_of_true ⟨_, rfl⟩ ?_, ?_⟩
    · intro mixing
      rw [gone] at mixing
      cases mixing
    · intro s' done
      obtain rfl := Except.ok.inj done
      exact plain

theorem preec_safe {kmalloc : Bool} (safe : Safe s) :
    Safe (setconfPreec s confChan confmode kmalloc).2 := by
  unfold setconfPreec
  cases confChan with
  | none => exact safe
  | some p =>
    simp only
    split
    · split
      · exact safe_preec safe p true
      · exact safe
    · exact safe_preec safe p false

theorem finish_safe {oldconf hw : Int} {kmalloc : Bool} (safe : Safe s) (high : oldconf ≤ maxConf) :
    ∃ r s', setconfFinish s oldconf confChan confmode kmalloc hw = .ok (r, s') ∧ Safe s' := by
  have after := @preec_safe s confChan confmode kmalloc safe
  unfold setconfFinish
  split
  · rename_i s₁ p result
    rw [result] at after
    refine ⟨_, _, rfl, ?_⟩
    split
    · exact safe_preec after p false
    · exact after
  · rename_i preec s₁ _ result
    rw [result] at after
    obtain ⟨s₂, checked, safe₂, _⟩ := check_safe after high
    exact ⟨0, s₂, by rw [checked]; rfl, safe₂⟩

/-- The number of a monitored channel is one that a conference could have, and a
    conference that needs an alias finds one. -/
def Fits (s : State) (file : Nat) (conf : Confinfo) : Prop :=
  setconfCheck s file conf ≠ none → conf.confno ≤ maxConf ∧
    (isMixing conf.confmode = true → 1 ≤ setconfNumber s.tables conf.confno →
      s.tables.confalias (setconfNumber s.tables conf.confno) ≠ 0 ∨ FreeAlias s.tables)

/-- The check of the new number does not matter to the request. -/
theorem checked_alike {s₁ : State} (range : s.tables.confalias x ≠ 0 → 1 ≤ x)
    (checked : s₁ = s ∨ s.tables.confalias x ≠ 0 ∧ FreeAlias s₁.tables ∧
      ∀ y, y ≠ x → s₁.tables.confalias y = s.tables.confalias y) :
    setconfNumber s₁.tables x = setconfNumber s.tables x ∧
      ((s₁.tables.confalias (setconfNumber s₁.tables x) ≠ 0 ∨ FreeAlias s₁.tables) ↔
        (s.tables.confalias (setconfNumber s.tables x) ≠ 0 ∨ FreeAlias s.tables)) := by
  rcases checked with rfl | ⟨used, free, _⟩
  · exact ⟨rfl, Iff.rfl⟩
  · have low := range used
    have number : ∀ t, setconfNumber t x = x := by
      intro t
      unfold setconfNumber
      rw [if_neg (by omega)]
    rw [number, number]
    exact ⟨rfl, iff_of_true (Or.inr free) (Or.inl used)⟩

theorem setconf_safe {file : Nat} {conf : Confinfo} {kmalloc : Bool} {hw : Int} (safe : Safe s) :
    ((∃ r s', setconf s file conf kmalloc hw = .ok (r, s')) ↔ Fits s file conf) ∧
    ∀ r s', setconf s file conf kmalloc hw = .ok (r, s') → Safe s' := by
  unfold setconf Fits
  split
  · rename_i refused
    refine ⟨iff_of_true ⟨_, _, rfl⟩ fun accepted => absurd refused accepted, ?_⟩
    intro r s' done
    obtain ⟨_, rfl⟩ := Prod.mk.inj (Except.ok.inj done)
    exact safe
  · rename_i chan confChan checked
    obtain ⟨inside, target⟩ := check_inversion checked
    have accepted : setconfCheck s file conf ≠ none := by
      rw [checked]
      exact Option.some_ne_none _
    by_cases high : conf.confno ≤ maxConf
    · obtain ⟨s₁, done₁, safe₁, registered, _, relation⟩ := check_safe safe high
      obtain ⟨number, room⟩ := checked_alike (fun used => (safe.tables.conf _ used).1) relation
      have limit := setconf_number s₁.tables high
      rw [done₁]
      simp only
      rw [← number] at room ⊢
      generalize setconfNumber s₁.tables conf.confno = confno at number room limit ⊢
      split
      · rename_i busy
        refine ⟨iff_of_true ⟨_, _, rfl⟩ fun _ => ⟨high, fun _ low => ?_⟩, ?_⟩
        · omega
        · intro r s' done
          obtain ⟨_, rfl⟩ := Prod.mk.inj (Except.ok.inj done)
          exact safe₁
      · rename_i placed
        have low : isMixing conf.confmode = true → 1 ≤ confno := by
          intro mixing
          by_contra low
          refine placed ⟨by omega, ?_⟩
          intro zero
          rw [zero] at mixing
          cases mixing
        have monitored : monitors conf.confmode = true → confChan ≠ none := by
          intro monitor
          rcases conf_chan_cases target with ⟨_, some⟩ | ⟨none, _⟩
          · exact some
          · rw [none] at monitor
            cases monitor
        obtain ⟨joins, kept⟩ := @join_safe s₁ chan confChan confno conf.confmode safe₁ limit low monitored
        have old := safe₁.confna chan (registered ▸ inside)
        constructor
        · constructor
          · rintro ⟨r, s', done⟩
            refine fun _ => ⟨high, fun mixing _ => room.mp ?_⟩
            split at done
            · cases done
            · rename_i s₂ joined
              exact joins.mp ⟨s₂, joined⟩ mixing
          · intro fits
            obtain ⟨s₂, joined⟩ := joins.mpr fun mixing =>
              room.mpr ((fits accepted).2 mixing (low mixing))
            obtain ⟨r, s', finished, _⟩ := @finish_safe s₂ confChan conf.confmode _ hw kmalloc
              (kept s₂ joined) old
            refine ⟨r, s', ?_⟩
            rw [joined]
            exact finished
        · intro r s' done
          split at done
          · cases done
          · rename_i s₂ joined
            obtain ⟨r', s'', finished, safe'⟩ := @finish_safe s₂ confChan conf.confmode _ hw kmalloc
              (kept s₂ joined) old
            obtain ⟨_, rfl⟩ := Prod.mk.inj (Except.ok.inj (finished.symm.trans done))
            exact safe'
    · have fault : checkConf s false conf.confno = .error .index := by
        have outside : ¬ inBounds conf.confno := fun inside => high inside.2
        have positive : ¬ conf.confno ≤ 0 := by
          simp only [maxConf] at high
          omega
        simp only [checkConf, hasAlias, outside, positive, not_false_eq_true, ↓reduceIte]
      rw [fault]
      refine ⟨iff_of_false ?_ ?_, ?_⟩
      · rintro ⟨r, s', done⟩
        cases done
      · intro fits
        exact high (fits accepted).1
      · intro r s' done
        cases done

end Setconf

section Audio
variable {law : Law} {c : Chan} {sums : Sums} {lin : Chunk} {octets : Octets}

theorem talk_total (sums : Int → Chunk) {k : Int} (inside : inBounds k) (lin : Chunk) :
    ∃ r, talk sums k lin = .ok r := by
  unfold talk
  rw [if_neg (not_not.mpr inside)]
  exact ⟨_, rfl⟩

theorem listen_total (sums : Int → Chunk) {k : Int} (inside : inBounds k) (lin own : Chunk)
    (listening : Bool) :
    ∃ r, (if listening then listenIn sums k lin own else .ok lin) = .ok r := by
  unfold listenIn
  rw [if_neg (not_not.mpr inside)]
  split
  · exact ⟨_, rfl⟩
  · exact ⟨_, rfl⟩

theorem map_total {α β : Type} {e : Except Fault α} (f : α → β) (total : ∃ a, e = .ok a) :
    ∃ b, e.map f = .ok b := by
  obtain ⟨a, rfl⟩ := total
  exact ⟨f a, rfl⟩

theorem put_talk_total (inside : inBounds c.confn) (lin : Chunk) :
    ∃ m, putTalk c sums lin octets = .ok m := by
  unfold putTalk
  split
  · exact map_total _ (talk_total _ inside _)
  · exact ⟨_, rfl⟩

theorem put_mixing_total (inside : inBounds c.confn) :
    ∃ m, putMixing law c sums lin octets = .ok m := by
  unfold putMixing
  simp only
  split
  · obtain ⟨m, talked⟩ := @put_talk_total c sums octets inside lin
    unfold putRealandpseudo
    rw [talked]
    exact map_total _ (listen_total _ inside _ _ _)
  · split
    · unfold putConf
      split
      · exact map_total _ (listen_total _ inside _ _ _)
      · exact put_talk_total inside lin
    · split
      · exact put_talk_total inside lin
      · unfold putConfmon
        rw [if_neg (not_not.mpr inside)]
        simp only
        split
        · exact map_total _ (talk_total _ inside _)
        · exact ⟨_, rfl⟩

theorem get_listen_total (inside : inBounds c.confn) : ∃ m, getListen law c sums lin = .ok m :=
  map_total _ (listen_total _ inside _ _ _)

theorem get_conf_total (inside : inBounds c.confn) : ∃ m, getConf law c sums lin = .ok m := by
  unfold getConf
  split
  · split
    · exact map_total _ (talk_total _ inside _)
    · exact ⟨_, rfl⟩
  · exact get_listen_total inside

theorem get_mixing_total (inside : inBounds c.confn) : ∃ m, getMixing law c sums lin = .ok m := by
  unfold getMixing
  simp only
  split
  · unfold getRealandpseudo
    split
    · obtain ⟨⟨added, next⟩, talked⟩ := talk_total sums.next inside lin
      rw [talked]
      exact @get_conf_total law { c with conflast2 := c.conflast1, conflast1 := added } _ _ inside
    · exact @get_conf_total law { c with conflast1 := silence, conflast2 := silence } _ _ inside
  · split
    · exact get_conf_total inside
    · split
      · exact get_listen_total inside
      · unfold getConfann announce
        rw [if_neg (not_not.mpr inside)]
        exact get_listen_total inside

end Audio

section Ticks
variable {s s' : State} {i : Signal} {a : Nat}

theorem put_monitoring_total {law : Law} {preec : Chunk} {c : Chan} {lin : Chunk} {rxb : Octets}
    (monitored : monitors c.confmode = true → c.confChan ≠ none) :
    ∃ r, putMonitoring s law preec c lin rxb = .ok r := by
  unfold putMonitoring
  split
  · exact ⟨_, rfl⟩
  · rename_i monitor
    simp only [not_or, not_not, Bool.not_eq_false] at monitor
    cases target : c.confChan with
    | none => exact absurd target (monitored monitor.2)
    | some p =>
      simp only
      split
      · exact ⟨_, rfl⟩
      · split
        · exact ⟨_, rfl⟩
        · exact ⟨_, rfl⟩

theorem get_monitoring_total {law : Law} {preec : Chunk} {c : Chan} {lin : Chunk} {txb : Octets}
    (monitored : monitors c.confmode = true → c.confChan ≠ none) :
    ∃ r, getMonitoring s law preec c lin txb = .ok r := by
  unfold getMonitoring
  split
  · split
    · exact ⟨_, rfl⟩
    · exact ⟨_, rfl⟩
  · split
    · exact ⟨_, rfl⟩
    · rename_i monitor
      simp only [not_or, Bool.not_eq_false] at monitor
      cases target : c.confChan with
      | none =>
        refine absurd target (monitored ?_)
        rw [monitors, monitor.2, Bool.or_true]
      | some p =>
        simp only
        split
        · exact ⟨_, rfl⟩
        · exact ⟨_, rfl⟩

theorem turn_safe (safe : Safe s) (turn : Turn s s' a) : Safe s' := by
  refine safe_congr safe turn.tables ?_ fun b => ?_
  · rw [State.registered, State.registered, turn.spanChans, turn.pseudos]
  · have same : role (s'.chans b) = role (s.chans b) := by
      by_cases here : b = a
      · rw [here]
        exact turn.role
      · rw [turn.others b here]
    exact ⟨role_confna same, role_confmode same, role_confn same, role_confChan same⟩

theorem receive_total (safe : Safe s) (inside : a ∈ s.registered) :
    ∃ s', receiveChunk i s a = .ok s' := by
  unfold receiveChunk
  split
  · apply map_total
    unfold processPutaudioChunk
    have started := put_start_role (i.law a) (s.chans a) (i.rx a)
    generalize putStart (i.law a) (s.chans a) (i.rx a) = start at started ⊢
    obtain ⟨c, lin, octets⟩ := start
    simp only at started ⊢
    split
    · split
      · rename_i mixing
        apply map_total
        apply put_mixing_total
        rw [role_confmode started] at mixing
        rw [role_confn started]
        exact safe.confn a inside mixing
      · apply map_total
        apply put_monitoring_total
        rw [role_confmode started, role_confChan started]
        exact safe.monitored a inside
    · exact ⟨_, rfl⟩
  · exact ⟨_, rfl⟩

theorem transmit_total (safe : Safe s) (inside : a ∈ s.registered) :
    ∃ s', transmitChunk i s a = .ok s' := by
  unfold transmitChunk
  split
  · apply map_total
    apply map_total
    unfold getSwitch
    split
    · split
      · rename_i mixing
        exact get_mixing_total (safe.confn a inside mixing)
      · apply map_total
        exact get_monitoring_total (safe.monitored a inside)
    · exact ⟨_, rfl⟩
  · exact ⟨_, rfl⟩

/-- In the course of a tick. -/
def Going (s₀ s : State) : Prop :=
  Safe s ∧ s.spanChans = s₀.spanChans ∧ s.pseudos = s₀.pseudos

theorem going_turn {s₀ : State} (going : Going s₀ s) (turn : Turn s s' a) : Going s₀ s' :=
  ⟨turn_safe going.1 turn, turn.spanChans.trans going.2.1, turn.pseudos.trans going.2.2⟩

theorem conferenced_total {f : State → Nat → Except Fault State} (total : ∃ s', f s a = .ok s') :
    ∃ s', conferenced f s a = .ok s' := by
  unfold conferenced
  split
  · exact ⟨_, rfl⟩
  · exact total

theorem tick_safe (safe : Safe s) (i : Signal) : ∃ s', processMasterspan s i = .ok s' ∧ Safe s' := by
  have real : ∀ t a, a ∈ s.spanChans → Going s t → a ∈ t.registered := by
    intro t a inside going
    rw [State.registered, going.2.1]
    exact List.mem_append_left _ inside
  have pseudo : ∀ t a, a ∈ s.pseudos → Going s t → a ∈ t.registered := by
    intro t a inside going
    rw [State.registered, going.2.2]
    exact List.mem_append_right _ inside
  have start : Going s s := ⟨safe, rfl, rfl⟩
  obtain ⟨s₁, received, going₁⟩ : ∃ s₁,
      visit (conferenced (receiveChunk i)) s.spanChans s = .ok s₁ ∧ Going s s₁ := by
    refine visit_ok (fun t a inside going => ?_) start
    obtain ⟨t', done⟩ := conferenced_total (receive_total (i := i) going.1 (real t a inside going))
    exact ⟨t', done, going_turn going (conferenced_turn receive_turn done)⟩
  have rotated : Going s (rotateSums s₁) :=
    ⟨safe_congr going₁.1 rfl rfl fun _ => ⟨rfl, rfl, rfl, rfl⟩, going₁.2⟩
  obtain ⟨s₂, transmitted, going₂⟩ : ∃ s₂,
      visit (transmitChunk i) s.pseudos (rotateSums s₁) = .ok s₂ ∧ Going s s₂ := by
    refine visit_ok (fun t a inside going => ?_) rotated
    obtain ⟨t', done⟩ := transmit_total (i := i) going.1 (pseudo t a inside going)
    exact ⟨t', done, going_turn going (transmit_turn done)⟩
  obtain ⟨s₃, listened, going₃⟩ : ∃ s₃,
      visit (receiveChunk i) s.pseudos s₂ = .ok s₃ ∧ Going s s₃ := by
    refine visit_ok (fun t a inside going => ?_) going₂
    obtain ⟨t', done⟩ := receive_total (i := i) going.1 (pseudo t a inside going)
    exact ⟨t', done, going_turn going (receive_turn done)⟩
  obtain ⟨s₄, sent, going₄⟩ : ∃ s₄,
      visit (conferenced (transmitChunk i)) s.spanChans s₃ = .ok s₄ ∧ Going s s₄ := by
    refine visit_ok (fun t a inside going => ?_) going₃
    obtain ⟨t', done⟩ := conferenced_total (transmit_total (i := i) going.1 (real t a inside going))
    exact ⟨t', done, going_turn going (conferenced_turn transmit_turn done)⟩
  refine ⟨s₄, ?_, going₄.1⟩
  have pseudos₁ : s₁.pseudos = s.pseudos := going₁.2.2
  unfold processMasterspan
  rw [received]
  simp only [bind, Except.bind]
  rw [pseudos₁, transmitted]
  simp only
  rw [going₂.2.2, listened]
  simp only
  rw [going₃.2.1, sent]

end Ticks

section Runs
variable {s : State}

/-- DAHDI_SETCONF calls, ticks, and channels that are muted or dial. -/
def Requested : Event → Prop
  | .op (.setconf ..) => True
  | .op _ => False
  | .tick _ => True
  | .control .. => True

def requests : System State Event where
  start := Idle
  step s e s' := Requested e ∧ applyEvent s e = .ok s'

def FitsEvent (s : State) : Event → Prop
  | .op (.setconf file conf _ _) => Fits s file conf
  | _ => True

theorem idle_safe (idle : Idle s) : Safe s := by
  have fields := idle.chans
  constructor
  · rw [idle.tables]
    exact ⟨inverse_zero, by simp, by simp, by simp⟩
  · rw [idle.tables]
    decide
  · intro a _ _
    rw [(fields a).2.2]
    decide
  · intro a _
    rw [(fields a).1]
    decide
  · intro a _ monitor
    rw [(fields a).2.1] at monitor
    exact absurd monitor (by decide)

theorem safe_run (reached : Reach requests FitsEvent s) : Safe s := by
  refine @invariant_run _ _ _ _ Safe ?_ ?_ s reached
  · intro s idle
    exact idle_safe idle
  · intro s e s' safe fits step
    obtain ⟨requested, done⟩ := step
    cases e with
    | op o =>
      cases o with
      | setconf file conf kmalloc hw =>
        obtain ⟨⟨r, s₁⟩, called, rfl⟩ := map_ok done
        exact (setconf_safe safe).2 r s₁ called
      | close chan => cases requested
      | reinit chan => cases requested
      | unregister chans => cases requested
      | chanconfig chan clear dacs => cases requested
    | tick i =>
      obtain ⟨s₁, ticked, safe₁⟩ := tick_safe safe i
      obtain rfl := Except.ok.inj (ticked.symm.trans done)
      exact safe₁
    | control chan confmute dialing =>
      obtain rfl := Except.ok.inj done
      refine safe_congr safe rfl rfl fun a => ?_
      by_cases here : a = chan
      · rw [here, set_chan_same]
        exact ⟨rfl, rfl, rfl, rfl⟩
      · rw [set_chan_other s _ here]
        exact ⟨rfl, rfl, rfl, rfl⟩

/-- No tick goes outside the arrays, and a request goes outside them just when the number
    of the channel to be monitored is too large or no alias is left. -/
theorem indices_stay_inside (reached : Reach requests FitsEvent s) :
    (∀ i, ∃ s', processMasterspan s i = .ok s') ∧
    s.tables.maxconfs ≤ maxConf ∧
    (∀ a ∈ s.registered, isMixing (s.chans a).confmode = true → inBounds (s.chans a).confn) ∧
    ∀ file conf kmalloc hw,
      (∃ r s', setconf s file conf kmalloc hw = .ok (r, s')) ↔ Fits s file conf := by
  have safe := safe_run reached
  refine ⟨fun i => ?_, safe.size, safe.confn, fun file conf kmalloc hw => (setconf_safe safe).1⟩
  obtain ⟨s', ticked, _⟩ := tick_safe safe i
  exact ⟨s', ticked⟩

end Runs

section Concrete

/-- Channel 1 of a span and the first pseudo channel. -/
def spanAndPseudo : State where
  chans a := if a = 0 then freshChan 1 false else freshChan 0x8000 true
  spanChans := [0]
  pseudos := [1]
  tables := ⟨fun _ => 0, fun _ => 0, 0⟩
  sums := ⟨fun _ => silence, fun _ => silence, fun _ => silence⟩

theorem unused_idle : Idle spanAndPseudo := by
  refine ⟨rfl, fun a => ?_⟩
  simp only [spanAndPseudo]
  split
  · exact ⟨rfl, rfl, rfl⟩
  · exact ⟨rfl, rfl, rfl⟩

/-- Channel 1 monitors the pseudo channel. -/
theorem monitor_pseudo_outside : ∃ s, Reach requests FitsEvent s ∧
    setconf s 0 ⟨1, 0x8000, 1⟩ true 0 = .error .index :=
  ⟨spanAndPseudo, .start unused_idle, rfl⟩

theorem indices_stay_inside_unused :
    ∃ r s', setconf spanAndPseudo 0 ⟨1, 5, 0x304⟩ true 0 = .ok (r, s') := by
  have fits : Fits spanAndPseudo 0 ⟨1, 5, 0x304⟩ := by
    intro _
    refine ⟨by decide, fun _ _ => Or.inr ⟨1, by decide, by decide, rfl⟩⟩
  exact ((indices_stay_inside (.start unused_idle)).2.2.2 0 ⟨1, 5, 0x304⟩ true 0).mpr fits

end Concrete

end ConferenceIndex
