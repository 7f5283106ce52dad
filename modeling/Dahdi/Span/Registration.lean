import Dahdi.Span.SpanOrder

/-!
Registering a device, which assigns its spans one after the other, from
dahdi-base.c. What the kernel answers for /proc and sysfs comes with the span and
the device.
-/
namespace DeviceRegistration
open SpanNumbers SpanOrder OrderedBlocks

section Model

/-- A span of a device: whether its ops have an owner, which preechocan callbacks
    they have, whether proc_create_data gives an entry, and what span_sysfs_create
    returns. -/
structure DeviceSpan where
  span : Span
  owner : Bool
  enableHwPreechocan : Bool
  disableHwPreechocan : Bool
  procEntry : Bool
  sysfs : Int

/-- A device and what dahdi_sysfs_add_device returns for it. -/
structure Device where
  addr : Nat
  spans : List DeviceSpan
  addDevice : Int
  apart : (spans.map fun d => d.span.addr).Nodup
  own : spans.Pairwise fun d u => ∀ c ∈ u.span.chans.map Chan.addr, c ∉ d.span.chans.map Chan.addr

/-- span_list, and DAHDI_FLAGBIT_REGISTERED of the spans and of the channels; the
    devices that sysfs has. -/
structure State where
  spanList : List Span
  spanFlags : Nat → Bool
  chanFlags : Nat → Bool
  devices : Nat → Bool

def einval : Int := -22
def efault : Int := -14

/-- dahdi_chan_reg for each channel of a span, or dahdi_chan_unreg. -/
def flagChans (span : Span) (registered : Bool) (flags : Nat → Bool) : Nat → Bool :=
  fun c => if c ∈ span.chans.map Chan.addr then registered else flags c

/-- _dahdi_assign_span for the first place that is free. -/
def assignSpan (s : State) (d : DeviceSpan) : Option (Int × State) :=
  if !d.owner then some (efault, s)
  else if s.spanFlags d.span.addr then some (einval, s)
  else if d.enableHwPreechocan != d.disableHwPreechocan then some (efault, s)
  else
    match assignSpannoAndBasechan s.spanList d.span with
    | none => none
    | some span =>
      let s := { s with chanFlags := flagChans span true s.chanFlags }
      let cleanup := { s with chanFlags := flagChans span false s.chanFlags }
      if !d.procEntry then some (efault, cleanup)
      else if d.sysfs ≠ 0 then some (d.sysfs, cleanup)
      else some (0, { s with
        spanList := addSpanToSpanList span s.spanList
        spanFlags := Function.update s.spanFlags span.addr true })

/-- _dahdi_unassign_span -/
def unassignSpan (s : State) (d : DeviceSpan) : Int × State :=
  if !s.spanFlags d.span.addr then (einval, s)
  else (0, { s with
    spanList := s.spanList.filter fun pos => pos.addr != d.span.addr
    spanFlags := Function.update s.spanFlags d.span.addr false
    chanFlags := flagChans d.span false s.chanFlags })

/-- __dahdi_init_span for each span. A span whose node is on span_list must not have
    it initialized. -/
def initSpans (s : State) (spans : List DeviceSpan) : Option State :=
  if spans.any fun d => s.spanList.any fun pos => pos.addr == d.span.addr then none
  else some { s with
    spanFlags := fun x => if x ∈ spans.map (fun d => d.span.addr) then false else s.spanFlags x }

/-- The loop over the spans of the device. Each span's result replaces the last. -/
def assignSpans : State → Int → List DeviceSpan → Option (Int × State)
  | s, ret, [] => some (ret, s)
  | s, _, d :: rest =>
    match assignSpan s d with
    | none => none
    | some (ret, s) => assignSpans s ret rest

/-- _dahdi_register_device -/
def registerDevice (autoAssignSpans : Bool) (s : State) (ddev : Device) : Option (Int × State) :=
  match initSpans s ddev.spans with
  | none => none
  | some s =>
    if ddev.addDevice ≠ 0 then some (ddev.addDevice, s)
    else
      let s := { s with devices := Function.update s.devices ddev.addr true }
      if !autoAssignSpans then some (0, s)
      else
        match assignSpans s 0 ddev.spans with
        | none => none
        | some (ret, s) =>
          if ret ≠ 0 then
            some (ret, { s with devices := Function.update s.devices ddev.addr false })
          else some (ret, s)

/-- dahdi_unregister_device -/
def unregisterDevice (s : State) (ddev : Device) : State :=
  let s := ddev.spans.foldl (fun s d => (unassignSpan s d).2) s
  { s with devices := Function.update s.devices ddev.addr false }

end Model

section Assign

/-- A span that can be assigned to the first free place. -/
def Assignable (d : DeviceSpan) : Prop :=
  d.owner = true ∧ d.enableHwPreechocan = d.disableHwPreechocan ∧ d.procEntry = true ∧ d.sysfs = 0

def Listed (s : State) (d : DeviceSpan) : Prop := ∃ pos ∈ s.spanList, pos.addr = d.span.addr

def Unregistered (s : State) (d : DeviceSpan) : Prop :=
  ∀ c ∈ d.span.chans, s.chanFlags c.addr = false

variable {s s' : State} {d : DeviceSpan} {ret : Int}

theorem number_addrs (basechan i : Nat) (chans : List Chan) :
    (numberFrom basechan i chans).map Chan.addr = chans.map Chan.addr := by
  induction chans generalizing i with
  | nil => rfl
  | cons c rest ih => simp only [numberFrom, List.map_cons, ih]

theorem set_addrs (span : Span) (spanno basechan : Nat) :
    (setSpannoAndBasechan span spanno basechan).addr = span.addr ∧
      (setSpannoAndBasechan span spanno basechan).chans.map Chan.addr = span.chans.map Chan.addr := by
  unfold setSpannoAndBasechan
  exact ⟨rfl, number_addrs basechan 0 span.chans⟩

theorem assign_numbers {l : List Span} {span placed : Span}
    (done : assignSpannoAndBasechan l span = some placed) :
    placed.addr = span.addr ∧ placed.chans.map Chan.addr = span.chans.map Chan.addr := by
  unfold assignSpannoAndBasechan at done
  cases found : assignLoop span.channels l 1 1 with
  | none =>
    rw [found] at done
    simp at done
  | some place =>
    rw [found, Option.map_some, Option.some.injEq] at done
    rw [← done]
    exact set_addrs span place.1 place.2

/-- What _dahdi_assign_span does to a span that is not registered. -/
theorem assign_spec (unregistered : s.spanFlags d.span.addr = false)
    (done : assignSpan s d = some (ret, s')) :
    (Assignable d ∧ ret = 0 ∧ ∃ placed : Span, placed.addr = d.span.addr ∧
      s'.spanList = addSpanToSpanList placed s.spanList ∧
      s'.spanFlags = Function.update s.spanFlags d.span.addr true ∧
      s'.chanFlags = flagChans d.span true s.chanFlags) ∨
    (¬ Assignable d ∧ ret ≠ 0 ∧ s'.spanList = s.spanList ∧ s'.spanFlags = s.spanFlags ∧
      ∀ c, s'.chanFlags c = true → s.chanFlags c = true) := by
  have fault : efault ≠ 0 := by decide
  unfold assignSpan at done
  rw [unregistered] at done
  split at done
  · rename_i nobody
    simp only [Option.some.injEq, Prod.mk.injEq] at done
    obtain ⟨rfl, rfl⟩ := done
    refine Or.inr ⟨fun able => ?_, fault, rfl, rfl, fun _ on => on⟩
    rw [able.1] at nobody
    simp at nobody
  · rename_i somebody
    simp only [Bool.false_eq_true, ↓reduceIte] at done
    split at done
    · rename_i uneven
      simp only [Option.some.injEq, Prod.mk.injEq] at done
      obtain ⟨rfl, rfl⟩ := done
      refine Or.inr ⟨fun able => ?_, fault, rfl, rfl, fun _ on => on⟩
      rw [able.2.1] at uneven
      simp at uneven
    · rename_i even
      split at done
      · simp at done
      · rename_i placed numbered
        obtain ⟨addr, chans⟩ := assign_numbers numbered
        have cleaned (c : Nat) (on : flagChans placed false (flagChans placed true s.chanFlags) c = true) :
            s.chanFlags c = true := by
          unfold flagChans at on
          split at on
          · simp at on
          · exact on
        split at done
        · rename_i unproc
          simp only [Option.some.injEq, Prod.mk.injEq] at done
          obtain ⟨rfl, rfl⟩ := done
          refine Or.inr ⟨fun able => ?_, fault, rfl, rfl, cleaned⟩
          rw [able.2.2.1] at unproc
          simp at unproc
        · rename_i proc
          split at done
          · rename_i failed
            simp only [Option.some.injEq, Prod.mk.injEq] at done
            obtain ⟨rfl, rfl⟩ := done
            exact Or.inr ⟨fun able => failed able.2.2.2, failed, rfl, rfl, cleaned⟩
          · rename_i created
            simp only [Option.some.injEq, Prod.mk.injEq] at done
            obtain ⟨rfl, rfl⟩ := done
            refine Or.inl ⟨⟨by simpa using somebody, by simpa using even, by simpa using proc,
              not_not.mp created⟩, rfl, placed, addr, rfl, by rw [addr], ?_⟩
            unfold flagChans
            rw [chans]

/-- What the spans so far have left for the others. -/
structure Untouched (s : State) (rest : List DeviceSpan) : Prop where
  apart : (rest.map fun d => d.span.addr).Nodup
  unregistered : ∀ d ∈ rest, s.spanFlags d.span.addr = false

theorem untouched_step {rest : List DeviceSpan} (untouched : Untouched s (d :: rest))
    (done : assignSpan s d = some (ret, s')) : Untouched s' rest := by
  obtain ⟨other, apart⟩ := List.nodup_cons.mp untouched.apart
  refine ⟨apart, ?_⟩
  intro u member
  have before := untouched.unregistered u (List.mem_cons_of_mem _ member)
  have different : u.span.addr ≠ d.span.addr := by
    intro same
    exact other (List.mem_map.mpr ⟨u, member, same⟩)
  rcases assign_spec (untouched.unregistered d List.mem_cons_self) done with
    ⟨_, _, _, _, _, flags, _⟩ | ⟨_, _, _, flags, _⟩
  · rw [flags, Function.update_of_ne different]
    exact before
  · rw [flags]
    exact before

theorem listed_step {u : DeviceSpan} (unregistered : s.spanFlags d.span.addr = false)
    (done : assignSpan s d = some (ret, s')) (listed : Listed s u) : Listed s' u := by
  obtain ⟨pos, member, addr⟩ := listed
  rcases assign_spec unregistered done with ⟨_, _, placed, _, list, _⟩ | ⟨_, _, list, _⟩
  · refine ⟨pos, ?_, addr⟩
    rw [list, add_insert, mem_insert]
    exact Or.inr member
  · exact ⟨pos, by rw [list]; exact member, addr⟩

/-- The loop lists every span that can be assigned, and changes nothing when there
    is none; its result is that of the last span. -/
theorem assign_all {spans : List DeviceSpan} {ret' : Int} (untouched : Untouched s spans)
    (done : assignSpans s ret spans = some (ret', s')) :
    (∀ u, Listed s u → Listed s' u) ∧ (∀ u ∈ spans, Assignable u → Listed s' u) ∧
    ((∀ u ∈ spans, ¬ Assignable u) →
      s'.spanList = s.spanList ∧ ∀ c, s'.chanFlags c = true → s.chanFlags c = true) ∧
    (ret' = 0 ↔ (spans = [] ∧ ret = 0) ∨ ∃ u, spans.getLast? = some u ∧ Assignable u) := by
  induction spans generalizing s ret with
  | nil =>
    rw [assignSpans, Option.some.injEq, Prod.mk.injEq] at done
    obtain ⟨rfl, rfl⟩ := done
    simp
  | cons d rest ih =>
    rw [assignSpans] at done
    split at done
    · simp at done
    · rename_i first t step
      have fresh := untouched.unregistered d List.mem_cons_self
      obtain ⟨kept, listed, nothing, last⟩ := ih (untouched_step untouched step) done
      have spec := assign_spec fresh step
      refine ⟨fun u before => kept u (listed_step fresh step before), ?_, ?_, ?_⟩
      · intro u member able
        rcases List.mem_cons.mp member with rfl | later
        · apply kept
          rcases spec with ⟨_, _, placed, addr, list, _⟩ | ⟨unable, _⟩
          · refine ⟨placed, ?_, addr⟩
            rw [list, add_insert, mem_insert]
            exact Or.inl rfl
          · exact absurd able unable
        · exact listed u later able
      · intro none_
        rcases spec with ⟨able, _⟩ | ⟨_, _, list, _, flags⟩
        · exact absurd able (none_ d List.mem_cons_self)
        · obtain ⟨after, off⟩ := nothing fun u member => none_ u (List.mem_cons_of_mem _ member)
          refine ⟨after.trans list, ?_⟩
          intro c on
          exact flags c (off c on)
      · rw [last]
        cases rest with
        | nil =>
          simp only [List.getLast?_singleton, Option.some.injEq, List.getLast?_nil]
          rcases spec with ⟨able, zero, _⟩ | ⟨unable, failed, _⟩
          · simp [able, zero]
          · simp [unable, failed]
        | cons u rest => simp [List.getLast?_cons_cons]

end Assign

section Register
variable {auto_ : Bool} {s s' : State} {ddev : Device} {ret : Int}

/-- None of the device's spans is on span_list and none of its channels registered. -/
def Clean (s : State) (ddev : Device) : Prop :=
  ∀ d ∈ ddev.spans, ¬ Listed s d ∧ Unregistered s d

/-- A device whose channels are not in use. -/
def Fresh (s : State) (ddev : Device) : Prop := ∀ d ∈ ddev.spans, Unregistered s d

theorem init_spec {spans : List DeviceSpan} (done : initSpans s spans = some s') :
    (∀ d ∈ spans, ¬ Listed s d) ∧ s'.spanList = s.spanList ∧ s'.chanFlags = s.chanFlags ∧
      ∀ d ∈ spans, s'.spanFlags d.span.addr = false := by
  unfold initSpans at done
  split at done
  · simp at done
  · rename_i unlisted
    obtain rfl := (Option.some.inj done).symm
    refine ⟨?_, rfl, rfl, ?_⟩
    · rintro d member ⟨pos, there, addr⟩
      apply unlisted
      rw [List.any_eq_true]
      refine ⟨d, member, ?_⟩
      rw [List.any_eq_true]
      exact ⟨pos, there, by simpa using addr⟩
    · intro d member
      exact if_pos (List.mem_map.mpr ⟨d, member, rfl⟩)

theorem clean_unchanged (fresh : Fresh s ddev) (unlisted : ∀ d ∈ ddev.spans, ¬ Listed s d)
    (list : s'.spanList = s.spanList) (off : ∀ c, s'.chanFlags c = true → s.chanFlags c = true) :
    Clean s' ddev := by
  intro d member
  constructor
  · rintro ⟨pos, there, addr⟩
    rw [list] at there
    exact unlisted d member ⟨pos, there, addr⟩
  · intro c inside
    by_contra on
    rw [Bool.not_eq_false] at on
    have before := fresh d member c inside
    rw [off c.addr on] at before
    simp at before

/-- Registration that fails leaves nothing behind exactly when it fails before the
    spans are assigned, no span can be assigned, or the last span can, so that the
    call does not fail. -/
theorem register_atomic_iff (fresh : Fresh s ddev)
    (done : registerDevice auto_ s ddev = some (ret, s')) :
    (ret ≠ 0 → Clean s' ddev) ↔
      (ddev.addDevice ≠ 0 ∨ auto_ = false ∨ (∀ d ∈ ddev.spans, ¬ Assignable d) ∨
        ∃ d, ddev.spans.getLast? = some d ∧ Assignable d) := by
  unfold registerDevice at done
  split at done
  · simp at done
  · rename_i t initialized
    obtain ⟨unlisted, list, chans, flags⟩ := init_spec initialized
    have clean {u : State} (same : u.spanList = t.spanList)
        (off : ∀ c, u.chanFlags c = true → t.chanFlags c = true) : Clean u ddev := by
      apply clean_unchanged fresh unlisted (same.trans list)
      intro c on
      rw [← chans]
      exact off c on
    split at done
    · rename_i failed
      simp only [Option.some.injEq, Prod.mk.injEq] at done
      obtain ⟨rfl, rfl⟩ := done
      exact ⟨fun _ => Or.inl failed, fun _ _ => clean rfl fun _ on => on⟩
    · rename_i added
      split at done
      · rename_i manual
        simp only [Option.some.injEq, Prod.mk.injEq] at done
        obtain ⟨rfl, rfl⟩ := done
        exact ⟨fun _ => Or.inr (Or.inl (by simpa using manual)), fun _ failed => absurd rfl failed⟩
      · rename_i automatic
        dsimp only at done
        split at done
        · simp at done
        · rename_i first u looped
          have untouched : Untouched { t with devices := Function.update t.devices ddev.addr true }
              ddev.spans := ⟨ddev.apart, flags⟩
          obtain ⟨_, listed, nothing, last⟩ := assign_all untouched looped
          have result : ret = first ∧ s'.spanList = u.spanList ∧ s'.chanFlags = u.chanFlags := by
            split at done
            · simp only [Option.some.injEq, Prod.mk.injEq] at done
              obtain ⟨rfl, rfl⟩ := done
              exact ⟨rfl, rfl, rfl⟩
            · simp only [Option.some.injEq, Prod.mk.injEq] at done
              obtain ⟨rfl, rfl⟩ := done
              exact ⟨rfl, rfl, rfl⟩
          obtain ⟨rfl, list', chans'⟩ := result
          constructor
          · intro rolled
            by_cases failed : ret = 0
            · rcases last.mp failed with ⟨empty, _⟩ | able
              · refine Or.inr (Or.inr (Or.inl ?_))
                intro d member
                rw [empty] at member
                simp at member
              · exact Or.inr (Or.inr (Or.inr able))
            · refine Or.inr (Or.inr (Or.inl ?_))
              intro d member able
              obtain ⟨pos, there, addr⟩ := listed d member able
              exact (rolled failed d member).1 ⟨pos, by rw [list']; exact there, addr⟩
          · rintro (failed | manual | none_ | able) failed'
            · exact absurd failed added
            · rw [manual] at automatic
              simp at automatic
            · obtain ⟨same, off⟩ := nothing none_
              apply clean (list'.trans same)
              intro c on
              rw [chans'] at on
              exact off c on
            · exact absurd (last.mpr (Or.inr able)) failed'

end Register

section Unregister
variable {s s' : State} {d u : DeviceSpan} {ddev : Device} {ret : Int}

/-- A span without its flag is not listed and has no registered channel. -/
def Matched (s : State) (d : DeviceSpan) : Prop :=
  s.spanFlags d.span.addr = false → ¬ Listed s d ∧ Unregistered s d

theorem matched_assigned (unregistered : s.spanFlags d.span.addr = false) (matched : Matched s d)
    (done : assignSpan s d = some (ret, s')) : Matched s' d := by
  intro off
  rcases assign_spec unregistered done with ⟨_, _, _, _, _, flags, _⟩ | ⟨_, _, list, flags, fewer⟩
  · rw [flags, Function.update_self] at off
    simp at off
  · obtain ⟨unlisted, before⟩ := matched unregistered
    constructor
    · rintro ⟨pos, there, addr⟩
      exact unlisted ⟨pos, by rw [← list]; exact there, addr⟩
    · intro c inside
      by_contra on
      rw [Bool.not_eq_false] at on
      have also := fewer c.addr on
      rw [before c inside] at also
      simp at also

theorem matched_other (unregistered : s.spanFlags d.span.addr = false)
    (different : u.span.addr ≠ d.span.addr)
    (own : ∀ c ∈ u.span.chans.map Chan.addr, c ∉ d.span.chans.map Chan.addr) (matched : Matched s u)
    (done : assignSpan s d = some (ret, s')) : Matched s' u := by
  intro off
  rcases assign_spec unregistered done with ⟨_, _, placed, here, list, flags, chans⟩ |
    ⟨_, _, list, flags, fewer⟩
  · rw [flags, Function.update_of_ne different] at off
    obtain ⟨unlisted, before⟩ := matched off
    constructor
    · rintro ⟨pos, there, addr⟩
      rw [list, add_insert, mem_insert] at there
      rcases there with rfl | there
      · exact different (addr.symm.trans here)
      · exact unlisted ⟨pos, there, addr⟩
    · intro c inside
      rw [chans, flagChans, if_neg (own c.addr (List.mem_map_of_mem inside))]
      exact before c inside
  · rw [flags] at off
    obtain ⟨unlisted, before⟩ := matched off
    constructor
    · rintro ⟨pos, there, addr⟩
      exact unlisted ⟨pos, by rw [← list]; exact there, addr⟩
    · intro c inside
      by_contra on
      rw [Bool.not_eq_false] at on
      have also := fewer c.addr on
      rw [before c inside] at also
      simp at also

theorem matched_all {spans : List DeviceSpan} {ret' : Int} (untouched : Untouched s spans)
    (done : assignSpans s ret spans = some (ret', s')) :
    (∀ u, Matched s u → (∀ d ∈ spans, u.span.addr ≠ d.span.addr ∧
      ∀ c ∈ u.span.chans.map Chan.addr, c ∉ d.span.chans.map Chan.addr) → Matched s' u) := by
  induction spans generalizing s ret with
  | nil =>
    rw [assignSpans, Option.some.injEq, Prod.mk.injEq] at done
    rw [← done.2]
    exact fun u matched _ => matched
  | cons d rest ih =>
    rw [assignSpans] at done
    split at done
    · simp at done
    · rename_i first t step
      intro u matched others
      obtain ⟨different, own⟩ := others d List.mem_cons_self
      have fresh := untouched.unregistered d List.mem_cons_self
      apply ih (untouched_step untouched step) done u (matched_other fresh different own matched step)
      intro d' member
      exact others d' (List.mem_cons_of_mem _ member)

theorem matched_spans {spans : List DeviceSpan} {ret' : Int} (untouched : Untouched s spans)
    (own : spans.Pairwise fun d u => ∀ c ∈ u.span.chans.map Chan.addr, c ∉ d.span.chans.map Chan.addr)
    (matched : ∀ u ∈ spans, Matched s u) (done : assignSpans s ret spans = some (ret', s')) :
    ∀ u ∈ spans, Matched s' u := by
  induction spans generalizing s ret with
  | nil => simp
  | cons d rest ih =>
    rw [assignSpans] at done
    split at done
    · simp at done
    · rename_i first t step
      obtain ⟨before, later⟩ := List.pairwise_cons.mp own
      obtain ⟨other, _⟩ := List.nodup_cons.mp untouched.apart
      have fresh := untouched.unregistered d List.mem_cons_self
      have next := untouched_step untouched step
      have different (u : DeviceSpan) (member : u ∈ rest) : u.span.addr ≠ d.span.addr := by
        intro same
        exact other (List.mem_map.mpr ⟨u, member, same⟩)
      intro u member
      rcases List.mem_cons.mp member with rfl | inside
      · apply matched_all next done u (matched_assigned fresh (matched u List.mem_cons_self) step)
        intro v inside
        refine ⟨(different v inside).symm, ?_⟩
        intro c mine yours
        exact before v inside c yours mine
      · apply ih next later _ done u inside
        intro v inside
        exact matched_other fresh (different v inside) (before v inside)
          (matched v (List.mem_cons_of_mem _ inside)) step

/-- Whatever a registration returns, the flags tell what it has left behind. -/
theorem register_matched {auto_ : Bool} (fresh : Fresh s ddev)
    (done : registerDevice auto_ s ddev = some (ret, s')) : ∀ d ∈ ddev.spans, Matched s' d := by
  unfold registerDevice at done
  split at done
  · simp at done
  · rename_i t initialized
    obtain ⟨unlisted, list, chans, flags⟩ := init_spec initialized
    have start : ∀ d ∈ ddev.spans, Matched t d := by
      intro d member _
      constructor
      · rintro ⟨pos, there, addr⟩
        rw [list] at there
        exact unlisted d member ⟨pos, there, addr⟩
      · intro c inside
        rw [chans]
        exact fresh d member c inside
    split at done
    · simp only [Option.some.injEq, Prod.mk.injEq] at done
      rw [← done.2]
      exact start
    · dsimp only at done
      split at done
      · simp only [Option.some.injEq, Prod.mk.injEq] at done
        rw [← done.2]
        exact start
      · split at done
        · simp at done
        · rename_i first u looped
          have after := @matched_spans { t with devices := Function.update t.devices ddev.addr true } u _ _ _
            ⟨ddev.apart, flags⟩ ddev.own start looped
          split at done
          · simp only [Option.some.injEq, Prod.mk.injEq] at done
            rw [← done.2]
            exact after
          · simp only [Option.some.injEq, Prod.mk.injEq] at done
            rw [← done.2]
            exact after

theorem unassign_clean (matched : Matched s d) :
    ¬ Listed (unassignSpan s d).2 d ∧ Unregistered (unassignSpan s d).2 d := by
  unfold unassignSpan
  split
  · rename_i off
    exact matched (by simpa using off)
  · constructor
    · rintro ⟨pos, there, addr⟩
      rw [List.mem_filter] at there
      simp [addr] at there
    · intro c inside
      exact if_pos (List.mem_map_of_mem inside)

theorem clean_kept (d : DeviceSpan) (clean : ¬ Listed s u ∧ Unregistered s u) :
    ¬ Listed (unassignSpan s d).2 u ∧ Unregistered (unassignSpan s d).2 u := by
  obtain ⟨unlisted, unregistered⟩ := clean
  unfold unassignSpan
  split
  · exact ⟨unlisted, unregistered⟩
  · constructor
    · rintro ⟨pos, there, addr⟩
      exact unlisted ⟨pos, (List.mem_filter.mp there).1, addr⟩
    · intro c inside
      have before := unregistered c inside
      unfold flagChans
      dsimp only
      split
      · rfl
      · exact before

theorem matched_unassigned (different : u.span.addr ≠ d.span.addr) (matched : Matched s u) :
    Matched (unassignSpan s d).2 u := by
  intro off
  apply clean_kept d
  apply matched
  unfold unassignSpan at off
  split at off
  · exact off
  · dsimp only at off
    rw [Function.update_of_ne different] at off
    exact off

theorem unassign_all {spans : List DeviceSpan} (apart : (spans.map fun d => d.span.addr).Nodup)
    (matched : ∀ u ∈ spans, Matched s u) (u : DeviceSpan)
    (here : u ∈ spans ∨ (¬ Listed s u ∧ Unregistered s u)) :
    ¬ Listed (spans.foldl (fun s d => (unassignSpan s d).2) s) u ∧
      Unregistered (spans.foldl (fun s d => (unassignSpan s d).2) s) u := by
  induction spans generalizing s with
  | nil =>
    rcases here with member | clean
    · simp at member
    · exact clean
  | cons d rest ih =>
    obtain ⟨other, apart⟩ := List.nodup_cons.mp apart
    apply ih apart
    · intro v member
      apply matched_unassigned _ (matched v (List.mem_cons_of_mem _ member))
      intro same
      exact other (List.mem_map.mpr ⟨v, member, same⟩)
    · rcases here with member | clean
      · rcases List.mem_cons.mp member with rfl | later
        · exact Or.inr (unassign_clean (matched u List.mem_cons_self))
        · exact Or.inl later
      · exact Or.inr (clean_kept d clean)

/-- dahdi_unregister_device leaves nothing behind, whatever the registration
    returned. -/
theorem register_unregister_clean {auto_ : Bool} (fresh : Fresh s ddev)
    (done : registerDevice auto_ s ddev = some (ret, s')) : Clean (unregisterDevice s' ddev) ddev := by
  intro d member
  exact unassign_all ddev.apart (register_matched fresh done) d (Or.inl member)

end Unregister

section Examples

def oneChan (addr : Nat) (enable : Bool) : DeviceSpan :=
  ⟨⟨addr, 0, [⟨addr + 100, 0⟩]⟩, true, enable, false, true, 0⟩

/-- A device whose second span has enable_hw_preechocan and no disable_hw_preechocan. -/
def halfDevice : Device where
  addr := 0
  spans := [oneChan 1 false, oneChan 2 true]
  addDevice := 0
  apart := by decide
  own := by decide

def emptyState : State := ⟨[], fun _ => false, fun _ => false, fun _ => false⟩

theorem empty_fresh (ddev : Device) : Fresh emptyState ddev := by
  intro d _ c _
  rfl

/-- The call returns an error, and the first span stays on span_list with its channel
    registered. -/
theorem first_span_left : Fresh emptyState halfDevice ∧ ∃ s', registerDevice true emptyState halfDevice =
    some (efault, s') ∧ s'.spanList.map Span.addr = [1] ∧ s'.chanFlags 101 = true ∧
      ¬ Clean s' halfDevice := by
  refine ⟨empty_fresh halfDevice, _, rfl, ?_, ?_, ?_⟩
  · decide +kernel
  · decide +kernel
  · intro clean
    have listed := (clean (oneChan 1 false) List.mem_cons_self).1
    apply listed
    exact ⟨_, List.mem_cons_self, rfl⟩

theorem register_unregister_clean_half : ∃ ret s', registerDevice true emptyState halfDevice = some (ret, s') ∧
    Clean (unregisterDevice s' halfDevice) halfDevice := by
  obtain ⟨s', done⟩ : ∃ s', registerDevice true emptyState halfDevice = some (efault, s') := ⟨_, rfl⟩
  exact ⟨efault, s', done, register_unregister_clean (empty_fresh halfDevice) done⟩

def brokenDevice : Device where
  addr := 0
  spans := [oneChan 1 true, oneChan 2 true]
  addDevice := 0
  apart := by decide
  own := by decide

theorem register_atomic_broken : ∃ s', registerDevice true emptyState brokenDevice = some (efault, s') ∧
    Clean s' brokenDevice := by
  have done : ∃ s', registerDevice true emptyState brokenDevice = some (efault, s') := ⟨_, rfl⟩
  obtain ⟨s', done⟩ := done
  refine ⟨s', done, (register_atomic_iff (empty_fresh brokenDevice) done).mpr ?_ (by decide)⟩
  refine Or.inr (Or.inr (Or.inl ?_))
  intro d member able
  have even := able.2.1
  rcases List.mem_cons.mp member with rfl | later
  · simp [oneChan] at even
  · rw [List.mem_singleton.mp later] at even
    simp [oneChan] at even

end Examples

end DeviceRegistration
