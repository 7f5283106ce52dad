import Dahdi.Xpp.FrameCustody

/-!
The frames of a bus over whole runs: they are conserved as long as no frame reaches
xframe_receive on a bus that is not connected, and none is read after it was freed as
long as no PCM frame gets as far as a tick.
-/
namespace FrameRuns
open Xframe GuardedRun FrameCustody

/-- xframe_receive does not drop the frame of this task. -/
def TaskHandled (b : Xbus) : Task → Prop
  | .receive f => RPACKET_HEADERSIZE ≤ xframeLen f → b.connected = true
  | _ => True

/-- No frame reaches the CONNECTED test of xframe_receive on a bus that is not
    connected. -/
def Handled (b : Xbus) : Event → Prop
  | .run k _ => ∀ t ∈ b.tasks[k]?, TaskHandled b t
  | _ => True

section events
variable {b b' : Xbus} {f : Frame} {a : Answers}

theorem ok_clear {cleared : Nat} {name : QueueName} (ok : Ok [] b) (stage : b.stage = .closing cleared) :
    Ok [] (xframeQueueClear b cleared name) := by
  have disabled : Ok [] (setQueue b name (setDisabled (b.queues name) true)) := by
    refine ⟨kept_flags ok.kept rfl, clean_set_queue ok.clean fun apart f member => ?_⟩
    exact ok.clean.queues name apart f member
  unfold xframeQueueClear
  simp only
  split
  · obtain ⟨kept, queues, reads, writes, sends⟩ := disabled
    refine ⟨?_, queues, reads, writes, sends⟩
    apply kept_move kept
    · have own : ownReference (.closing (cleared + 1)) = ownReference b.stage := by
        rw [stage]
        rfl
      exact ⟨rfl, rfl, rfl, own, rfl, rfl, rfl⟩
    · intro p
      rfl
  · rename_i f b' taken
    obtain ⟨ok', _⟩ := ok_dequeue disabled taken
    exact ⟨kept_free ok'.kept, clean_free ok'.clean f⟩

/-- A reference taken or given back together with the stage. -/
theorem kept_reference (kept : Kept [] b) {stage : Stage} {connected ops : Bool} {count : Int}
    (refs : count = b.live.length + ownReference stage) (exists_ : ops = false → b.live = []) :
    Kept [] { b with transportRefcount := count, stage := stage, connected := connected, ops := ops } := by
  obtain ⟨place, once, fresh, _, received, _⟩ := kept
  exact ⟨place, once, fresh, refs, received, exists_⟩

theorem ok_send_task {k : Nat} {send : Xbus → Frame → Xbus} (ok : Ok [] b)
    (done : sendTask b k send = some b')
    (kept : ∀ b f, Ok [f] b → f.received = none → Ok [] (send b f)) : Ok [] b' := by
  unfold sendTask at done
  split at done
  · rename_i f here
    cases done
    apply kept _ f (ok_drop ok here)
    exact ok.clean.sends f (List.mem_of_getElem? here)
  · cases done

theorem ok_event {e : Event} (ok : Ok [] b) (handled : Handled b e) (done : applyEvent b e = some b') :
    Ok [] b' := by
  cases e with
  | listen =>
    cases done
    exact ok_add ok fun g same => by cases same
  | urbRead k status data rxTasklet a =>
    simp only [applyEvent] at done
    split at done
    · cases done
    · rename_i f here
      cases done
      refine ok_callback ⟨kept_read_done ok.kept here, ok.clean.queues, ?_, ok.clean.writes,
        ok.clean.sends⟩ (ok.clean.reads f (List.mem_of_getElem? here))
      exact fun g member => ok.clean.reads g (List.mem_of_mem_eraseIdx member)
  | urbWrite k a =>
    simp only [applyEvent] at done
    split at done
    · cases done
    · rename_i f here
      cases done
      refine ok_send ⟨kept_write_done ok.kept here, ok.clean.queues, ok.clean.reads, ?_, ok.clean.sends⟩
      exact fun g member => ok.clean.writes g (List.mem_of_mem_eraseIdx member)
  | tasklet =>
    cases done
    unfold receiveTaskletFunc
    split
    · exact ok
    · rename_i taken
      obtain ⟨ok', none_⟩ := ok_dequeue ok taken
      exact ok_hand_over ok' (none_ (by decide))
  | run k a =>
    simp only [applyEvent] at done
    split at done
    · cases done
    · rename_i t here
      apply ok_run (ok_drop ok here) done
      intro f same
      rw [same] at here
      exact handled _ here
  | tick =>
    cases done
    exact ok_add ok fun g same => by cases same
  | allocSend a =>
    simp only [applyEvent] at done
    split at done
    · cases done
    · rename_i f b' got
      cases done
      obtain ⟨⟨kept, clean⟩, none_⟩ := ok_get ok (by decide) got
      refine ⟨kept_add kept, clean_add clean ?_⟩
      intro g same
      cases same
      exact none_
  | sendCmd k a =>
    simp only [applyEvent] at done
    exact ok_send_task ok done fun _ _ => ok_send_cmd
  | sendPcm k a =>
    simp only [applyEvent] at done
    exact ok_send_task ok done fun _ _ => ok_send_pcm
  | commandTick a =>
    cases done
    exact ok_command_tick ok
  | setState newstate =>
    cases done
    exact ok_state ok
  | connect =>
    simp only [applyEvent] at done
    split at done
    · rename_i stage
      cases done
      have refs := ok.kept.refs
      rw [stage] at refs
      apply ok_state
      refine ⟨kept_reference ok.kept ?_ ok.kept.ops, ok.clean.queues, ok.clean.reads, ok.clean.writes,
        ok.clean.sends⟩
      simp only [ownReference] at refs ⊢
      omega
    · cases done
  | unplug =>
    cases done
    refine ⟨?_, ok.clean.queues, ok.clean.reads, ok.clean.writes, ok.clean.sends⟩
    apply kept_move ok.kept
    · exact ⟨rfl, rfl, rfl, rfl, rfl, rfl, rfl⟩
    · intro p
      rfl
  | disconnect =>
    simp only [applyEvent] at done
    split at done
    · rename_i stage
      cases done
      have refs := ok.kept.refs
      rw [stage] at refs
      apply ok_state
      exact ⟨kept_reference ok.kept refs ok.kept.ops, ok.clean.queues, ok.clean.reads, ok.clean.writes,
        ok.clean.sends⟩
    · cases done
  | disableCommands disabled =>
    cases done
    refine ⟨kept_flags ok.kept rfl, clean_set_queue ok.clean fun apart f member => ?_⟩
    exact ok.clean.queues .command apart f member
  | cleanCommand a =>
    simp only [applyEvent] at done
    split at done
    · cases done
    · rename_i taken
      cases done
      exact ok_send (ok_dequeue ok taken).1
  | clearQueue =>
    simp only [applyEvent] at done
    split at done
    · rename_i stage
      obtain ⟨name, _, rfl⟩ := Option.map_eq_some_iff.mp done
      exact ok_clear ok stage
    · cases done
  | transportPut =>
    simp only [applyEvent] at done
    split at done
    · rename_i stage
      cases done
      have refs := ok.kept.refs
      rw [stage] at refs
      refine ⟨kept_reference ok.kept ?_ ok.kept.ops, ok.clean.queues, ok.clean.reads, ok.clean.writes,
        ok.clean.sends⟩
      simp only [ownReference] at refs ⊢
      omega
    · cases done
  | destroy =>
    simp only [applyEvent] at done
    split at done
    · rename_i stage
      split at done
      · rename_i unused
        cases done
        have refs := ok.kept.refs
        rw [stage, unused] at refs
        refine ⟨kept_reference ok.kept ?_ ?_, ok.clean.queues, ok.clean.reads, ok.clean.writes,
          ok.clean.sends⟩
        · simp only [ownReference] at refs ⊢
          omega
        · intro _
          simp only [ownReference] at refs
          exact List.length_eq_zero_iff.mp (by omega)
      · cases done
    · cases done

end events

/-- What reading a freed frame depends on: the PCM frames that wait, the functions under
    way and the reads so far. -/
structure SamePcm (b b' : Xbus) : Prop where
  waiting : (b'.queues .pcmTospan).head = (b.queues .pcmTospan).head
  tasks : b'.tasks = b.tasks
  late : b'.late = b.late

/-- Each function that still looks into a frame looks into one that waits, and nobody
    looks into a frame behind copy_pcm_tospan. -/
structure Timely (b : Xbus) : Prop where
  late : b.late = []
  waits : ∀ f, .pcmSync f ∈ b.tasks ∨ .drift f ∈ b.tasks →
    ∃ g ∈ (b.queues .pcmTospan).head, g.received = f.received
  uncopied : ∀ f, .copyPcmTospan f ∉ b.tasks ∧ .tickSync f ∉ b.tasks

section reads
variable {b b' b'' : Xbus} {f : Frame} {a : Answers} {name : QueueName}

theorem pcm_refl (b : Xbus) : SamePcm b b := ⟨rfl, rfl, rfl⟩

theorem pcm_trans (first : SamePcm b b') (second : SamePcm b' b'') : SamePcm b b'' :=
  ⟨second.waiting.trans first.waiting, second.tasks.trans first.tasks, second.late.trans first.late⟩

theorem pcm_queue {q : XframeQueue} (apart : name ≠ .pcmTospan) : SamePcm b (setQueue b name q) := by
  refine ⟨?_, rfl, rfl⟩
  simp only [setQueue, Function.update_of_ne apart.symm]

theorem pcm_dequeue (apart : name ≠ .pcmTospan) (taken : xframeDequeue b name = some (f, b')) :
    SamePcm b b' := by
  unfold xframeDequeue at taken
  split at taken
  · cases taken
  · cases taken
    exact pcm_queue apart

theorem pcm_mark (b : Xbus) (f : Frame) : SamePcm b (markFreed b f) := by
  unfold markFreed
  split
  · exact pcm_refl b
  · exact ⟨rfl, rfl, rfl⟩

theorem pcm_free (b : Xbus) (f : Frame) : SamePcm b (transportFreeXframe b f) := by
  obtain ⟨waiting, tasks, late⟩ := pcm_mark b f
  exact ⟨waiting, tasks, late⟩

theorem pcm_alloc {alloc : Bool} (made : transportAllocXframe b alloc = some (f, b')) :
    SamePcm b b' := by
  unfold transportAllocXframe at made
  split at made
  · cases made
    exact ⟨rfl, rfl, rfl⟩
  · cases made

theorem pcm_adjust {alloc : Bool} (apart : name ≠ .pcmTospan) :
    SamePcm b (xframeQueueAdjust b name alloc) := by
  unfold xframeQueueAdjust
  simp only
  split
  · split
    · exact pcm_refl b
    · rename_i made
      have grown := pcm_alloc made
      split
      · exact pcm_trans grown (pcm_queue apart)
      · exact pcm_trans grown (pcm_trans (pcm_queue apart) (pcm_free _ _))
  · split
    · split
      · exact pcm_refl b
      · rename_i taken
        exact pcm_trans (pcm_dequeue apart taken) (pcm_free _ _)
    · exact pcm_refl b

theorem pcm_get {alloc : Bool} (apart : name ≠ .pcmTospan)
    (got : getXframe b name alloc = some (f, b')) : SamePcm b b' := by
  unfold getXframe at got
  split at got
  · cases got
  · rename_i taken
    cases got
    exact pcm_trans (pcm_adjust apart) (pcm_dequeue apart taken)

theorem pcm_put {alloc : Bool} (apart : name ≠ .pcmTospan) : SamePcm b (putXframe b name f alloc) := by
  unfold putXframe
  simp only
  split
  · exact pcm_trans (pcm_mark b f) (pcm_trans (pcm_queue apart) (pcm_adjust apart))
  · exact pcm_trans (pcm_queue apart) (pcm_free _ _)

theorem pcm_recv : SamePcm b (freeRecv b f a) := pcm_put (by decide)

theorem pcm_send : SamePcm b (freeSend b f a) := pcm_put (by decide)

theorem pcm_state {s : XbusState} : SamePcm b (xbusSetstate b s) := by
  unfold xbusSetstate
  split
  · exact ⟨rfl, rfl, rfl⟩
  · exact pcm_refl b

theorem pcm_do_send : SamePcm b (doSendXframe b f a).2 := by
  unfold doSendXframe
  split
  · exact pcm_send
  · split
    · exact pcm_send
    · split
      · exact pcm_send
      · exact ⟨rfl, rfl, rfl⟩

theorem pcm_send_pcm : SamePcm b (sendPcmFrame b f a) := by
  unfold sendPcmFrame
  split
  · unfold xframeSendPcm
    split
    · exact pcm_send
    · exact pcm_do_send
  · exact pcm_send

theorem pcm_send_cmd : SamePcm b (sendCmdFrame b f a) := by
  unfold sendCmdFrame
  split
  · exact pcm_send
  · simp only
    split
    · exact pcm_queue (by decide)
    · exact pcm_trans (pcm_queue (by decide)) (pcm_trans pcm_state pcm_send)

theorem pcm_command_tick : SamePcm b (xbusCommandQueueTick b a) := by
  unfold xbusCommandQueueTick
  split
  · exact pcm_refl b
  · rename_i f b' taken
    have sent : SamePcm b' (reallySendCmdFrame b' f a).2 := by
      unfold reallySendCmdFrame
      split
      · exact pcm_send
      · exact pcm_do_send
    have before := pcm_trans (pcm_dequeue (by decide) taken) sent
    simp only
    split
    · exact before
    · exact pcm_trans before pcm_state

theorem timely_same (timely : Timely b) (same : SamePcm b b') : Timely b' := by
  obtain ⟨late, waits, uncopied⟩ := timely
  obtain ⟨waiting, tasks, reads⟩ := same
  constructor
  · rw [reads]
    exact late
  · rw [waiting, tasks]
    exact waits
  · rw [tasks]
    exact uncopied

theorem timely_drop (timely : Timely b) (k : Nat) : Timely (dropTask b k) := by
  obtain ⟨late, waits, uncopied⟩ := timely
  constructor
  · exact late
  · intro f member
    apply waits f
    rcases member with sync | drift
    · exact Or.inl (List.mem_of_mem_eraseIdx sync)
    · exact Or.inr (List.mem_of_mem_eraseIdx drift)
  · intro f
    exact ⟨fun copy => (uncopied f).1 (List.mem_of_mem_eraseIdx copy),
      fun sync => (uncopied f).2 (List.mem_of_mem_eraseIdx sync)⟩

/-- A function that is to look into a frame that waits, or into none. -/
def Looks (b : Xbus) : Task → Prop
  | .pcmSync f => ∃ g ∈ (b.queues .pcmTospan).head, g.received = f.received
  | .drift f => ∃ g ∈ (b.queues .pcmTospan).head, g.received = f.received
  | .copyPcmTospan _ => False
  | .tickSync _ => False
  | _ => True

theorem timely_add {t : Task} (timely : Timely b) (looks : Looks b t) : Timely (addTask b t) := by
  obtain ⟨late, waits, uncopied⟩ := timely
  constructor
  · exact late
  · intro f member
    simp only [addTask, List.mem_append, List.mem_singleton] at member
    rcases member with (old | rfl) | (old | rfl)
    · exact waits f (Or.inl old)
    · exact looks
    · exact waits f (Or.inr old)
    · exact looks
  · intro f
    simp only [addTask, List.mem_append, List.mem_singleton, not_or]
    refine ⟨⟨(uncopied f).1, ?_⟩, (uncopied f).2, ?_⟩
    · rintro rfl
      exact looks
    · rintro rfl
      exact looks

/-- A frame that waits is not read late. -/
theorem read_waiting {hand : List Frame} (ok : Ok hand b)
    (waits : ∃ g ∈ (b.queues .pcmTospan).head, g.received = f.received) : readFrame b f = b := by
  obtain ⟨g, member, same⟩ := waits
  unfold readFrame wasFreed
  split
  · rfl
  · rename_i h mark
    have waiting : 0 < (b.queues .pcmTospan).head.countP (hasMark h) := by
      apply List.countP_pos_iff.mpr
      exact ⟨g, member, by simp [hasMark, same, mark]⟩
    have received := ok.kept.received h
    have none_ : b.freed.count h = 0 := by
      unfold tally queued at received
      split at received <;> omega
    apply if_neg
    simpa using List.count_eq_zero.mp none_

theorem timely_callback {status rxTasklet : Bool} {data : List (BitVec 8)} (timely : Timely b) :
    Timely (xppReceiveCallback b f status data rxTasklet a) := by
  unfold xppReceiveCallback
  split
  · exact timely_same timely pcm_recv
  · split
    · exact timely_add (timely_same timely pcm_recv) (by trivial)
    · refine timely_add ?_ (by trivial)
      unfold xbusReceiveXframe
      split
      · simp only
        split
        · exact timely_same timely (pcm_queue (by decide))
        · exact timely_same timely (pcm_trans (pcm_queue (by decide)) pcm_recv)
      · split
        · have handed : Timely { b with handed := b.handed + 1 } := timely_same timely ⟨rfl, rfl, rfl⟩
          exact timely_add handed (by trivial)
        · exact timely_same timely pcm_recv

theorem timely_listen (timely : Timely b) : Timely (xusbListen b a) := by
  unfold xusbListen
  split
  · exact timely
  · rename_i got
    have taken := pcm_get (by decide) got
    split
    · exact timely_same timely (pcm_trans taken ⟨rfl, rfl, rfl⟩)
    · exact timely_same timely (pcm_trans taken pcm_recv)

/-- There is room for another PCM frame. -/
def Room (q : XframeQueue) : Prop := q.disabled = false ∧ q.head.length < q.maxCount

theorem timely_receive_pcm (timely : Timely b) (room : Room (b.queues .pcmTospan)) :
    Timely (xframeReceivePcm b f a) := by
  have accepted : xframeEnqueue (b.queues .pcmTospan) f = (true, withHead (b.queues .pcmTospan)
      ((b.queues .pcmTospan).head ++ [f])) := by
    unfold xframeEnqueue
    rw [if_neg (by simp [room.1]), if_neg (Nat.not_le_of_lt room.2)]
    rfl
  unfold xframeReceivePcm
  simp only [accepted, if_true]
  have heads : ((setQueue b .pcmTospan (withHead (b.queues .pcmTospan)
      ((b.queues .pcmTospan).head ++ [f]))).queues .pcmTospan).head =
        (b.queues .pcmTospan).head ++ [f] := by
    simp [setQueue, withHead]
  obtain ⟨late, waits, uncopied⟩ := timely
  apply timely_add
  · constructor
    · exact late
    · intro g member
      obtain ⟨w, old, same⟩ := waits g member
      rw [heads]
      exact ⟨w, List.mem_append_left _ old, same⟩
    · exact uncopied
  · refine ⟨f, ?_, rfl⟩
    rw [heads]
    simp

/-- A tick has no PCM frame to copy, and there is room for another. -/
def TaskUntouched (b : Xbus) : Task → Prop
  | .tick => (b.queues .pcmTospan).head = []
  | .receivePcm _ => Room (b.queues .pcmTospan)
  | _ => True

/-- The function has still to look into a frame it has put into a queue. -/
def watches : Task → Bool
  | .pcmSync _ => true
  | .drift _ => true
  | _ => false

/-- No tick finds a PCM frame, none is refused by its queue, and no queue is cleared
    under a function that has just put a frame into it. -/
def Untouched (b : Xbus) : Event → Prop
  | .run k _ => ∀ t ∈ b.tasks[k]?, TaskUntouched b t
  | .clearQueue => ∀ t ∈ b.tasks, watches t = false
  | _ => True

theorem timely_run {hand : List Frame} {t : Task} (ok : Ok hand b) (timely : Timely b)
    (looks : Looks b t) (empty : t = .tick → (b.queues .pcmTospan).head = [])
    (room : ∀ f, t = .receivePcm f → Room (b.queues .pcmTospan))
    (done : runTask b a t = some b') : Timely b' := by
  cases t with
  | receive f =>
    cases done
    unfold xframeReceive
    split
    · exact timely_same timely pcm_recv
    · split
      · exact timely
      · exact timely_add timely (by trivial)
  | receiveKind f =>
    cases done
    unfold xframeReceiveKind
    split
    · split
      · exact timely_add timely (by trivial)
      · exact timely_same timely pcm_recv
    · exact timely_add timely (by trivial)
  | receiveCmd f =>
    cases done
    exact timely_same timely pcm_recv
  | receivePcm f =>
    cases done
    exact timely_receive_pcm timely (room f rfl)
  | pcmSync f =>
    cases done
    rw [read_waiting ok looks]
    split
    · exact timely_add timely looks
    · exact timely
  | drift f =>
    cases done
    rw [read_waiting ok looks]
    split
    · exact timely_add timely (by trivial)
    · exact timely
  | tick =>
    cases done
    unfold xbusTick xframeDequeue
    rw [empty rfl]
    exact timely
  | copyPcmTospan f => exact absurd looks id
  | tickSync f => exact absurd looks id
  | listen =>
    cases done
    exact timely_listen timely
  | send f => cases done

theorem looks_task {t : Task} (timely : Timely b) (member : t ∈ b.tasks) : Looks b t := by
  cases t with
  | pcmSync f => exact timely.waits f (Or.inl member)
  | drift f => exact timely.waits f (Or.inr member)
  | copyPcmTospan f => exact (timely.uncopied f).1 member
  | tickSync f => exact (timely.uncopied f).2 member
  | _ => trivial

theorem looks_drop {t : Task} (looks : Looks b t) (k : Nat) : Looks (dropTask b k) t := by
  cases t with
  | _ => exact looks

theorem timely_clear {cleared : Nat} (timely : Timely b)
    (unwatched : ∀ t ∈ b.tasks, watches t = false) :
    Timely (xframeQueueClear b cleared name) := by
  obtain ⟨late, _, uncopied⟩ := timely
  have quiet {c : Xbus} (tasks : c.tasks = b.tasks) (reads : c.late = b.late) : Timely c := by
    constructor
    · rw [reads]
      exact late
    · intro f member
      rw [tasks] at member
      rcases member with sync | drift
      · exact absurd (unwatched _ sync) (by decide : ¬true = false)
      · exact absurd (unwatched _ drift) (by decide : ¬true = false)
    · rw [tasks]
      exact uncopied
  unfold xframeQueueClear
  simp only
  split
  · exact quiet rfl rfl
  · rename_i f b' taken
    unfold xframeDequeue at taken
    split at taken
    · cases taken
    · cases taken
      obtain ⟨_, tasks, reads⟩ := pcm_free (setQueue (setQueue b name
        (setDisabled (b.queues name) true)) name _) f
      exact quiet tasks reads

theorem timely_event {e : Event} (ok : Ok [] b) (timely : Timely b) (untouched : Untouched b e)
    (done : applyEvent b e = some b') : Timely b' := by
  cases e with
  | listen =>
    cases done
    exact timely_add timely (by trivial)
  | urbRead k status data rxTasklet a =>
    simp only [applyEvent] at done
    split at done
    · cases done
    · cases done
      exact timely_callback (timely_same timely ⟨rfl, rfl, rfl⟩)
  | urbWrite k a =>
    simp only [applyEvent] at done
    split at done
    · cases done
    · cases done
      have taken : Timely { b with writes := b.writes.eraseIdx k } :=
        timely_same timely ⟨rfl, rfl, rfl⟩
      exact timely_same taken pcm_send
  | tasklet =>
    cases done
    unfold receiveTaskletFunc
    split
    · exact timely
    · rename_i taken
      have before := timely_same timely (pcm_dequeue (by decide) taken)
      exact timely_add (timely_same before ⟨rfl, rfl, rfl⟩) (by trivial)
  | run k a =>
    simp only [applyEvent] at done
    split at done
    · cases done
    · rename_i t here
      have looks := looks_drop (looks_task timely (List.mem_of_getElem? here)) k
      apply timely_run (ok_drop ok here) (timely_drop timely k) looks _ _ done
      · intro same
        rw [same] at here
        exact untouched _ here
      · intro f same
        rw [same] at here
        exact untouched _ here
  | tick =>
    cases done
    exact timely_add timely (by trivial)
  | allocSend a =>
    simp only [applyEvent] at done
    split at done
    · cases done
    · rename_i got
      cases done
      exact timely_add (timely_same timely (pcm_get (by decide) got)) (by trivial)
  | sendCmd k a =>
    simp only [applyEvent, sendTask] at done
    split at done
    · cases done
      exact timely_same (timely_drop timely k) pcm_send_cmd
    · cases done
  | sendPcm k a =>
    simp only [applyEvent, sendTask] at done
    split at done
    · cases done
      exact timely_same (timely_drop timely k) pcm_send_pcm
    · cases done
  | commandTick a =>
    cases done
    exact timely_same timely pcm_command_tick
  | setState newstate =>
    cases done
    exact timely_same timely pcm_state
  | connect =>
    simp only [applyEvent] at done
    split at done
    · cases done
      have joined : Timely { b with
          transportRefcount := b.transportRefcount + 1
          connected := true
          stage := .connected } := timely_same timely ⟨rfl, rfl, rfl⟩
      exact timely_same joined pcm_state
    · cases done
  | unplug =>
    cases done
    exact timely_same timely ⟨rfl, rfl, rfl⟩
  | disconnect =>
    simp only [applyEvent] at done
    split at done
    · cases done
      have left : Timely { b with connected := false, stage := .closing 0 } :=
        timely_same timely ⟨rfl, rfl, rfl⟩
      exact timely_same left pcm_state
    · cases done
  | disableCommands disabled =>
    cases done
    exact timely_same timely (pcm_queue (by decide))
  | cleanCommand a =>
    simp only [applyEvent] at done
    split at done
    · cases done
    · rename_i taken
      cases done
      exact timely_same timely (pcm_trans (pcm_dequeue (by decide) taken) pcm_send)
  | clearQueue =>
    simp only [applyEvent] at done
    split at done
    · obtain ⟨name, _, rfl⟩ := Option.map_eq_some_iff.mp done
      exact timely_clear timely untouched
    · cases done
  | transportPut =>
    simp only [applyEvent] at done
    split at done
    · cases done
      exact timely_same timely ⟨rfl, rfl, rfl⟩
    · cases done
  | destroy =>
    simp only [applyEvent] at done
    split at done
    · split at done
      · cases done
        exact timely_same timely ⟨rfl, rfl, rfl⟩
      · cases done
    · cases done

end reads

/-- A bus with its probe still to come, and any order of what can happen to it. -/
def frameSystem : System Xbus Event where
  start b := ∃ commandQueueLength, b = xbusNew commandQueueLength
  step b e b' := applyEvent b e = some b'

/-- Every live frame is in one place, every frame handed to xframe_receive is freed once
    or in one place, the references are those of the live frames and of the connection,
    and the transport is there for every frame. What transport_destroy waits for is the end
    of the last frame. -/
structure Conserved (b : Xbus) : Prop where
  place : ∀ id, tally (hasId id) b = b.live.count id
  once : b.live.Nodup
  received : ∀ h, b.freed.count h + tally (hasMark h) b = if h < b.handed then 1 else 0
  refs : b.transportRefcount = b.live.length + ownReference b.stage
  ops : b.live ≠ [] → b.ops = true
  drained : b.stage = .waiting → (b.transportRefcount = 0 ↔ b.live = [])

theorem ok_conserved {b : Xbus} (ok : Ok [] b) : Conserved b := by
  obtain ⟨place, once, _, refs, received, ops⟩ := ok.kept
  constructor
  · exact place
  · exact once
  · exact received
  · exact refs
  · intro some_
    by_contra none_
    exact some_ (ops (by simpa using none_))
  · intro stage
    rw [stage] at refs
    simp only [ownReference] at refs
    rw [refs, ← List.length_eq_zero_iff]
    omega

theorem ok_start {b : Xbus} (start : frameSystem.start b) : Ok [] b := by
  obtain ⟨commandQueueLength, rfl⟩ := start
  constructor
  · constructor
    · intro id
      rfl
    · exact List.nodup_nil
    · intro id member
      cases member
    · rfl
    · intro h
      rfl
    · intro none_
      rfl
  · constructor
    · intro name _ f member
      cases name <;> cases member
    · intro f member
      cases member
    · intro f member
      cases member
    · intro f member
      cases member

theorem timely_start {b : Xbus} (start : frameSystem.start b) : Timely b := by
  obtain ⟨commandQueueLength, rfl⟩ := start
  constructor
  · rfl
  · intro f member
    rcases member with sync | drift
    · cases sync
    · cases drift
  · intro f
    constructor
    · intro copy
      cases copy
    · intro sync
      cases sync

def Careful (b : Xbus) (e : Event) : Prop := Handled b e ∧ Untouched b e

instance (b : Xbus) (t : Task) : Decidable (TaskHandled b t) :=
  match t with
  | .receive _ => inferInstanceAs (Decidable (_ → _))
  | .receiveKind _ | .receiveCmd _ | .receivePcm _ | .pcmSync _ | .drift _ | .tick
  | .copyPcmTospan _ | .tickSync _ | .listen | .send _ => isTrue trivial

instance (q : XframeQueue) : Decidable (Room q) := inferInstanceAs (Decidable (_ ∧ _))

instance (b : Xbus) (t : Task) : Decidable (TaskUntouched b t) :=
  match t with
  | .tick => inferInstanceAs (Decidable (_ = []))
  | .receivePcm _ => inferInstanceAs (Decidable (Room _))
  | .receive _ | .receiveKind _ | .receiveCmd _ | .pcmSync _ | .drift _
  | .copyPcmTospan _ | .tickSync _ | .listen | .send _ => isTrue trivial

instance (b : Xbus) (e : Event) : Decidable (Careful b e) :=
  match e with
  | .run _ _ => inferInstanceAs (Decidable ((∀ t ∈ _, _) ∧ (∀ t ∈ _, _)))
  | .clearQueue => inferInstanceAs (Decidable (True ∧ (∀ t ∈ _, _)))
  | .listen | .urbRead .. | .urbWrite .. | .tasklet | .tick | .allocSend _ | .sendCmd .. | .sendPcm ..
  | .commandTick _ | .setState _ | .connect | .unplug | .disconnect | .disableCommands _
  | .cleanCommand _ | .transportPut | .destroy => isTrue ⟨trivial, trivial⟩

/-- Everything outside the driver goes well. -/
def well : Answers := ⟨true, true, false, false, false⟩

/-- A command is received and one is sent, a PCM frame waits, and the bus is
    disconnected while a read is under way. -/
def oneOfEach : List Event :=
  [.listen, .run 0 well, .connect, .urbRead 0 true [4, 0, 7, 0] true well, .run 0 well, .tasklet,
    .run 0 well, .run 0 well, .run 0 well, .allocSend well, .sendCmd 0 well, .commandTick well,
    .urbWrite 0 well, .setState .sentRequest, .setState .recvdDesc, .setState .ready,
    .urbRead 0 true [4, 8, 7, 0] false well, .run 0 well, .run 0 well, .run 0 well, .run 0 well,
    .run 0 well, .unplug, .disconnect, .clearQueue]

/-- A frame waits in the receive queue when the bus is disconnected. -/
def lateTasklet : List Event :=
  [.listen, .run 0 well, .connect, .urbRead 0 true [4, 0, 7, 0] true well, .disconnect, .tasklet,
    .run 1 well]

end FrameRuns
