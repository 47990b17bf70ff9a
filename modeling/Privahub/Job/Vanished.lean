import Privahub.Job.Finished

/-!
# Jobs that Kuscia does not find

`notFound` counts the answers of `QueryJobDetail` that a job does not exist. An `ADDED` or `MODIFIED` event of
the job and an answer with its status delete the count; from `notFoundThreshold` on the poller marks the job
as deleted, as the watch does for a `DELETED` event. The poller asks, counts and marks in steps of their own,
and the watch, the jobs that are created and everything else that writes them run in between.
-/

namespace Job.Vanished

open Sched (Time ProjectScheduleJobDO ProjectScheduleTaskDO)

def notFoundThreshold : Nat := 3

/-- The tables and the counts; a job without a count has 0. -/
structure State where
  db : Db
  notFound : Bytes → Nat

def WatchEventAdded : Int := 0
def WatchEventModified : Int := 1
def WatchEventDeleted : Int := 2

structure WatchJobObject where
  jobID : Bytes
  status : Option JobStatusDetailInfo

structure WatchJobEvent where
  type : Int
  object : Option WatchJobObject

/-- What `QueryJobDetail` says of a job. `other`: another error, or an answer without a status. -/
inductive Reply
  | notFound
  | status (detail : JobStatusDetailInfo)
  | other

/-- `handled`: the jobs that handlers want polled. -/
structure Ending extends Job.Ending where
  reply : Reply
  handled : List Bytes

structure Round where
  ids : List Bytes
  rest : List Bytes

/-- `back`: the round the poller goes on with, none when the watch has called. `now` is the time that
`markJobDeleted` has read. -/
inductive Call
  | readJobs
  | readSchedules (ids : List Bytes)
  | ask (r : Round)
  | miss (r : Round) (jobID : Bytes)
  | clear (r : Round) (jobID : Bytes)
  | seen (back : Option Round) (jobID : Bytes) (detail : Option JobStatusDetailInfo)
  | sync (back : Option Round) (pc : SyncJob)
  | mark (back : Option Round) (jobID : Bytes) (now : Time) (pc : MarkJobDeleted)
  | handle (ev : WatchJobEvent)
  | other (c : Job.Call)

def Call.first : Call → Bool
  | .readJobs | .handle _ => true
  | .other (.stopJob pc) => (Job.Call.stopJob pc).first
  | .other (.runGraph pc) => (Job.Call.runGraph pc).first
  | .other (.sched c) => c.first
  | _ => false

inductive Marked
  | job (job : ProjectJobDO)
  | schedule (sj : ProjectScheduleJobDO) (fired : List ProjectScheduleTaskDO)
  deriving DecidableEq

inductive Event
  | missed (jobID : Bytes)
  | seen (jobID : Bytes)
  | deleted (jobID : Bytes)
  | marked (jobID : Bytes) (fromPoll : Bool) (now : Time) (what : Marked)
  deriving DecidableEq

abbrev Effect := Calls.Effect State Call Event

namespace State

variable (m : State)

def clearNotFound (jobID : Bytes) : State := { m with notFound := Function.update m.notFound jobID 0 }

def pruneNotFound (pending : List Bytes) : State := { m with notFound := fun id => if id ∈ pending then m.notFound id else 0 }

def countNotFound (jobID : Bytes) : State := { m with notFound := Function.update m.notFound jobID (m.notFound jobID + 1) }

end State

def sortedKeys (ids : List Bytes) : List Bytes := ids.dedup.mergeSort fun a b => decide (a ≤ b)

def go (m : State) (next : Option Call) : Effect := ⟨m, next, []⟩

/-- `markJobDeleted` returns an error. -/
def failed (x : Ending) : MarkJobDeleted → Bool
  | .lock .. => false
  | _ => x.error.isSome

/-- The time is read when `applyMu` is taken. -/
def readTime (x : Ending) (now : Time) : MarkJobDeleted → Time
  | .lock .. => x.clock
  | _ => now

def marks (x : Ending) (fromPoll : Bool) (jobID : Bytes) (now : Time) : MarkJobDeleted → List Event
  | .stop job => if x.error.isSome then [] else [.marked jobID fromPoll now (.job job)]
  | .stopSchedule sj ts _ => if x.error.isSome then [] else [.marked jobID fromPoll now (.schedule sj ts)]
  | _ => []

def HandleWatchEvent (m : State) (ev : WatchJobEvent) : Effect := match ev.object with
  | none => go m none
  | some o =>
    if o.jobID = [] then go m none
    else if ev.type = WatchEventDeleted then ⟨m, some (.mark none o.jobID 0 (.lock o.jobID false)), [.deleted o.jobID]⟩
    else if ev.type = WatchEventAdded ∨ ev.type = WatchEventModified then go m (some (.seen none o.jobID o.status))
    else go m none

def exec (s : Platform) (m : State) (c : Call) (x : Ending) : Effect := match c with
  | .readJobs => go m (some (.readSchedules
      (if x.error.isSome then [] else (m.db.jobs.filter fun j => decide (j.status = .running)).map (·.jobId))))
  | .readSchedules ids =>
    let ids := sortedKeys (ids ++
      (if x.error.isSome then [] else (m.db.sched.jobs.filter fun j => decide (j.status = .running)).map (·.jobId)) ++ x.handled)
    go m (some (.ask ⟨ids, ids⟩))
  | .ask ⟨ids, []⟩ => go (m.pruneNotFound ids) none
  | .ask ⟨ids, id :: rest⟩ => match x.reply with
    | .notFound => go m (some (.miss ⟨ids, rest⟩ id))
    | .other => go m (some (.ask ⟨ids, rest⟩))
    | .status detail => go m (some (.seen (some ⟨ids, rest⟩) id (some detail)))
  | .miss r id =>
    ⟨m.countNotFound id, some (if m.notFound id + 1 < notFoundThreshold then .ask r else .mark (some r) id 0 (.lock id true)), [.missed id]⟩
  | .clear r id => go (m.clearNotFound id) (some (.ask r))
  | .seen back id detail => ⟨m.clearNotFound id, some (.sync back (.lock id detail)), [.seen id]⟩
  | .sync back pc =>
    let e := s.exec m.db (.syncJob pc) x.toEnding
    go { m with db := e.db } (match e.next with
      | some (.syncJob pc') => some (.sync back pc')
      | _ => back.map .ask)
  | .mark back id now pc =>
    let e := s.exec m.db (.markJobDeleted pc) x.toEnding
    ⟨{ m with db := e.db }, match e.next with
      | some (.markJobDeleted pc') => some (.mark back id (readTime x now pc) pc')
      | _ => back.map fun r => if failed x pc then .ask r else .clear r id,
      marks x back.isSome id now pc⟩
  | .handle ev => HandleWatchEvent m ev
  | .other c =>
    let e := s.exec m.db c x.toEnding
    go { m with db := e.db } (e.next.map .other)

abbrev World := Calls.World State Call Event

abbrev Act := Calls.Action Call Ending

def step (s : Platform) (w : World) (a : Act) : Option World := Calls.step Call.first (exec s) w a

def started (db : Db) : World := .idle ⟨db, fun _ => 0⟩

/-- Since the last event or answer that showed the job, at least `n` answers that it does not exist. -/
def Missed (n : Nat) (id : Bytes) (log : List Event) : Prop := ∃ l, l <:+ log ∧ .seen id ∉ l ∧ n ≤ l.count (.missed id)

/-- At some time there were `notFoundThreshold` such answers in a row, with no event and no answer in between that showed the job. -/
def Counted (id : Bytes) (log : List Event) : Prop := ∃ l, l <:+: log ∧ .seen id ∉ l ∧ notFoundThreshold ≤ l.count (.missed id)

def Due (fromPoll : Bool) (id : Bytes) (log : List Event) : Prop := if fromPoll then Counted id log else .deleted id ∈ log

def Marked.jobId : Marked → Bytes
  | .job j => j.jobId
  | .schedule sj _ => sj.jobId

/-- At `now` the grace has passed since the job was created; for a schedule job, since its tasks were fired. -/
def Marked.Old (grace : Int) (now : Time) : Marked → Prop
  | .job j => grace ≤ now - j.gmtCreate
  | .schedule _ ts => ∀ t ∈ ts, ∀ start, t.scheduleTaskStartTime = some start → grace ≤ now - start

def Ripe (grace : Int) (fromPoll : Bool) (id : Bytes) (now : Time) (what : Marked) : Prop :=
  what.jobId = id ∧ (fromPoll = true → what.Old grace now)

/-- What `markJobDeleted` knows when it was called for `id` and read the time `now`. -/
def Knows (grace : Int) (fromPoll : Bool) (id : Bytes) (now : Time) : MarkJobDeleted → Prop
  | .lock j p => j = id ∧ p = fromPoll
  | .find j p n | .findSchedule j p n => j = id ∧ p = fromPoll ∧ n = now
  | .stop job => Ripe grace fromPoll id now (.job job)
  | .fired sj p n => sj.jobId = id ∧ p = fromPoll ∧ n = now
  | .stopSchedule sj ts _ => Ripe grace fromPoll id now (.schedule sj ts)

def CallOK (grace : Int) (log : List Event) : Call → Prop
  | .mark back id now pc => Due back.isSome id log ∧ Knows grace back.isSome id now pc
  | _ => True

def EventOK (grace : Int) (log : List Event) : Event → Prop
  | .marked id fromPoll now what => Due fromPoll id log ∧ Ripe grace fromPoll id now what
  | _ => True

variable {s : Platform} {m : State} {x : Ending} {c d : Call} {w : World} {id : Bytes} {log es : List Event} {fromPoll : Bool}
  {now : Time} {pc : MarkJobDeleted} {n : Nat}

theorem Missed.zero : Missed 0 id log := ⟨[], List.nil_suffix, List.not_mem_nil, Nat.zero_le _⟩

theorem Missed.append (h : Missed n id log) (es : List Event) (hes : .seen id ∉ es) : Missed (n + es.count (.missed id)) id (log ++ es) := by
  obtain ⟨l, ⟨l', rfl⟩, hl, hn⟩ := h
  refine ⟨l ++ es, ⟨l', by simp⟩, by simp [hl, hes], ?_⟩
  rw [List.count_append]
  exact Nat.add_le_add_right hn _

theorem Missed.counted (h : Missed n id log) (hn : notFoundThreshold ≤ n) : Counted id log := by
  obtain ⟨l, hl, hseen, hcount⟩ := h
  exact ⟨l, hl.isInfix, hseen, hn.trans hcount⟩

theorem Due.append (h : Due fromPoll id log) : Due fromPoll id (log ++ es) := by
  unfold Due at h ⊢
  split_ifs at h ⊢
  · obtain ⟨l, hl, hc⟩ := h
    exact ⟨l, hl.trans (List.prefix_append _ _).isInfix, hc⟩
  · exact List.mem_append_left _ h

theorem knows_next {d : Job.Call} (h : Knows s.sync.notFoundWait fromPoll id now pc)
    (hd : (s.exec m.db (.markJobDeleted pc) x.toEnding).next = some d) :
    ∃ pc', d = .markJobDeleted pc' ∧ Knows s.sync.notFoundWait fromPoll id (readTime x now pc) pc' := by
  simp only [Platform.exec] at hd
  cases pc with
  | lock j p =>
    simp only [MarkJobDeleted.run] at hd
    split_ifs at hd
    · exact ⟨_, (Option.some.inj hd).symm, h⟩
    · cases hd
    · exact ⟨_, (Option.some.inj hd).symm, h.1, h.2, rfl⟩
  | find j p t =>
    obtain ⟨rfl, rfl, rfl⟩ := h
    simp only [MarkJobDeleted.run] at hd
    split_ifs at hd with hx
    · cases hd
    · split at hd
      case _ job hjob =>
        split_ifs at hd with hfin hgrace
        · cases hd
        · cases hd
        · have hid : job.jobId = j := by simpa using List.find?_some hjob
          exact ⟨_, (Option.some.inj hd).symm, hid, fun hp => not_lt.1 fun hlt => hgrace ⟨hp, hlt⟩⟩
      · exact ⟨_, (Option.some.inj hd).symm, rfl, rfl, rfl⟩
  | stop job =>
    simp only [MarkJobDeleted.run] at hd
    split_ifs at hd <;> cases hd
  | findSchedule j p t =>
    obtain ⟨rfl, rfl, rfl⟩ := h
    simp only [MarkJobDeleted.run] at hd
    split at hd
    case _ sj hsj =>
      split_ifs at hd
      · cases hd
      · exact ⟨_, (Option.some.inj hd).symm, by simpa using List.find?_some (found_of_read hsj).2, rfl, rfl⟩
    · cases hd
  | fired sj p t =>
    obtain ⟨hid, rfl, rfl⟩ := h
    simp only [MarkJobDeleted.run] at hd
    split_ifs at hd with hx hgrace
    · cases hd
    · cases hd
    · refine ⟨_, (Option.some.inj hd).symm, hid, fun hp task htask start hstart => ?_⟩
      refine not_lt.1 fun hlt => hgrace ⟨hp, List.any_eq_true.2 ⟨task, htask, ?_⟩⟩
      have hlt : t - start < s.sync.notFoundWait := hlt
      simpa [hstart] using hlt
  | stopSchedule sj ts t =>
    simp only [MarkJobDeleted.run] at hd
    split_ifs at hd <;> cases hd

theorem marks_ok {grace : Int} {e : Event} (h : Knows grace fromPoll id now pc) (hdue : Due fromPoll id log) (he : e ∈ marks x fromPoll id now pc) :
    EventOK grace log e := by
  unfold marks at he
  split at he
  · split_ifs at he
    · cases he
    · obtain rfl := List.mem_singleton.1 he
      exact ⟨hdue, h⟩
  · split_ifs at he
    · cases he
    · obtain rfl := List.mem_singleton.1 he
      exact ⟨hdue, h⟩
  · cases he

def CountsOK (m : State) (log : List Event) : Prop := ∀ id, Missed (m.notFound id) id log

theorem CountsOK.quiet {m' : State} (h : CountsOK m log) (hn : m'.notFound = m.notFound) (hes : ∀ id, .seen id ∉ es) : CountsOK m' (log ++ es) := by
  intro id
  obtain ⟨l, hl, hseen, hcount⟩ := (h id).append es (hes id)
  exact ⟨l, hl, hseen, by rw [hn]; omega⟩

theorem CountsOK.of_le {m' : State} (h : CountsOK m log) (hn : ∀ id, m'.notFound id ≤ m.notFound id) : CountsOK m' (log ++ []) := by
  intro id
  obtain ⟨l, hl, hseen, hcount⟩ := h id
  rw [List.append_nil]
  exact ⟨l, hl, hseen, (hn id).trans hcount⟩

theorem seen_notMem_marks {j : Bytes} : .seen j ∉ marks x fromPoll id now pc := by
  unfold marks
  split
  · split_ifs <;> simp
  · split_ifs <;> simp
  · simp

theorem handle_counts (m : State) (ev : WatchJobEvent) : (HandleWatchEvent m ev).db = m ∧ ∀ id, .seen id ∉ (HandleWatchEvent m ev).events := by
  unfold HandleWatchEvent
  split
  · exact ⟨rfl, fun _ => List.not_mem_nil⟩
  · split_ifs
    · exact ⟨rfl, fun _ => List.not_mem_nil⟩
    · exact ⟨rfl, fun _ => by simp⟩
    · exact ⟨rfl, fun _ => List.not_mem_nil⟩
    · exact ⟨rfl, fun _ => List.not_mem_nil⟩

theorem countsOK_exec (h : CountsOK m log) : CountsOK (exec s m c x).db (log ++ (exec s m c x).events) := by
  cases c with
  | readJobs | readSchedules | sync | other => exact h.of_le fun _ => le_rfl
  | ask r =>
    obtain ⟨ids, rest⟩ := r
    cases rest with
    | nil =>
      refine h.of_le fun id => ?_
      show (if id ∈ ids then m.notFound id else 0) ≤ m.notFound id
      split_ifs <;> omega
    | cons id rest =>
      simp only [exec]
      split <;> exact h.of_le fun _ => le_rfl
  | miss r j =>
    intro id
    show Missed (Function.update m.notFound j (m.notFound j + 1) id) id (log ++ [.missed j])
    by_cases hj : id = j
    · subst hj
      simpa using (h id).append [.missed id] (by simp)
    · have hother := (h id).append [.missed j] (by simp)
      simpa [Function.update_of_ne hj, Ne.symm hj] using hother
  | clear r j =>
    refine h.of_le fun id => ?_
    show Function.update m.notFound j 0 id ≤ m.notFound id
    by_cases hj : id = j
    · simp [hj]
    · rw [Function.update_of_ne hj]
  | seen back j detail =>
    intro id
    show Missed (Function.update m.notFound j 0 id) id (log ++ [.seen j])
    by_cases hj : id = j
    · rw [hj, Function.update_self]
      exact .zero
    · have hother := (h id).append [.seen j] (by simp [hj])
      simpa [Function.update_of_ne hj] using hother
  | mark back j now pc => exact h.quiet rfl fun _ => seen_notMem_marks
  | handle ev =>
    obtain ⟨hdb, hev⟩ := handle_counts m ev
    exact h.quiet (congrArg State.notFound hdb) hev

theorem callOK_next (h : CountsOK m log) (hc : CallOK s.sync.notFoundWait log c) (hd : (exec s m c x).next = some d) :
    CallOK s.sync.notFoundWait (log ++ (exec s m c x).events) d := by
  cases d with
  | mark back id now pc =>
    cases c with
    | readJobs | readSchedules | clear | seen => cases hd
    | sync back pc =>
      simp only [exec, go] at hd
      split at hd
      · cases hd
      · cases back <;> cases hd
    | ask r =>
      obtain ⟨ids, rest⟩ := r
      cases rest with
      | nil => cases hd
      | cons id rest =>
        simp only [exec] at hd
        split at hd <;> cases hd
    | miss r j =>
      have hcount := countsOK_exec (s := s) (x := x) (c := .miss r j) h
      simp only [exec] at hd hcount ⊢
      split_ifs at hd with hlt
      · cases hd
      · obtain ⟨rfl, rfl, rfl, rfl⟩ := Call.mark.inj (Option.some.inj hd)
        exact ⟨(hcount _).counted (by simpa [State.countNotFound] using hlt), rfl, rfl⟩
    | mark back' j now' pc' =>
      simp only [exec] at hd
      split at hd
      case _ pc'' hn =>
        obtain ⟨rfl, rfl, rfl, rfl⟩ := Call.mark.inj (Option.some.inj hd)
        obtain ⟨pc₁, hpc, hk⟩ := knows_next hc.2 hn
        obtain rfl := Job.Call.markJobDeleted.inj hpc
        exact ⟨hc.1.append, hk⟩
      · cases back' with
        | none => cases hd
        | some r =>
          simp only [Option.map_some, Option.some.injEq] at hd
          split_ifs at hd
    | handle ev =>
      simp only [exec, HandleWatchEvent] at hd ⊢
      split at hd
      · cases hd
      · split_ifs at hd with hid hdel
        · cases hd
        · obtain ⟨rfl, rfl, rfl, rfl⟩ := Call.mark.inj (Option.some.inj hd)
          rename_i o ho
          refine ⟨?_, rfl, rfl⟩
          simp only [if_neg hid, if_pos hdel]
          simp [Due]
        · cases hd
        · cases hd
    | other c =>
      simp only [exec, go, Option.map_eq_some_iff] at hd
      obtain ⟨_, _, hd⟩ := hd
      cases hd
  | _ => trivial

theorem event_ok {e : Event} (hc : CallOK s.sync.notFoundWait log c) (he : e ∈ (exec s m c x).events) : EventOK s.sync.notFoundWait log e := by
  cases c with
  | readJobs | readSchedules | clear | sync | other => cases he
  | ask r =>
    obtain ⟨ids, rest⟩ := r
    cases rest with
    | nil => cases he
    | cons id rest =>
      simp only [exec] at he
      split at he <;> cases he
  | miss r j | seen r j =>
    obtain rfl := List.mem_singleton.1 he
    trivial
  | mark back j now pc => exact marks_ok hc.2 hc.1 he
  | handle ev =>
    simp only [exec, HandleWatchEvent] at he
    split at he
    · cases he
    · split_ifs at he
      · cases he
      · obtain rfl := List.mem_singleton.1 he
        trivial
      · cases he
      · cases he

theorem EventOK.append {grace : Int} {e : Event} (h : EventOK grace log e) : EventOK grace (log ++ es) e := by
  cases e with
  | marked => exact ⟨h.1.append, h.2⟩
  | _ => trivial

theorem backs : Calls.Backs CountsOK (CallOK s.sync.notFoundWait) (EventOK s.sync.notFoundWait) Call.first (exec s) where
  later {l es c} h := by
    cases c with
    | mark => exact ⟨h.1.append, h.2⟩
    | _ => trivial
  first {l c} h := by
    cases c with
    | mark => cases h
    | _ => trivial
  inv h _ := countsOK_exec h
  next := callOK_next
  backed := fun _ hc he => (event_ok hc (by rw [he]; exact List.mem_append_right _ (List.mem_cons_self ..))).append

/-- A job is marked either for a `DELETED` event or by the poller; and then the answers that it does not exist were counted
`notFoundThreshold` times with no event and no answer in between that showed it, and it is not marked within the grace. -/
theorem marked_backed {db : Db} {as : List Act} {pre post : List Event} {what : Marked} (hr : Lts.run (step s) (started db) as = some w)
    (hlog : w.log = pre ++ .marked id fromPoll now what :: post) :
    what.jobId = id ∧ (fromPoll = false ∧ .deleted id ∈ pre ∨ fromPoll = true ∧ Counted id pre ∧ what.Old s.sync.notFoundWait now) := by
  obtain ⟨_, _, hbacked⟩ := backs.run (fun id => Missed.zero) hr
  obtain ⟨hdue, hid, hold⟩ := hbacked pre _ post hlog
  refine ⟨hid, ?_⟩
  cases fromPoll with
  | false => exact .inl ⟨rfl, hdue⟩
  | true => exact .inr ⟨rfl, hdue, hold rfl⟩

def unknown (now : Time) : Ending := ⟨⟨none, now, false, none, .sent⟩, .notFound, []⟩

def poll (n : Nat) : List Act := .start 0 .readJobs :: List.replicate n (.exec 0 (unknown 100))

def deletion : List Act := .start 0 (.handle ⟨WatchEventDeleted, some ⟨[3], none⟩⟩) :: List.replicate 4 (.exec 0 (unknown 10))

def theJob : ProjectJobDO := ⟨1, [2], [3], [], .running, [], none, 0⟩

/-- Three rounds that do not find the job. -/
theorem marked_backed_polls : ∃ w, Lts.run (step platform) (started (oneJob [])) (poll 5 ++ poll 5 ++ poll 9) = some w ∧
    Counted [3] [.missed [3], .missed [3], .missed [3]] ∧ (Marked.job theJob).Old platform.sync.notFoundWait 100 := by
  have hlog : (Lts.run (step platform) (started (oneJob [])) (poll 5 ++ poll 5 ++ poll 9)).map Calls.World.log =
      some ([.missed [3], .missed [3], .missed [3]] ++ [.marked [3] true 100 (.job theJob)]) := by decide +kernel
  obtain ⟨w, hw, hlog⟩ := Option.map_eq_some_iff.1 hlog
  obtain ⟨_, ⟨h, _⟩ | ⟨_, h⟩⟩ := marked_backed hw hlog
  · cases h
  · exact ⟨w, hw, h⟩

/-- The watch marks a job that is 10 seconds old, and no answer has said that it does not exist. -/
theorem deletion_marks : ∃ w, Lts.run (step platform) (started (oneJob [])) deletion = some w ∧
    w.log = [.deleted [3]] ++ [.marked [3] false 10 (.job theJob)] ∧ w.db.db.jobs.map (·.status) = [.stopped] ∧
    ¬ Counted [3] [.deleted [3]] ∧ ¬ (Marked.job theJob).Old platform.sync.notFoundWait 10 := by
  have hrun : (Lts.run (step platform) (started (oneJob [])) deletion).map (fun w => (w.log, w.db.db.jobs.map (·.status))) =
      some ([.deleted [3]] ++ [.marked [3] false 10 (.job theJob)], [.stopped]) := by decide +kernel
  obtain ⟨w, hw, hrun⟩ := Option.map_eq_some_iff.1 hrun
  refine ⟨w, hw, (Prod.mk.inj hrun).1, (Prod.mk.inj hrun).2, ?_, show ¬ (60 : Int) ≤ 10 - 0 by omega⟩
  rintro ⟨l, hl, _, hcount⟩
  have hle := hl.sublist.count_le (.missed [3])
  simp [notFoundThreshold] at hle hcount
  omega

end Job.Vanished
