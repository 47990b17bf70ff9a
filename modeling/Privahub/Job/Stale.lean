import Privahub.Job.Tasks

/-!
# Reports that come late

The poller asks Kuscia before it takes `applyMu`, and nothing says how old a report is, so a report may be
applied after a newer one. `Older` compares two reports of one job; in a run in which every report is applied
after older ones only (`InOrder`), a task that has been reported as succeeded does not become `INITIALIZED`
or `RUNNING` again.
-/

namespace Job

open Table (updateWhere)
open Sched (NodeStatus ProjectJobTaskDO)

variable {s : Platform} {db db' : Db} {x : Ending} {c d : Call} {w w' : World} {a : Act} {e f : JobStatusDetailInfo}
  {id : Bytes} {ts : List JobTaskStatusDetail} {t b : JobTaskStatusDetail}

def rank : NodeStatus → Nat
  | .initialized | .pending | .staging => 0
  | .running => 1
  | .stopped | .succeed | .failed => 2

/-- A task goes from one status to another, an ended one stays as it is. -/
def Forward (a b : NodeStatus) : Prop := a = b ∨ rank a < rank b

theorem Forward.succeed {b : NodeStatus} (h : Forward .succeed b) : b = .succeed := by
  rcases h with h | h
  · exact h.symm
  · cases b <;> simp [rank] at h

def reported (ts : List JobTaskStatusDetail) (name : Bytes) : Option JobTaskStatusDetail :=
  ts.reverse.find? fun t => decide (raw t = name)

/-- `f` reports every task that `e` reports, in the same state or a later one. -/
def Older (e f : JobStatusDetailInfo) : Prop :=
  ∀ name t, reported e.tasks name = some t → ∃ t', reported f.tasks name = some t' ∧
    Forward (TaskStatusFromKuscia t.state) (TaskStatusFromKuscia t'.state)

def Distinct (ts : List JobTaskStatusDetail) : Prop := ∀ t ∈ ts, ∀ t' ∈ ts, ∀ name ∈ names t, name ∈ names t' → t = t'

def Succeeds (e : JobStatusDetailInfo) (id : Bytes) : Prop :=
  ∃ kt, mergeExtendedTasks e.tasks id = some kt ∧ TaskStatusFromKuscia kt.state = .succeed

theorem base_eq : base ts id = if beforeDashes id = none then reported ts id else none := by
  unfold base reported
  split_ifs with h
  · congr 1
    funext t
    by_cases hr : raw t = id
    · simp [hr, h]
    · simp [hr]
  · refine List.find?_eq_none.2 fun t _ => ?_
    simp only [decide_eq_true_eq, not_and]
    rintro rfl hn
    exact h hn

theorem status_running : TaskStatusFromKuscia (str "Running") = .running := by decide +kernel

theorem status_failed : TaskStatusFromKuscia (str "Failed") = .failed := by decide +kernel

theorem base_of_succeeds (h : Succeeds e id) : ∃ b, base e.tasks id = some b ∧ TaskStatusFromKuscia b.state = .succeed := by
  obtain ⟨kt, hkt, hst⟩ := h
  unfold mergeExtendedTasks at hkt
  split at hkt
  · cases hkt
  · rename_i t _ _
    obtain rfl := Option.some.inj hkt
    unfold extOnly at hst
    split_ifs at hst with hs
    · exact absurd (status_running.symm.trans hst) (by simp)
    · exact absurd (.inl hst) hs
  · rename_i b hb _
    obtain rfl := Option.some.inj hkt
    exact ⟨b, hb, hst⟩
  · rename_i b t hb _
    obtain rfl := Option.some.inj hkt
    refine ⟨b, hb, ?_⟩
    unfold withExt at hst
    split_ifs at hst
    · exact absurd (status_failed.symm.trans hst) (by simp)
    · exact absurd (status_running.symm.trans hst) (by simp)
    · exact hst

theorem merge_of_base (hb : base ts id = some b) (hs : TaskStatusFromKuscia b.state = .succeed) :
    ∃ kt, mergeExtendedTasks ts id = some kt ∧ isPending (TaskStatusFromKuscia kt.state) = false := by
  have hpend : isPending (TaskStatusFromKuscia b.state) = false := by
    rw [hs]
    rfl
  unfold mergeExtendedTasks
  rw [hb]
  cases he : ext ts id with
  | none => exact ⟨b, rfl, hpend⟩
  | some t =>
    refine ⟨withExt b t, rfl, ?_⟩
    unfold withExt
    split_ifs with h₁ h₂
    · show isPending (TaskStatusFromKuscia (str "Failed")) = false
      rw [status_failed]
      rfl
    · rw [hs] at h₂
      exact absurd h₂.1 (by simp)
    · exact hpend

theorem Older.base (h : Older e f) (hb : base e.tasks id = some b) (hs : TaskStatusFromKuscia b.state = .succeed) :
    ∃ b', Job.base f.tasks id = some b' ∧ TaskStatusFromKuscia b'.state = .succeed := by
  rw [base_eq] at hb
  split_ifs at hb with hn
  obtain ⟨b', hb', hf⟩ := h id b hb
  rw [hs] at hf
  exact ⟨b', by rw [base_eq, if_pos hn, hb'], hf.succeed⟩

theorem report_not_pending (h : Older e f) (hs : Succeeds e id) {k : ProjectJobTaskDO} (hk : k.taskId = id) :
    isPending (JobStatusSyncService.report f.tasks k).status = false := by
  obtain ⟨b, hb, hst⟩ := base_of_succeeds hs
  obtain ⟨b', hb', hst'⟩ := h.base hb hst
  obtain ⟨kt, hkt, hp⟩ := merge_of_base hb' hst'
  unfold JobStatusSyncService.report
  rw [hk, hkt]
  exact hp

theorem Older.refl : Older e e := fun _ t ht => ⟨t, ht, .inl rfl⟩

theorem toLower_succeeded {u : CaseTables} : Sched.ToLower u (str "Succeeded") = str "succeeded" := by
  have hr : Utf8.runes (str "Succeeded") = [(83, [83]), (117, [117]), (99, [99]), (99, [99]), (101, [101]), (101, [101]), (100, [100]),
      (101, [101]), (100, [100])] := by decide +kernel
  unfold Sched.ToLower
  rw [hr]
  simp only [List.flatMap_cons, List.flatMap_nil]
  rw [u.toLower_ascii 83 (by decide), u.toLower_ascii 117 (by decide), u.toLower_ascii 99 (by decide), u.toLower_ascii 101 (by decide),
    u.toLower_ascii 100 (by decide)]
  decide +kernel

theorem state_of_succeed {state : Bytes} (h : TaskStatusFromKuscia state = .succeed) : state = str "Succeeded" := by
  unfold TaskStatusFromKuscia at h
  split_ifs at h with h₁
  exact h₁

theorem schedule_succeed {u : CaseTables} {state : Bytes} (h : TaskStatusFromKuscia state = .succeed) :
    Sched.mapKusciaTaskStateToNodeStatus u state = .succeed := by
  rw [state_of_succeed h]
  unfold Sched.mapKusciaTaskStateToNodeStatus
  rw [toLower_succeeded]
  rfl

theorem raw_mem_names : raw t ∈ names t := by
  unfold raw names
  by_cases h : t.alias_ = []
  · simp [h]
  · by_cases h' : t.alias_ = t.taskId
    · simp [h']
    · simp [h, h']

theorem named_succeeds (h : Older e f) (hs : Succeeds e id) (hd : Distinct f.tasks) (ht : t ∈ f.tasks) (hid : id ∈ names t) :
    TaskStatusFromKuscia t.state = .succeed := by
  obtain ⟨b, hb, hst⟩ := base_of_succeeds hs
  obtain ⟨b', hb', hst'⟩ := h.base hb hst
  have hmem : b' ∈ f.tasks := List.mem_reverse.1 (List.mem_of_find?_eq_some hb')
  have hraw := List.find?_some hb'
  have hraw : raw b' = id := (of_decide_eq_true hraw).1
  rw [hd t ht b' hmem id hid (hraw ▸ raw_mem_names)]
  exact hst'

/-- The poller, the job watch and the stop of a job by a user. -/
def Call.syncing : Call → Prop
  | .poll _ | .syncJob _ | .markJobDeleted _ | .stopJob _ => True
  | .runGraph _ | .sched _ => False

def Applied (w : World) (projectID jobID : Bytes) (e : JobStatusDetailInfo) : Prop := .applied projectID jobID e ∈ w.log

/-- A report is applied only after older ones. Where the scheduler's hook applies it as well, it names each task once. -/
def InOrder (s : Platform) (w : World) : Act → Prop
  | .exec i x => ∀ h f, w.calls i = some (.syncJob (.updateJob h f)) → x.error = none →
      (∀ p e, Applied w p h.jobID e → Older e f) ∧ (h.schedule = true → s.sync.hook.isSome → Distinct f.tasks)
  | _ => True

def Done (w : World) (projectID jobID id : Bytes) : Prop := ∃ e, Applied w projectID jobID e ∧ Succeeds e id

def Hooked (w : World) (service : Sched.ScheduledService) : Sched.Apply → Prop
  | .find jobID (some st) => ∀ t ∈ st.tasks, ∀ id ∈ names t, ∀ p, Done w p jobID id →
      isPending (Sched.mapKusciaTaskStateToNodeStatus service.unicode t.state) = false
  | .jobTask sj _ _ t rest => ∀ t' ∈ t :: rest, ∀ id ∈ names t', ∀ p, Done w p sj.jobId id →
      isPending (Sched.mapKusciaTaskStateToNodeStatus service.unicode t'.state) = false
  | _ => True

structure Kept (s : Platform) (w : World) : Prop where
  locked : Locked w
  syncing : w.All Call.syncing
  hooked : ∀ i pc service, w.calls i = some (.syncJob (.hook pc)) → s.sync.hook = some service → Hooked w service pc
  tasks : ∀ k ∈ w.db.sched.jobTasks, Done w k.projectId k.jobId k.taskId → isPending k.status = false

theorem events_exec : (∃ h f, c = .syncJob (.updateJob h f) ∧ x.error = none ∧ (s.exec db c x).events = [.applied h.projectID h.jobID f]) ∨
    (s.exec db c x).events = [] := by
  have h := did_exec s db x c
  generalize s.exec db c x = e at h ⊢
  cases h with
  | sync hx | syncHooked hx => exact .inl ⟨_, _, rfl, hx, rfl⟩
  | _ => exact .inr rfl

theorem stopped_not_pending {p j : Bytes} {ks : List ProjectJobTaskDO} {P : ProjectJobTaskDO → Prop}
    (h : ∀ k ∈ ks, P k → isPending k.status = false) :
    ∀ k ∈ stopJobTasks p j ks, P k → isPending k.status = false := by
  intro k hk hPk
  obtain ⟨k', hk', rfl⟩ := Table.mem_updateWhere.1 hk
  split_ifs at hPk ⊢
  · rfl
  · exact h k' hk' hPk

theorem syncing_next (hc : c.syncing) (h : (s.exec db c x).next = some d) : d.syncing := by
  have hdid := did_exec s db x c
  generalize s.exec db c x = e at h hdid
  cases hdid with
  | quit | release | sync | hookDone | delete | deleteSchedule | stop | padOnly | rollback => cases h
  | persist | sched => exact hc.elim
  | lockSync | lockDelete | syncHooked | hook =>
    obtain rfl := Option.some.inj h
    trivial
  | read h' =>
    obtain rfl := Option.some.inj h
    cases h' with
    | submitFailed | submitPads | padsFailed => exact hc.elim
    | _ => trivial

theorem done_after {i : Nat} {p j id : Bytes} (hd : Done (w.after s.exec i c x) p j id) : Done w p j id ∨
    ∃ h f, c = .syncJob (.updateJob h f) ∧ x.error = none ∧ p = h.projectID ∧ j = h.jobID ∧ Succeeds f id := by
  obtain ⟨e, ha, hs⟩ := hd
  have ha : .applied p j e ∈ w.log ++ (s.exec w.db c x).events := ha
  rcases List.mem_append.1 ha with ha | ha
  · exact .inl ⟨e, ha, hs⟩
  · rcases (events_exec : _ ∨ (s.exec w.db c x).events = []) with ⟨h, f, rfl, hx, hev⟩ | hev
    · rw [hev] at ha
      obtain ⟨rfl, rfl, rfl⟩ := Event.applied.inj (List.mem_singleton.1 ha)
      exact .inr ⟨h, e, rfl, hx, rfl, rfl, hs⟩
    · rw [hev] at ha
      cases ha

theorem done_of_quiet {i : Nat} (he : (s.exec w.db c x).events = []) : ∀ p j id, Done (w.after s.exec i c x) p j id → Done w p j id := by
  intro p j id hd
  rcases done_after hd with hd | ⟨h, f, rfl, hx, -⟩
  · exact hd
  · rw [(exec_updateJob hx).2] at he
    cases he

theorem Kept.tasks_reported (h : Kept s w) {h' : JobHolder} (hold : ∀ p e, Applied w p h'.jobID e → Older e f) :
    ∀ k ∈ updateWhere (inJob h'.projectID h'.jobID) (JobStatusSyncService.report f.tasks) w.db.sched.jobTasks,
      (Done w k.projectId k.jobId k.taskId ∨ (k.projectId = h'.projectID ∧ k.jobId = h'.jobID) ∧ Succeeds f k.taskId) →
      isPending k.status = false := by
  intro k hk hd
  obtain ⟨k', hk', rfl⟩ := Table.mem_updateWhere.1 hk
  split_ifs at hd ⊢ with hin
  · obtain ⟨-, hj⟩ := of_decide_eq_true hin
    have hkey : taskKey (JobStatusSyncService.report f.tasks k') = taskKey k' := taskKey_report
    obtain ⟨-, hjob, hid⟩ : _ ∧ (JobStatusSyncService.report f.tasks k').jobId = k'.jobId ∧
        (JobStatusSyncService.report f.tasks k').taskId = k'.taskId := by simpa [taskKey] using hkey
    rw [hjob, hid, hj] at hd
    rcases hd with ⟨e, ha, hs⟩ | ⟨-, hs⟩
    · exact report_not_pending (hold _ e ha) hs rfl
    · exact report_not_pending .refl hs rfl
  · rcases hd with hd | ⟨hpj, -⟩
    · exact h.tasks k' hk' hd
    · exact absurd (decide_eq_true hpj) hin

theorem schedCall_hook {service : Sched.ScheduledService} {sc : Sched.Call} (hc : c.syncing) (h : c.schedCall s = some (service, sc)) :
    ∃ pc, c = .syncJob (.hook pc) ∧ s.sync.hook = some service ∧ sc = .apply pc := by
  cases c with
  | syncJob pc =>
    cases pc with
    | hook pc =>
      obtain ⟨service', hh, he⟩ := Option.map_eq_some_iff.1 h
      obtain ⟨rfl, rfl⟩ := Prod.mk.inj he
      exact ⟨pc, rfl, hh, rfl⟩
    | lock | find | findSchedule | updateJob => cases h
  | runGraph | sched => exact hc.elim
  | poll | markJobDeleted | stopJob => cases h

theorem Kept.tasks_hooked (h : Kept s w) {i : Nat} {pc : Sched.Apply} {service : Sched.ScheduledService} {y : Sched.Ending}
    (hc : w.calls i = some (.syncJob (.hook pc))) (hh : s.sync.hook = some service) :
    ∀ k ∈ ((pc.instr service).exec w.db.sched y).db.jobTasks, Done w k.projectId k.jobId k.taskId → isPending k.status = false := by
  intro k hk hd
  have hhook := h.hooked i pc service hc hh
  have hwrite : SchedTasks service y (.apply pc) w.db.sched ((pc.instr service).exec w.db.sched y).db := schedTasks_exec
  cases hwrite with
  | same ht => exact h.tasks k (ht ▸ hk) hd
  | report sj st now kt rest hpc _ ht =>
    obtain rfl := Sched.Call.apply.inj hpc
    obtain ⟨k', hk', rfl⟩ := Table.mem_updateWhere.1 (ht ▸ hk)
    by_cases hin : (Sched.JobTaskWhere.taskIn sj.projectId sj.jobId (names kt)).holds k'
    · rw [if_pos hin] at hd ⊢
      obtain ⟨_, hj, hid⟩ := of_decide_eq_true hin
      have hd : Done w k'.projectId k'.jobId k'.taskId := hd
      rw [hj] at hd
      exact hhook kt (List.mem_cons_self ..) _ hid _ hd
    · rw [if_neg hin] at hd ⊢
      exact h.tasks k' hk' hd
  | stop p j ss ht =>
    obtain ⟨k', hk', rfl⟩ := Table.mem_updateWhere.1 (ht ▸ hk)
    split_ifs at hd ⊢
    · rfl
    · exact h.tasks k' hk' hd

theorem Kept.tasks_after {i : Nat} (h : Kept s w) (hc : w.calls i = some c) (ho : InOrder s w (.exec i x)) :
    ∀ k ∈ (s.exec w.db c x).db.sched.jobTasks, Done (w.after s.exec i c x) k.projectId k.jobId k.taskId → isPending k.status = false := by
  rcases (events_exec : _ ∨ (s.exec w.db c x).events = []) with ⟨h', f, rfl, hx, -⟩ | hev
  · have hreport := h.tasks_reported (ho h' f hc hx).1
    have hdone : ∀ p j id, Done (w.after s.exec i (.syncJob (.updateJob h' f)) x) p j id →
        Done w p j id ∨ (p = h'.projectID ∧ j = h'.jobID) ∧ Succeeds f id := by
      intro p j id hd
      rcases done_after hd with hd | ⟨h₀, f₀, he, -, hp, hj, hs⟩
      · exact .inl hd
      · obtain ⟨rfl, rfl⟩ := SyncJob.updateJob.inj (Call.syncJob.inj he)
        exact .inr ⟨⟨hp, hj⟩, hs⟩
    rw [(exec_updateJob hx).1]
    unfold JobStatusSyncService.syncTasks
    split_ifs
    · exact fun k hk hd => stopped_not_pending hreport k hk (hdone _ _ _ hd)
    · exact fun k hk hd => hreport k hk (hdone _ _ _ hd)
  · intro k hk hd
    replace hd := done_of_quiet hev _ _ _ hd
    cases tasks_exec (s := s) (x := x) (c := c) with
    | same ht => exact h.tasks k (ht ▸ hk) hd
    | stop p j _ ht =>
      rw [ht] at hk
      exact stopped_not_pending (P := fun k => Done w k.projectId k.jobId k.taskId) h.tasks k hk hd
    | sync h' f hc' hx _ =>
      subst hc'
      rw [(exec_updateJob hx).2] at hev
      cases hev
    | create job tasks hc' _ =>
      subst hc'
      exact (h.syncing i _ hc).elim
    | delete p j ht =>
      rw [ht] at hk
      exact h.tasks k (List.mem_of_mem_filter hk) hd
    | sched service sc hc' ht =>
      obtain ⟨pc, rfl, hh, rfl⟩ := schedCall_hook (h.syncing i _ hc) hc'
      exact h.tasks_hooked hc hh k (ht ▸ hk) hd

theorem hook_next {pc pc' : Sched.Apply} {service : Sched.ScheduledService} (hh : s.sync.hook = some service)
    (hn : (s.exec db (.syncJob (.hook pc)) x).next = some (.syncJob (.hook pc'))) :
    ((pc.instr service).exec db.sched ⟨x.error, x.clock⟩).next = some (.apply pc') := by
  simp only [Platform.exec, SyncJob.run, hh] at hn
  split at hn
  · rename_i pc'' he
    obtain rfl := SyncJob.hook.inj (Call.syncJob.inj (Option.some.inj hn))
    exact he
  · cases hn

theorem hooked_next {pc pc' : Sched.Apply} {service : Sched.ScheduledService} {sdb : Sched.Db} {y : Sched.Ending}
    (h : Hooked w service pc) (hn : ((pc.instr service).exec sdb y).next = some (.apply pc')) : Hooked w service pc' := by
  have hloop : ∀ {sj : Sched.ProjectScheduleJobDO} {st : Sched.JobExecutionStatus} {now : Sched.Time} {l : List Sched.TaskStatus},
      (∀ t ∈ l, ∀ id ∈ names t, ∀ p, Done w p sj.jobId id → isPending (Sched.mapKusciaTaskStateToNodeStatus service.unicode t.state) = false) →
      (Sched.Apply.nextJobTask sj st now l).call? = some (.apply pc') → Hooked w service pc' := by
    intro sj st now l hl hcall
    cases l with
    | nil =>
      obtain rfl := Sched.Call.apply.inj (Option.some.inj hcall)
      trivial
    | cons t l =>
      obtain rfl := Sched.Call.apply.inj (Option.some.inj hcall)
      exact hl
  have hend : ∀ {status : Sched.ScheduleJobStatus} {now : Sched.Time} (l : List Sched.ProjectScheduleTaskDO),
      (Sched.Apply.nextTask status now l).call? = some (.apply pc') → Hooked w service pc' := by
    intro status now l
    induction l with
    | nil => intro hcall; cases hcall
    | cons t l ih =>
      intro hcall
      rw [Sched.Apply.nextTask] at hcall
      split_ifs at hcall
      · exact ih hcall
      · obtain rfl := Sched.Call.apply.inj (Option.some.inj hcall)
        trivial
  cases pc with
  | find jobID st =>
    unfold Sched.Instr.exec at hn
    simp only [Sched.Apply.instr] at hn
    split at hn
    · cases hn
    · cases hj : sdb.firstJob jobID with
      | none =>
        simp only [Sched.Stmt.answer, hj] at hn
        cases hn
      | some sj =>
        have hkey : sj.jobId = jobID := by
          have hf := List.find?_some hj
          exact of_decide_eq_true hf
        cases st with
        | none =>
          simp only [Sched.Stmt.answer, hj] at hn
          cases hn
        | some st =>
          simp only [Sched.Stmt.answer, hj] at hn
          split_ifs at hn
          · cases hn
          · refine hloop ?_ hn
            rw [hkey]
            exact h
  | jobTask sj st now kt rest =>
    unfold Sched.Instr.exec at hn
    simp only [Sched.Apply.instr] at hn
    split at hn
    · cases hn
    · exact hloop (fun t ht => h t (.tail _ ht)) hn
  | job sj st now =>
    unfold Sched.Instr.exec at hn
    simp only [Sched.Apply.instr] at hn
    split at hn
    · cases hn
    · obtain rfl := Sched.Call.apply.inj (Option.some.inj hn)
      trivial
  | read jobId status now =>
    unfold Sched.Instr.exec at hn
    simp only [Sched.Apply.instr] at hn
    split at hn
    · cases hn
    · exact hend _ hn
  | write status now t rest =>
    unfold Sched.Instr.exec at hn
    simp only [Sched.Apply.instr] at hn
    split at hn
    · cases hn
    · exact hend _ hn

theorem hook_prev {pc' : Sched.Apply} (hn : (s.exec db c x).next = some (.syncJob (.hook pc'))) :
    (∃ pc, c = .syncJob (.hook pc)) ∨ ∃ h f, c = .syncJob (.updateJob h f) ∧ x.error = none ∧ h.schedule = true ∧ s.sync.hook.isSome ∧
      pc' = .find h.jobID (some (toExecutionStatus f)) := by
  have hdid := did_exec s db x c
  generalize s.exec db c x = e at hn hdid
  cases hdid with
  | hook => exact .inl ⟨_, rfl⟩
  | syncHooked hx hsch hh =>
    obtain rfl := SyncJob.hook.inj (Call.syncJob.inj (Option.some.inj hn))
    exact .inr ⟨_, _, rfl, hx, hsch, hh, rfl⟩
  | read h =>
    obtain rfl := Option.some.inj hn
    cases h
  | sched =>
    obtain ⟨_, _, he⟩ := Option.map_eq_some_iff.1 hn
    cases he
  | _ => cases hn

theorem Hooked.mono {pc : Sched.Apply} {service : Sched.ScheduledService} (h : Hooked w service pc)
    (hd : ∀ p j id, Done w' p j id → Done w p j id) : Hooked w' service pc := by
  cases pc with
  | find jobID st =>
    cases st with
    | none => trivial
    | some st => exact fun t ht id hid p hp => h t ht id hid p (hd _ _ _ hp)
  | jobTask sj st now kt rest => exact fun t ht id hid p hp => h t ht id hid p (hd _ _ _ hp)
  | job sj st now => trivial
  | read jobId status now => trivial
  | write status now t rest => trivial

theorem Kept.after {i : Nat} (h : Kept s w) (hc : w.calls i = some c) (ho : InOrder s w (.exec i x)) :
    Kept s (w.after s.exec i c x) := by
  refine ⟨h.locked.after hc, fun j d hd => ?_, fun j pc service hd hh => ?_, h.tasks_after hc ho⟩
  · rcases calls_after hd with ⟨rfl, hn⟩ | ⟨_, hd'⟩
    · exact syncing_next (h.syncing _ c hc) hn
    · exact h.syncing j d hd'
  · rcases calls_after hd with ⟨rfl, hn⟩ | ⟨hj, hd'⟩
    · rcases hook_prev hn with ⟨pc₀, rfl⟩ | ⟨h', f, rfl, hx, hs, hsome, rfl⟩
      · have hq : (s.exec w.db (.syncJob (.hook pc₀)) x).events = [] := by
          rcases events_exec (s := s) (c := .syncJob (.hook pc₀)) (x := x) with ⟨_, _, he, _⟩ | he
          · cases he
          · exact he
        exact (hooked_next (h.hooked _ pc₀ service hc hh) (hook_next hh hn)).mono (done_of_quiet hq)
      · obtain ⟨hold, hdist⟩ := ho h' f hc hx
        intro t ht id hid p hd
        obtain ⟨e, hle, hsucc⟩ : ∃ e, Older e f ∧ Succeeds e id := by
          rcases done_after hd with ⟨e, ha, hsucc⟩ | ⟨_, _, he, -, -, -, hsucc⟩
          · exact ⟨e, hold p e ha, hsucc⟩
          · obtain ⟨rfl, rfl⟩ := SyncJob.updateJob.inj (Call.syncJob.inj he)
            exact ⟨f, .refl, hsucc⟩
        rw [schedule_succeed (named_succeeds hle hsucc (hdist hs hsome) ht hid)]
        rfl
    · have hq : (s.exec w.db c x).events = [] := by
        rcases (events_exec : _ ∨ (s.exec w.db c x).events = []) with ⟨h', f, rfl, _, _⟩ | he
        · exact absurd (h.locked.one i j _ _ hc hd' trivial trivial).symm hj
        · exact he
      exact (h.hooked j pc service hd' hh).mono (done_of_quiet hq)

theorem Kept.step (h : Kept s w) (hstart : ∀ i c, a = .start i c → c.syncing) (ho : InOrder s w a) (hs : s.step w a = some w') :
    Kept s w' := by
  have hlock := h.locked.step hs
  obtain ⟨i, c, rfl, hf, _, rfl⟩ | ⟨i, c, x, rfl, hc, rfl⟩ | ⟨i, c, rfl, _, rfl⟩ := Calls.step_cases hs
  · refine ⟨hlock, h.syncing.begin (hstart i c rfl), fun j pc service hd hh => ?_, h.tasks⟩
    rcases Calls.World.calls_begin hd with rfl | hd
    · cases hf
    · exact (h.hooked j pc service hd hh).mono fun _ _ _ hd => hd
  · exact h.after hc ho
  · exact ⟨hlock, h.syncing.drop, fun j pc service hd hh => (h.hooked j pc service (Calls.World.calls_drop hd) hh).mono fun _ _ _ hd => hd, h.tasks⟩

/-- In every run of the poller, the watch and stops in which each report is applied after older ones only, a task
that an applied report says has succeeded is neither `INITIALIZED` nor `RUNNING`. -/
theorem succeeded_kept {as : List Act} (hstart : ∀ a ∈ as, ∀ i c, a = .start i c → c.syncing)
    (ho : Lts.RunAll s.step (InOrder s) (.idle db) as) (hr : Lts.run s.step (.idle db) as = some w) :
    ∀ k ∈ w.db.sched.jobTasks, Done w k.projectId k.jobId k.taskId → isPending k.status = false := by
  have hboth : Lts.RunAll s.step (fun w a => (∀ i c, a = .start i c → c.syncing) ∧ InOrder s w a) (.idle db) as :=
    .and (.of_mem as hstart _) ho
  have hnone : ∀ p j id, ¬ Done (.idle db) p j id := fun _ _ _ ⟨_, ha, _⟩ => nomatch ha
  have h : Kept s w := Lts.run_invariant (fun _ _ _ hi hp hs => hi.step hp.1 hp.2 hs)
    ⟨.idle, Calls.World.idle_all _ _, fun _ _ _ hd => absurd hd calls_idle, fun k _ hd => absurd hd (hnone _ _ _)⟩ hboth hr
  exact h.tasks

def oneTask (status : NodeStatus) : List ProjectJobTaskDO := [⟨[2], [3], [7], status, []⟩]

def running (state : Bytes) : JobStatusDetailInfo := ⟨str "Running", [], [], [⟨[9], [7], state, []⟩]⟩

def succeedsThenStopped : List Act :=
  [event 0 (running (str "Succeeded")), exec 0, exec 0, exec 0, stop 1, exec 1, exec 1]

/-- There is one report only. -/
def unapplied (v : World) : Act → Bool
  | .exec i _ => match v.calls i with
    | some (.syncJob (.updateJob ..)) => v.log.isEmpty
    | _ => true
  | _ => true

theorem succeeded_kept_stopped : ∃ w, Lts.run platform.step (.idle (oneJob (oneTask .running))) succeedsThenStopped = some w ∧
    ∀ k ∈ w.db.sched.jobTasks, Done w k.projectId k.jobId k.taskId → isPending k.status = false := by
  obtain ⟨w, hw⟩ : ∃ w, Lts.run platform.step (.idle (oneJob (oneTask .running))) succeedsThenStopped = some w :=
    Option.isSome_iff_exists.1 (by decide +kernel)
  refine ⟨w, hw, succeeded_kept ?_ ?_ hw⟩
  · intro a ha i c rfl
    simp only [succeedsThenStopped, event, exec, stop, List.mem_cons, List.not_mem_nil, or_false, Calls.Action.start.injEq, reduceCtorEq,
      false_or] at ha
    obtain ⟨_, rfl⟩ | ⟨_, rfl⟩ := ha
    · trivial
    · trivial
  have hall : Lts.RunAll platform.step (fun v a => unapplied v a = true) (.idle (oneJob (oneTask .running))) succeedsThenStopped := by
    decide +kernel
  refine hall.imp fun v a ha => ?_
  cases a with
  | start i c => trivial
  | abandon i => trivial
  | exec i x =>
    intro h f hc _
    simp only [unapplied, hc] at ha
    have hlog : v.log = [] := List.isEmpty_iff.1 ha
    refine ⟨fun p e he => ?_, fun _ hhook => by cases hhook⟩
    unfold Applied at he
    rw [hlog] at he
    cases he

/-- The poller asks while the task runs, the watch says that it has succeeded, and then the answer of the poller is
applied. -/
theorem late_answer : ∃ w w',
    Lts.run platform.step (.idle (oneJob (oneTask .running)))
      [.start 0 (.poll [3]), .exec 0 { fine with answer := some (running (str "Running")) },
        event 1 (running (str "Succeeded")), exec 1, exec 1, exec 1] = some w ∧
    Lts.run platform.step w [exec 0, exec 0, exec 0] = some w' ∧ Older (running (str "Running")) (running (str "Succeeded")) ∧
    w.db.sched.jobTasks.map (·.status) = [.succeed] ∧ w'.db.sched.jobTasks.map (·.status) = [.running] := by
  have hrun : ((Lts.run platform.step (.idle (oneJob (oneTask .running)))
      [.start 0 (.poll [3]), .exec 0 { fine with answer := some (running (str "Running")) },
        event 1 (running (str "Succeeded")), exec 1, exec 1, exec 1]).bind fun w =>
      (Lts.run platform.step w [exec 0, exec 0, exec 0]).map fun w' =>
        decide (w.db.sched.jobTasks.map (·.status) = [.succeed] ∧ w'.db.sched.jobTasks.map (·.status) = [.running])) = some true := by
    decide +kernel
  obtain ⟨w, hw, h⟩ := Option.bind_eq_some_iff.1 hrun
  obtain ⟨w', hw', h⟩ := Option.map_eq_some_iff.1 h
  refine ⟨w, w', hw, hw', fun name t ht => ?_, of_decide_eq_true h⟩
  have hmem := List.mem_of_find?_eq_some ht
  have hname := List.find?_some ht
  obtain rfl := List.mem_singleton.1 hmem
  refine ⟨⟨[9], [7], str "Succeeded", []⟩, ?_, .inr (by decide +kernel)⟩
  simpa [reported, running, raw] using hname

end Job
