import Privahub.Sched.Cronutil

/-!
# The job ids of a schedule

`CreateScheduler` renders a job for every trigger before it stores one of them, and `newJobID` in `graph_chain.go` draws the id of each: four letters
that no stored row has, or eight after twenty tries. The ids are unique exactly for draws that are `Lucky` (`job_ids_unique_iff`).
-/

namespace Scheduled

open Cronutil (Config Trigger ErrInvalidConfig Expand)

/-- A row of `project_job` or `project_schedule_job`, soft-deleted or not. -/
structure JobRow where
  projectId : Bytes
  jobId : Bytes
  deleted : Bool
  deriving DecidableEq

structure JobTables where
  jobs : List JobRow
  scheduleJobs : List JobRow
  deriving DecidableEq

/-- `Count`, of the rows that are not soft-deleted. -/
def count (rows : List JobRow) (id : Bytes) : Nat := rows.countP fun r => r.jobId = id ∧ r.deleted = false

/-- `graphjob.RandomLetters`, of the random bytes it reads. -/
def RandomLetters (random : Bytes) : Bytes := random.map fun b => UInt8.ofNat (97 + b.toNat % 26)

/-- The random bytes of one call of `newJobID`. -/
structure Draws where
  tries : List Bytes
  last : Bytes
  tries_length : tries.length = 20
  four : ∀ t ∈ tries, t.length = 4
  eight : last.length = 8

/-- The first four letters that neither table has a row for. -/
def firstFree (t : JobTables) (d : Draws) : Option Bytes :=
  (d.tries.map RandomLetters).find? fun id => count t.jobs id = 0 ∧ count t.scheduleJobs id = 0

def newJobID (t : JobTables) (d : Draws) : Bytes := (firstFree t d).getD (RandomLetters d.last)

inductive CreateError where
  | expand (e : ErrInvalidConfig)
  | noDates
  | render (msg : Bytes)
  | duplicateKey
  deriving DecidableEq

/-- What a call of `CreateScheduler` meets: the job tables, the draws and the error of each trigger's rendering. -/
structure Host where
  tables : JobTables
  draws : Nat → Draws
  renderErr : Nat → Option Bytes

/-- The job ids of the triggers from the `k`-th on. -/
def renderTriggers (h : Host) (k : Nat) : List Trigger → Except CreateError (List Bytes)
  | [] => .ok []
  | _ :: trs => match h.renderErr k with
    | some msg => .error (.render msg)
    | none => do return newJobID h.tables (h.draws k) :: (← renderTriggers h (k + 1) trs)

def renderSchedule (zone : Int) (cfg : Config) (now : Int) (h : Host) : Except CreateError (List Bytes) :=
  match Expand zone cfg now with
  | .error e => .error (.expand e)
  | .ok (_, triggers) => if triggers = [] then .error .noDates else renderTriggers h 0 triggers

/-- `tx.Create`: the index is over project and job, soft-deleted rows included. -/
def createJob (projectID : Bytes) (t : JobTables) (id : Bytes) : Option JobTables :=
  if t.scheduleJobs.any fun r => r.projectId = projectID ∧ r.jobId = id then none
  else some { t with scheduleJobs := t.scheduleJobs ++ [⟨projectID, id, false⟩] }

def createJobs (projectID : Bytes) (t : JobTables) (ids : List Bytes) : Option JobTables := ids.foldlM (createJob projectID) t

def CreateScheduler (zone : Int) (cfg : Config) (now : Int) (projectID : Bytes) (h : Host) : Except CreateError JobTables := do
  let ids ← renderSchedule zone cfg now h
  match createJobs projectID h.tables ids with
  | some t => .ok t
  | none => .error .duplicateKey

def JobTables.Stored (t : JobTables) (id : Bytes) : Prop := ∃ r ∈ t.jobs ++ t.scheduleJobs, r.jobId = id

def JobTables.SoftDeleted (t : JobTables) (id : Bytes) : Prop := ∃ r ∈ t.jobs ++ t.scheduleJobs, r.jobId = id ∧ r.deleted = true

/-- The draws of the triggers keep clear of each other and of soft-deleted rows: no two have the same first free letters, none of these are such a
row's, and those without free letters draw eight that are no row's and no other's. -/
structure Lucky (t : JobTables) (ds : List Draws) : Prop where
  apart : (ds.filterMap (firstFree t)).Nodup
  kept : ∀ d ∈ ds, ∀ id, firstFree t d = some id → ¬t.SoftDeleted id
  lastApart : ((ds.filter fun d => firstFree t d = none).map fun d => RandomLetters d.last).Nodup
  lastNew : ∀ d ∈ ds, firstFree t d = none → ¬t.Stored (RandomLetters d.last)

variable {t : JobTables} {d : Draws} {ds : List Draws} {h : Host} {id projectID : Bytes} {ids : List Bytes} {k : Nat} {trs : List Trigger} {zone now : Int}
  {cfg : Config}

theorem length_firstFree (hd : firstFree t d = some id) : id.length = 4 := by
  obtain ⟨b, hb, rfl⟩ := List.mem_map.1 (List.mem_of_find?_eq_some hd)
  rw [RandomLetters, List.length_map]
  exact d.four b hb

theorem length_last (d : Draws) : (RandomLetters d.last).length = 8 := by
  rw [RandomLetters, List.length_map]
  exact d.eight

theorem stored_firstFree (hd : firstFree t d = some id) : t.Stored id ↔ t.SoftDeleted id := by
  have hfree := List.find?_some hd
  obtain ⟨h1, h2⟩ := of_decide_eq_true hfree
  constructor
  · rintro ⟨r, hr, rfl⟩
    refine ⟨r, hr, rfl, ?_⟩
    rcases List.mem_append.1 hr with hr | hr
    · simpa using List.countP_eq_zero.1 h1 r hr
    · simpa using List.countP_eq_zero.1 h2 r hr
  · rintro ⟨r, hr, he, -⟩
    exact ⟨r, hr, he⟩

theorem nodup_map_getD {α β : Type} {f : α → Option β} {g : α → β} (l : List α) (hfg : ∀ a b x, f a = some x → x ≠ g b) :
    (l.map fun a => (f a).getD (g a)).Nodup ↔ (l.filterMap f).Nodup ∧ ((l.filter fun a => (f a).isNone).map g).Nodup := by
  induction l with
  | nil => simp
  | cons a l ih =>
    rw [List.map_cons, List.nodup_cons, ih]
    cases ha : f a with
    | some x =>
      have hmem : x ∈ l.map (fun a => (f a).getD (g a)) ↔ x ∈ l.filterMap f := by
        rw [List.mem_map, List.mem_filterMap]
        constructor
        · rintro ⟨b, hb, hx⟩
          cases hfb : f b with
          | some y => exact ⟨b, hb, by rw [hfb] at hx; rw [hfb]; exact congrArg some hx⟩
          | none =>
            rw [hfb] at hx
            exact absurd hx.symm (hfg a b x ha)
        · rintro ⟨b, hb, hx⟩
          exact ⟨b, hb, by rw [hx]; rfl⟩
      rw [List.filterMap_cons_some ha, List.filter_cons_of_neg (by simp [ha]), List.nodup_cons, Option.getD_some, hmem, and_assoc]
    | none =>
      have hmem : g a ∈ l.map (fun a => (f a).getD (g a)) ↔ g a ∈ (l.filter fun a => (f a).isNone).map g := by
        rw [List.mem_map, List.mem_map]
        constructor
        · rintro ⟨b, hb, hx⟩
          cases hfb : f b with
          | some y =>
            rw [hfb] at hx
            exact absurd hx (hfg b a y hfb)
          | none =>
            rw [hfb] at hx
            exact ⟨b, List.mem_filter.2 ⟨hb, by simp [hfb]⟩, hx⟩
        · rintro ⟨b, hb, hx⟩
          obtain ⟨hb, hnone⟩ := List.mem_filter.1 hb
          rw [Option.isNone_iff_eq_none] at hnone
          exact ⟨b, hb, by rw [hnone]; exact hx⟩
      rw [List.filterMap_cons_none ha, List.filter_cons_of_pos (by simp [ha]), List.map_cons, List.nodup_cons, Option.getD_none, hmem, and_left_comm]

theorem unique_iff_lucky (t : JobTables) (ds : List Draws) :
    (ds.map (newJobID t)).Nodup ∧ (∀ id ∈ ds.map (newJobID t), ¬t.Stored id) ↔ Lucky t ds := by
  have hapart : ∀ (a b : Draws) (x : Bytes), firstFree t a = some x → x ≠ RandomLetters b.last := by
    rintro a b x ha rfl
    have h1 := length_firstFree ha
    have h2 := length_last b
    omega
  have hnone : (fun d => (firstFree t d).isNone) = fun d => decide (firstFree t d = none) := by
    funext d
    cases firstFree t d <;> rfl
  have hnodup := nodup_map_getD ds hapart
  rw [hnone] at hnodup
  constructor
  · rintro ⟨hids, hnew⟩
    obtain ⟨h1, h2⟩ := hnodup.1 hids
    refine ⟨h1, fun d hd id hid hdel => ?_, h2, fun d hd hnone => ?_⟩
    · refine hnew id (List.mem_map.2 ⟨d, hd, ?_⟩) ((stored_firstFree hid).2 hdel)
      rw [newJobID, hid]
      rfl
    · refine hnew _ (List.mem_map.2 ⟨d, hd, ?_⟩)
      rw [newJobID, hnone]
      rfl
  · intro hlucky
    refine ⟨hnodup.2 ⟨hlucky.apart, hlucky.lastApart⟩, fun id hid => ?_⟩
    obtain ⟨d, hd, rfl⟩ := List.mem_map.1 hid
    cases hfree : firstFree t d with
    | some id =>
      rw [newJobID, hfree]
      exact fun hs => hlucky.kept d hd id hfree ((stored_firstFree hfree).1 hs)
    | none =>
      rw [newJobID, hfree]
      exact hlucky.lastNew d hd hfree

theorem createJobs_some (projectID : Bytes) (hids : ids.Nodup) (hnew : ∀ id ∈ ids, ∀ r ∈ t.scheduleJobs, r.jobId ≠ id) : (createJobs projectID t ids).isSome = true := by
  induction ids generalizing t with
  | nil => rfl
  | cons id ids ih =>
    obtain ⟨hid, hids⟩ := List.nodup_cons.1 hids
    have hfree : ¬ (t.scheduleJobs.any fun r => r.projectId = projectID ∧ r.jobId = id) = true := by
      intro hany
      obtain ⟨r, hr, he⟩ := List.any_eq_true.1 hany
      exact hnew id List.mem_cons_self r hr (of_decide_eq_true he).2
    rw [createJobs, List.foldlM_cons, createJob, if_neg hfree]
    refine ih hids fun other ho r hr => ?_
    rcases List.mem_append.1 hr with hr | hr
    · exact hnew other (List.mem_cons_of_mem _ ho) r hr
    · obtain rfl := List.mem_singleton.1 hr
      rintro rfl
      exact hid ho

theorem renderTriggers_ok (hr : renderTriggers h k trs = .ok ids) : ids = (List.range' k trs.length).map fun k => newJobID h.tables (h.draws k) := by
  induction trs generalizing k ids with
  | nil =>
    cases hr
    rfl
  | cons tr trs ih =>
    rw [renderTriggers] at hr
    cases herr : h.renderErr k with
    | some msg => simp [herr] at hr
    | none =>
      simp only [herr] at hr
      cases hrest : renderTriggers h (k + 1) trs with
      | error e => simp [hrest, bind, Except.bind] at hr
      | ok rest =>
        rw [hrest] at hr
        cases hr
        rw [ih hrest]
        rfl

theorem renderSchedule_ok (hr : renderSchedule zone cfg now h = .ok ids) : ids = ((List.range ids.length).map h.draws).map (newJobID h.tables) := by
  unfold renderSchedule at hr
  split at hr
  · cases hr
  · split_ifs at hr
    have hids := renderTriggers_ok hr
    have hlen := congrArg List.length hids
    rw [List.length_map, List.length_range'] at hlen
    rw [List.map_map, List.range_eq_range', hlen]
    exact hids

theorem renderTriggers_some (hok : ∀ k, h.renderErr k = none) (k : Nat) (trs : List Trigger) :
    renderTriggers h k trs = .ok ((List.range' k trs.length).map fun k => newJobID h.tables (h.draws k)) := by
  induction trs generalizing k with
  | nil => rfl
  | cons tr trs ih =>
    rw [renderTriggers, hok k, ih (k + 1)]
    rfl

theorem renderSchedule_some {exprs : List Bytes} {start stop : Int} {out : List Trigger}
    (hexprs : Cronutil.BuildCronExpressions zone cfg.scheduleCycle cfg.scheduleDate cfg.scheduleTime cfg.startTime cfg.endTime = .ok exprs)
    (hstart : Cronutil.ParseDateTime zone cfg.startTime = .ok start) (hstop : Cronutil.ParseDateTime zone cfg.endTime = .ok stop)
    (hout : Cronutil.triggersFrom zone start stop now exprs [] = .ok out) (hne : out ≠ []) (hok : ∀ k, h.renderErr k = none) :
    renderSchedule zone cfg now h = .ok ((List.range' 0 out.length).map fun k => newJobID h.tables (h.draws k)) := by
  have hlen : (out.mergeSort fun a b => decide (a.time ≤ b.time)).length = out.length := List.length_mergeSort _
  have hsorted : out.mergeSort (fun a b => decide (a.time ≤ b.time)) ≠ [] := by
    intro hnil
    rw [hnil] at hlen
    exact hne (List.length_eq_zero_iff.1 hlen.symm)
  have hexpand : Expand zone cfg now = .ok (exprs, out.mergeSort fun a b => decide (a.time ≤ b.time)) := by
    rw [Expand, hexprs, hstart, hstop]
    show (do return (exprs, ← Cronutil.TriggerTimes zone exprs start stop now)) = _
    rw [Cronutil.TriggerTimes, hout]
    rfl
  rw [renderSchedule, hexpand]
  show (if _ then _ else _) = _
  rw [if_neg hsorted, renderTriggers_some hok, hlen]

def twoDays : Config := ⟨str "2026-01-01 00:00:00", str "2026-01-02 23:59:59", str "D", [], str "10:00"⟩

def drawing (b : UInt8) : Draws where
  tries := List.replicate 20 (List.replicate 4 b)
  last := List.replicate 8 b
  tries_length := rfl
  four := by
    intro t ht
    rw [List.eq_of_mem_replicate ht]
    rfl
  eight := rfl

def fresh (draws : Nat → Draws) : Host := ⟨⟨[], []⟩, draws, fun _ => none⟩

theorem renderSchedule_twoDays (draws : Nat → Draws) :
    renderSchedule 0 twoDays 0 (fresh draws) = .ok [newJobID ⟨[], []⟩ (draws 0), newJobID ⟨[], []⟩ (draws 1)] := by
  have hexprs : Cronutil.BuildCronExpressions 0 (str "D") [] (str "10:00") (str "2026-01-01 00:00:00") (str "2026-01-02 23:59:59") = .ok [str "0 0 10 * * ?"] := by
    decide +kernel
  have hstart : Cronutil.ParseDateTime 0 (str "2026-01-01 00:00:00") = .ok 1767225600000000000 := by decide +kernel
  have hstop : Cronutil.ParseDateTime 0 (str "2026-01-02 23:59:59") = .ok 1767398399000000000 := by decide +kernel
  have hout : Cronutil.triggersFrom 0 1767225600000000000 1767398399000000000 0 [str "0 0 10 * * ?"] [] =
      .ok [⟨1767261600000000000, str "0 0 10 * * ?"⟩, ⟨1767348000000000000, str "0 0 10 * * ?"⟩] := by
    decide +kernel
  exact renderSchedule_some hexprs hstart hstop hout (List.cons_ne_nil _ _) fun _ => rfl

end Scheduled
