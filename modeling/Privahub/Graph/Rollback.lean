import Privahub.Graph.Chain

/-!
# A run that fails

`rollbackJob` deletes what carries the id of the job. The rows of `project_graph_node_kuscia_params` are kept one for
each node, so that a run takes over the row of an earlier one, and the rollback deletes it; a scheduled run saves rows
too, and rolls nothing back. `Restores` says when a failed run leaves the tables as they were.
-/

namespace Graph.Chain

open Table (updateWhere)

/-- The rows that `convertKusciaJob` saves. -/
def saved (x : Texts) (a : Answers) (job : ProjectJob) : Nat → List JobTask → List ProjectGraphNodeKusciaParamsDO
  | _, [] => []
  | k, t :: ts => match a.evalParam k t, a.saveErr k with
    | .ok eval, none => paramsDO x job t eval :: saved x a job (k + 1) ts
    | _, _ => []

/-- The rows that a run saves once its job is persisted. -/
def runSaved (x : Texts) (a : Answers) (db : Db) (job : ProjectJob) : List ProjectGraphNodeKusciaParamsDO :=
  match jobRenderHandler x a db job with
  | .error _ => []
  | .ok rendered => if rendered.tasks = [] ∨ a.teeNodeID ≠ [] then [] else saved x a rendered 0 rendered.tasks

def Owns (job : ProjectJob) (projectId jobId : Bytes) : Bool := decide (projectId = job.projectID ∧ jobId = job.jobID)

/-- The rollback of a table takes away `new` rows of the job, and no others: no row of the job was there, or the
statement fails and nothing was new. -/
def Cleared {R : Type} (ok : Bool) (own : R → Bool) (old new : List R) : Prop := if ok then ∀ r ∈ old, own r = false else new = []

/-- The rollback of the parameters: no row is of a node that the run has saved. -/
def ParamsCleared (ok : Bool) (job : ProjectJob) (old new : List ProjectGraphNodeKusciaParamsDO) : Prop :=
  if ok then ∀ p ∈ old, Owns job p.projectId p.jobId = false ∧ ∀ q ∈ new, q.key ≠ p.key else new = []

def Restores (x : Texts) (a : Answers) (req : StartGraphRequest) (opts : StartGraphOptions) (db : Db) : Prop :=
  match prepare a req opts with
  | .error _ => True
  | .ok job => match jobPersistentHandler x a opts db job with
    | .error _ => True
    | .ok db' =>
      if opts.scheduled then runSaved x a db' job = []
      else a.rollback.commit = true ∧ a.rollback.jobs = true ∧
        Cleared a.rollback.tasks (fun t => Owns job t.projectId t.jobId) db.tasks (job.tasks.map (taskDO x job)) ∧
        Cleared a.rollback.logs (fun l => Owns job l.projectId l.jobId) db.logs (job.tasks.flatMap (logDOs x a.now job)) ∧
        ParamsCleared a.rollback.params job db.params (runSaved x a db' job)

variable {x : Texts} {a : Answers} {req : StartGraphRequest} {opts : StartGraphOptions} {db db' : Db} {job : ProjectJob}
  {p q : ProjectGraphNodeKusciaParamsDO} {ps : List ProjectGraphNodeKusciaParamsDO} {e : Err}

theorem save_params : (db.saveKusciaParams p).params = if ∃ r ∈ db.params, r.key = p.key then
    updateWhere (fun r => decide (r.key = p.key)) (fun _ => p) db.params else db.params ++ [p] := by
  unfold Db.saveKusciaParams
  split_ifs
  · rfl
  · rfl

theorem save_rest : (db.saveKusciaParams p).jobs = db.jobs ∧ (db.saveKusciaParams p).tasks = db.tasks ∧ (db.saveKusciaParams p).logs = db.logs := by
  unfold Db.saveKusciaParams
  split_ifs
  · exact ⟨rfl, rfl, rfl⟩
  · exact ⟨rfl, rfl, rfl⟩

theorem saves_rest : (ps.foldl Db.saveKusciaParams db).jobs = db.jobs ∧ (ps.foldl Db.saveKusciaParams db).tasks = db.tasks ∧
    (ps.foldl Db.saveKusciaParams db).logs = db.logs := by
  induction ps generalizing db with
  | nil => exact ⟨rfl, rfl, rfl⟩
  | cons p ps ih =>
    obtain ⟨h₁, h₂, h₃⟩ := @ih (db.saveKusciaParams p)
    exact ⟨h₁.trans save_rest.1, h₂.trans save_rest.2.1, h₃.trans save_rest.2.2⟩

theorem mem_save : p ∈ (db.saveKusciaParams p).params := by
  rw [save_params]
  split_ifs with h
  · obtain ⟨r, hr, hkey⟩ := h
    exact Table.mem_updateWhere.2 ⟨r, hr, if_pos (decide_eq_true hkey)⟩
  · exact List.mem_append_right _ (List.mem_singleton_self p)

theorem owned_saves (hps : ∀ q ∈ ps, Owns job q.projectId q.jobId = true) (h : ps ≠ [] ∨ ∃ r ∈ db.params, Owns job r.projectId r.jobId = true) :
    ∃ r ∈ (ps.foldl Db.saveKusciaParams db).params, Owns job r.projectId r.jobId = true := by
  induction ps generalizing db with
  | nil => exact h.resolve_left fun hne => hne rfl
  | cons p ps ih => exact ih (fun q hq => hps q (.tail _ hq)) (.inr ⟨p, mem_save, hps p (.head _)⟩)

theorem filter_updateWhere {R : Type} {k g : R → Bool} {q : R} {rs : List R} (hq : g q = false) :
    (updateWhere k (fun _ => q) rs).filter g = rs.filter fun r => g r && !k r := by
  unfold updateWhere
  induction rs with
  | nil => rfl
  | cons r rs ih =>
    rw [List.map_cons, List.filter_cons, List.filter_cons, ih]
    by_cases hk : k r = true
    · simp [hk, hq]
    · simp [hk]

theorem filter_save {g : ProjectGraphNodeKusciaParamsDO → Bool} (hp : g p = false) :
    (db.saveKusciaParams p).params.filter g = db.params.filter fun r => g r && !decide (r.key = p.key) := by
  rw [save_params]
  split_ifs with h
  · exact filter_updateWhere hp
  · rw [List.filter_append]
    have hnone : [p].filter g = [] := by simp [hp]
    rw [hnone, List.append_nil]
    refine List.filter_congr fun r hr => ?_
    have hkey : decide (r.key = p.key) = false := decide_eq_false fun hk => h ⟨r, hr, hk⟩
    rw [hkey, Bool.not_false, Bool.and_true]

theorem filter_saves {g : ProjectGraphNodeKusciaParamsDO → Bool} (hps : ∀ q ∈ ps, g q = false) :
    (ps.foldl Db.saveKusciaParams db).params.filter g = db.params.filter fun r => g r && !decide (∃ q ∈ ps, r.key = q.key) := by
  induction ps generalizing db with
  | nil => simp
  | cons p ps ih =>
    rw [List.foldl_cons, ih fun q hq => hps q (.tail _ hq), filter_save (by rw [hps p (.head _), Bool.false_and])]
    refine List.filter_congr fun r _ => ?_
    by_cases hr : r.key = p.key
    · simp [hr]
    · simp [hr]

theorem params_rollback {ok : Bool} (hps : ∀ q ∈ ps, Owns job q.projectId q.jobId = true)
    (hnew : ∀ r ∈ db.params, Owns job r.projectId r.jobId = false) :
    ((ps.foldl Db.saveKusciaParams db).params.filter fun p => !(ok && decide (p.projectId = job.projectID ∧ p.jobId = job.jobID))) = db.params ↔
      ParamsCleared ok job db.params ps := by
  unfold ParamsCleared
  cases ok with
  | false =>
    simp only [Bool.false_and, Bool.not_false, List.filter_true, Bool.false_eq_true, if_false]
    constructor
    · intro h
      by_contra hne
      obtain ⟨r, hr, hown⟩ := owned_saves hps (.inl hne)
      rw [h] at hr
      exact absurd (hnew r hr) (by simp [hown])
    · rintro rfl
      rfl
  | true =>
    simp only [Bool.true_and, if_true]
    rw [filter_saves fun q hq => by simpa [Owns] using hps q hq, List.filter_eq_self]
    refine forall₂_congr fun r hr => ?_
    have hown := hnew r hr
    unfold Owns at hown ⊢
    rw [hown]
    simp only [Bool.not_false, Bool.true_and, Bool.not_eq_true', decide_eq_false_iff_not, true_and, not_exists, not_and]
    exact forall₂_congr fun q _ => ne_comm

theorem saved_owned {job' : ProjectJob} (hp : job'.projectID = job.projectID) (hj : job'.jobID = job.jobID) {k : Nat} {ts : List JobTask} :
    ∀ q ∈ saved x a job' k ts, Owns job q.projectId q.jobId = true := by
  induction ts generalizing k with
  | nil => exact fun q hq => by cases hq
  | cons t ts ih =>
    unfold saved
    split
    · intro q hq
      rcases List.mem_cons.1 hq with rfl | hq
      · exact decide_eq_true ⟨hp, hj⟩
      · exact ih q hq
    · exact fun q hq => by cases hq

theorem convert_db {k : Nat} {ts : List JobTask} : (convertKusciaJob x a job k ts db).2 = (saved x a job k ts).foldl Db.saveKusciaParams db := by
  induction ts generalizing k db with
  | nil => rfl
  | cons t ts ih =>
    unfold convertKusciaJob saved
    cases a.evalParam k t with
    | error e => rfl
    | ok eval => cases a.saveErr k with
      | some e => rfl
      | none => exact ih

theorem render_ids {rendered : ProjectJob} (h : jobRenderHandler x a db job = .ok rendered) :
    rendered.projectID = job.projectID ∧ rendered.jobID = job.jobID := by
  unfold jobRenderHandler at h
  cases hi : renderInputs x a db job with
  | error e => rw [hi] at h; cases h
  | ok tasks =>
    rw [hi] at h
    cases hc : renderCustomizeSpec x a (renderOutputs job.jobID tasks) with
    | error e => simp only [bind, Except.bind, hc] at h; cases h
    | ok tasks' =>
      simp only [bind, Except.bind, hc, pure, Except.pure] at h
      cases h
      exact ⟨rfl, rfl⟩

theorem submitted_error {rendered : ProjectJob} (h : (jobSubmittedHandler x a opts db rendered).1 = .error e) :
    (jobSubmittedHandler x a opts db rendered).2 =
      (if rendered.tasks = [] ∨ a.teeNodeID ≠ [] then [] else saved x a rendered 0 rendered.tasks).foldl Db.saveKusciaParams db := by
  unfold jobSubmittedHandler at h ⊢
  by_cases ht : rendered.tasks = []
  · simp only [ht, if_true, true_or, List.foldl_nil] at h ⊢
    cases hp : a.padOnlyErr with
    | some e => split_ifs <;> rfl
    | none => simp only [hp] at h; split_ifs at h
  · simp only [ht, if_false, false_or] at h ⊢
    by_cases htee : a.teeNodeID = []
    · simp only [htee, ne_eq, not_true, if_true, if_false] at h ⊢
      rw [← convert_db]
      cases hconv : convertKusciaJob x a rendered 0 rendered.tasks db with
      | mk r d =>
        cases r with
        | error e => rfl
        | ok u => split_ifs <;> rfl
    · simp only [htee, ne_eq, not_false_eq_true, if_true, if_false, List.foldl_nil] at h ⊢
      cases hconv : convertTrustedFlowJob a 0 rendered.tasks with
      | error e => rfl
      | ok u => split_ifs <;> rfl

theorem run_error {db₁ : Db} (hprep : prepare a req opts = .ok job) (hper : jobPersistentHandler x a opts db job = .ok db₁)
    (h : (RunGraphJob x a req opts db).1 = .error e) :
    (RunGraphJob x a req opts db).2 = failed a opts job ((runSaved x a db₁ job).foldl Db.saveKusciaParams db₁) := by
  unfold RunGraphJob runSaved at *
  simp only [hprep, hper] at h ⊢
  cases hr : jobRenderHandler x a db₁ job with
  | error e => rfl
  | ok rendered =>
    simp only [hr] at h ⊢
    have hsub : ∀ e, (jobSubmittedHandler x a opts db₁ rendered).1 = .error e → _ := fun e => submitted_error
    cases hs : jobSubmittedHandler x a opts db₁ rendered with
    | mk r d =>
      rw [hs] at h hsub
      cases r with
      | ok u => cases h
      | error e' => exact congrArg (failed a opts job) (hsub e' rfl)

theorem cleared_iff {R : Type} {b : Bool} {o : R → Bool} {l n : List R} (hnew : ∀ r ∈ n, o r = true) :
    ((l ++ n).filter fun r => !(b && o r)) = l ↔ Cleared b o l n := by
  unfold Cleared
  cases b with
  | false => simp
  | true =>
    have hnone : (n.filter fun r => !o r) = [] := List.filter_eq_nil_iff.2 fun r hr => by simp [hnew r hr]
    simp only [Bool.true_and, if_true, List.filter_append, hnone, List.append_nil, List.filter_eq_self, Bool.not_eq_true']

theorem persisted {db₁ : Db} {j : ProjectJobDO} {ts : List ProjectJobTaskDO} {ls : List ProjectJobTaskLogDO} (h : db.persist j ts ls = some db₁) :
    db₁.jobs = db.jobs ++ [j] ∧ db₁.tasks = db.tasks ++ ts ∧ db₁.logs = db.logs ++ ls ∧ db₁.params = db.params ∧ ∀ k ∈ db.jobs, k.jobId ≠ j.jobId := by
  unfold Db.persist at h
  split_ifs at h with hn
  obtain rfl := Option.some.inj h
  refine ⟨rfl, rfl, rfl, rfl, fun k hk hid => ?_⟩
  have hnodup := hn.1
  rw [List.map_append, List.map_singleton] at hnodup
  exact (List.nodup_append.1 hnodup).2.2 _ (List.mem_map_of_mem hk) _ (List.mem_singleton_self _) hid

theorem logs_owned : ∀ l ∈ job.tasks.flatMap (logDOs x a.now job), Owns job l.projectId l.jobId = true := by
  intro l hl
  obtain ⟨t, _, hl⟩ := List.mem_flatMap.1 hl
  unfold logDOs at hl
  split_ifs at hl
  · rcases List.mem_cons.1 hl with rfl | hl
    · exact decide_eq_true ⟨rfl, rfl⟩
    · obtain rfl := List.mem_singleton.1 hl
      exact decide_eq_true ⟨rfl, rfl⟩
  · cases hl

theorem rolled_back {db₁ : Db} (hper : db.persist (jobDO x job) (job.tasks.map (taskDO x job)) (job.tasks.flatMap (logDOs x a.now job)) = some db₁)
    (hnew : ∀ r ∈ db.params, Owns job r.projectId r.jobId = false) (hps : ∀ q ∈ ps, Owns job q.projectId q.jobId = true) :
    (ps.foldl Db.saveKusciaParams db₁).rollbackJob job.projectID job.jobID a.rollback = db ↔
      a.rollback.commit = true ∧ a.rollback.jobs = true ∧
        Cleared a.rollback.tasks (fun t => Owns job t.projectId t.jobId) db.tasks (job.tasks.map (taskDO x job)) ∧
        Cleared a.rollback.logs (fun l => Owns job l.projectId l.jobId) db.logs (job.tasks.flatMap (logDOs x a.now job)) ∧
        ParamsCleared a.rollback.params job db.params ps := by
  obtain ⟨hjobs, htasks, hlogs, hparams, hfresh⟩ := persisted hper
  have h₁ : (ps.foldl Db.saveKusciaParams db₁).jobs = db₁.jobs := saves_rest.1
  have h₂ : (ps.foldl Db.saveKusciaParams db₁).tasks = db₁.tasks := saves_rest.2.1
  have h₃ : (ps.foldl Db.saveKusciaParams db₁).logs = db₁.logs := saves_rest.2.2
  unfold Db.rollbackJob
  cases hcommit : a.rollback.commit with
  | false =>
    simp only [Bool.false_eq_true, if_false, false_and, iff_false]
    intro he
    have hlen := congrArg (fun d => d.jobs.length) he
    simp only [h₁, hjobs, List.length_append, List.length_singleton] at hlen
    omega
  | true =>
    simp only [if_true, true_and]
    have hjob : ((db.jobs ++ [jobDO x job]).filter fun j => !(a.rollback.jobs && decide (j.projectId = job.projectID ∧ j.jobId = job.jobID))) = db.jobs ↔
        a.rollback.jobs = true := by
      refine (cleared_iff (o := fun j : ProjectJobDO => Owns job j.projectId j.jobId) (n := [jobDO x job]) fun j hj => ?_).trans ?_
      · obtain rfl := List.mem_singleton.1 hj
        exact decide_eq_true ⟨rfl, rfl⟩
      · unfold Cleared
        cases a.rollback.jobs with
        | false => simp
        | true =>
          simp only [if_true, iff_true]
          exact fun j hj => decide_eq_false fun hown => hfresh j hj hown.2
    rw [Db.ext_iff]
    refine and_congr ?_ (and_congr ?_ (and_congr ?_ ?_))
    · simp only [h₁, hjobs]
      exact hjob
    · simp only [h₂, htasks]
      refine cleared_iff (o := fun t : ProjectJobTaskDO => Owns job t.projectId t.jobId) fun t ht => ?_
      obtain ⟨_, _, rfl⟩ := List.mem_map.1 ht
      exact decide_eq_true ⟨rfl, rfl⟩
    · simp only [h₃, hlogs]
      exact cleared_iff (o := fun l : ProjectJobTaskLogDO => Owns job l.projectId l.jobId) logs_owned
    · have hr : _ ↔ ParamsCleared a.rollback.params job db₁.params ps := params_rollback hps (hparams ▸ hnew)
      rw [hparams] at hr
      exact hr

/-- A run that reports an error leaves the tables as they were just when `Restores` says so. -/
theorem run_restores (hnew : ∀ job, prepare a req opts = .ok job → ∀ r ∈ db.params, Owns job r.projectId r.jobId = false)
    (herr : (RunGraphJob x a req opts db).1 = .error e) : (RunGraphJob x a req opts db).2 = db ↔ Restores x a req opts db := by
  unfold Restores
  cases hprep : prepare a req opts with
  | error e' =>
    unfold RunGraphJob
    simp only [hprep]
  | ok job =>
    simp only
    cases hper : jobPersistentHandler x a opts db job with
    | error e' =>
      unfold RunGraphJob
      simp only [hprep, hper]
    | ok db₁ =>
      simp only
      rw [run_error hprep hper herr]
      have hps : ∀ q ∈ runSaved x a db₁ job, Owns job q.projectId q.jobId = true := by
        unfold runSaved
        cases hr : jobRenderHandler x a db₁ job with
        | error e' => exact fun q hq => by cases hq
        | ok rendered =>
          obtain ⟨hp, hj⟩ := render_ids hr
          simp only
          split_ifs
          · exact fun q hq => by cases hq
          · exact saved_owned hp hj
      unfold failed
      unfold jobPersistentHandler at hper
      split_ifs at hper ⊢ with hsched
      · -- a scheduled job persists nothing and rolls nothing back
        cases hper
        constructor
        · intro h
          by_contra hne
          obtain ⟨r, hr, hown⟩ := owned_saves hps (.inl hne)
          rw [h] at hr
          exact absurd (hnew job hprep r hr) (by simp [hown])
        · intro h
          rw [h]
          rfl
      · cases hperr : a.persistErr with
        | some e' => rw [hperr] at hper; cases hper
        | none =>
          rw [hperr] at hper
          cases hp : db.persist (jobDO x job) (job.tasks.map (taskDO x job)) (job.tasks.flatMap (logDOs x a.now job)) with
          | none => rw [hp] at hper; cases hper
          | some d =>
            rw [hp] at hper
            cases hper
            exact rolled_back hp (hnew job hprep) hps

def plainStrings (ss : List Bytes) : Bytes := str "[" ++ (str ",").intercalate (ss.map fun s => str "\"" ++ s ++ str "\"") ++ str "]"

def texts : Texts where
  edgesJSON _ := str "[]"
  jsonStrings := plainStrings
  graphNode n := n.graphNodeId
  taskStartLog _ _ taskID := taskID ++ str " start ..."
  taskSucceedLog _ _ taskID := taskID ++ str " succeed"
  attrString attr := attr
  coverCustomAttr attr := attr
  typeAttr s := s
  modelHash _ := []
  setModelHash attr _ := attr

def answers : Answers where
  graph := .ok ⟨str "g", [], [⟨str "stats/describe", str "n", [], [str "n-output-0"], ⟨str "stats", str "describe", [], []⟩⟩], List.nodup_singleton _⟩
  project := true
  parties := .ok fun _ => [str "alice"]
  teeNodeID := []
  health := none
  newJobID := str "job"
  now := 100
  persistErr := none
  latestErr _ := none
  readData _ _ := none
  editedReport _ _ := none
  padOnlyErr := none
  teeConfig _ _ := none
  evalParam _ _ := .ok (str "eval")
  saveErr _ := none
  kuscia := some (some (str "rejected"))
  rollback := ⟨true, true, true, true, true⟩

def request : StartGraphRequest := ⟨str "p", str "g", []⟩

def earlier (node : Bytes) : Db where
  jobs := [⟨str "p", str "old", str "g", .succeed, str "g", str "[]", some 50⟩]
  tasks := [⟨str "p", str "old", GenTaskID (str "old") node, str "[]", .succeed, node, node⟩]
  logs := []
  params := [⟨str "p", str "g", node, str "old", GenTaskID (str "old") node, str "[]", str "[]", str "eval"⟩]
  job_ids := List.nodup_singleton _
  task_keys := List.nodup_singleton _
  param_keys := List.nodup_singleton _

def answered (r : Except Err ProjectJob) (e : Err) : Bool :=
  match r with
  | .error e' => decide (e' = e)
  | .ok _ => false

theorem answered_eq {r : Except Err ProjectJob} {e : Err} (h : answered r e = true) : r = .error e := by
  cases r with
  | error e' => exact congrArg Except.error (of_decide_eq_true h)
  | ok job => cases h

theorem run_restores_other : (RunGraphJob texts answers request ⟨false, []⟩ (earlier (str "m"))).1 = .error (ProjectJobCreateError (str "rejected")) ∧
    (RunGraphJob texts answers request ⟨false, []⟩ (earlier (str "m"))).2 = earlier (str "m") ∧
    Restores texts answers request ⟨false, []⟩ (earlier (str "m")) := by
  have herr : (RunGraphJob texts answers request ⟨false, []⟩ (earlier (str "m"))).1 = .error (ProjectJobCreateError (str "rejected")) :=
    answered_eq (by decide +kernel)
  have hsame : (RunGraphJob texts answers request ⟨false, []⟩ (earlier (str "m"))).2 = earlier (str "m") := by
    rw [Db.ext_iff]
    decide +kernel
  have hnew : ∀ job, prepare answers request ⟨false, []⟩ = .ok job → ∀ r ∈ (earlier (str "m")).params, Owns job r.projectId r.jobId = false := by
    intro job hjob r hr
    have hid : job.jobID = str "job" := by
      cases hjob
      rfl
    obtain rfl := List.mem_singleton.1 hr
    refine decide_eq_false fun hown => absurd (hown.2.trans hid) ?_
    decide +kernel
  exact ⟨herr, hsame, (run_restores hnew herr).1 hsame⟩

/-- The rejected run takes the parameters of an earlier one away. -/
theorem run_restores_fails :
    (RunGraphJob texts answers request ⟨false, []⟩ (earlier (str "n"))).1 = .error (ProjectJobCreateError (str "rejected")) ∧
    (earlier (str "n")).params.map (·.jobId) = [str "old"] ∧
    (RunGraphJob texts answers request ⟨false, []⟩ (earlier (str "n"))).2.params.map (·.jobId) = [] := by
  refine ⟨answered_eq (by decide +kernel), rfl, ?_⟩
  decide +kernel

end Graph.Chain
