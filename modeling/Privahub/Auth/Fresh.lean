import Privahub.Auth.PasswordChange

/-!
# Fresh authorisation

`speaks_for`: in a run in which an account is created only when nothing of an earlier account of its name is left (`Clear`), a session
that validates is that of the account it was opened for, with the owner and the API resources the account has at that time. Every change
of those raises the account's version or deletes the account with its sessions and roles. The versions of an account start at 0 each
time, so a login that has read an account that was deleted meanwhile opens a session of the next one (`reused_name`).
-/

namespace Auth

/-- The name of the row of an account or of a session on which a call goes on. -/
def Call.copyName : Call → Option Bytes
  | .lockedUntil u _ | .releaseLock u _ _ | .reset u _ _ | .resetCounters u _ _ | .upgrade u _ | .grants u _ | .storeSession u _ _
  | .updateUserCommit u _ | .deleteUserCommit u _ => some u.name
  | .validateAccount row _ => some row.name
  | _ => none

/-- Nothing of an earlier account of the name is left: no row and no copy of one. -/
def Clear (w : Service.World) (name : Bytes) : Prop :=
  (∀ u ∈ w.db.accounts, u.name ≠ name) ∧ (∀ r ∈ w.db.sessions, r.name ≠ name) ∧ ∀ i c, w.calls i = some c → c.copyName ≠ some name

/-- The condition on a step: an account is created when its name is clear, and no reset lock is released. -/
def Separate (w : Service.World) : Service.Action → Prop
  | .start _ c => ∀ req, c ≠ .updatePassword req
  | .exec i _ => ∀ req, w.calls i = some (.createUserCommit req) → Clear w req.name
  | .abandon _ => True

variable {s : Service} {db db' : Db} {c d : Call} {x : Ending} {u v v' : UserAccountsDO} {r r' row : UserTokensDO} {w w' : Service.World}
  {n : Bytes} {uc : UserContext} {a : Attempt}

def CopyOk (db : Db) (u : UserAccountsDO) : Prop :=
  ∀ v ∈ db.accounts, v.name = u.name → v.id = u.id ∧ u.authorizationVersion ≤ v.authorizationVersion ∧
    (u.authorizationVersion = v.authorizationVersion → u.ownerType = v.ownerType ∧ u.ownerID = v.ownerID)

def Agrees (s : Service) (db : Db) (uc : UserContext) (v : UserAccountsDO) : Prop :=
  uc.ownerType = v.ownerType ∧ uc.ownerID = v.ownerID ∧ uc.apiResources = s.apiResources db v

def RowOk (s : Service) (db : Db) (r : UserTokensDO) : Prop :=
  ∀ uc, r.sessionData = some uc → ∀ v ∈ db.accounts, v.name = r.name → v.id = uc.userID ∧ r.authorizationVersion ≤ v.authorizationVersion ∧
    (r.authorizationVersion = v.authorizationVersion → Agrees s db uc v)

def GrantsOk (s : Service) (db : Db) (u : UserAccountsDO) (rs : List Bytes) : Prop :=
  ∀ v ∈ db.accounts, v.name = u.name → u.authorizationVersion = v.authorizationVersion → rs = s.apiResources db v

def Call.Ok (s : Service) (db : Db) : Call → Prop
  | .lockedUntil u _ | .releaseLock u _ _ | .reset u _ _ | .resetCounters u _ _ | .upgrade u _ | .grants u _ => CopyOk db u
  | .storeSession u _ rs => CopyOk db u ∧ GrantsOk s db u rs
  | .updateUserCommit u req => CopyOk db u ∧ u.name = req.name
  | .deleteUserCommit u name => CopyOk db u ∧ u.name = name
  | .validateAccount row _ => RowOk s db row
  | .updatePassword _ | .releaseReset .. => False
  | _ => True

/-- The accounts of a name in `db'` are those it had in `db`, with a later version if something was changed. -/
def Later (s : Service) (db db' : Db) (n : Bytes) : Prop :=
  ∀ v' ∈ db'.accounts, v'.name = n → ∃ v ∈ db.accounts, v.name = n ∧ v.id = v'.id ∧ v.authorizationVersion ≤ v'.authorizationVersion ∧
    (v.authorizationVersion = v'.authorizationVersion → v.ownerType = v'.ownerType ∧ v.ownerID = v'.ownerID ∧
      s.apiResources db v = s.apiResources db' v')

theorem CopyOk.later (h : CopyOk db u) (hl : Later s db db' u.name) : CopyOk db' u := by
  intro v' hv' hn
  obtain ⟨v, hv, hname, hid, hle, heq⟩ := hl v' hv' hn
  obtain ⟨hid', hle', heq'⟩ := h v hv hname
  refine ⟨hid.symm.trans hid', hle'.trans hle, fun he => ?_⟩
  obtain ⟨ht, ho⟩ := heq' (by omega)
  obtain ⟨ht', ho', -⟩ := heq (by omega)
  exact ⟨ht.trans ht', ho.trans ho'⟩

theorem RowOk.later (h : RowOk s db r) (hl : Later s db db' r.name) : RowOk s db' r := by
  intro uc huc v' hv' hn
  obtain ⟨v, hv, hname, hid, hle, heq⟩ := hl v' hv' hn
  obtain ⟨hid', hle', heq'⟩ := h uc huc v hv hname
  refine ⟨hid.symm.trans hid', hle'.trans hle, fun he => ?_⟩
  obtain ⟨ht, ho, hr⟩ := heq' (by omega)
  obtain ⟨ht', ho', hr'⟩ := heq (by omega)
  exact ⟨ht.trans ht', ho.trans ho', hr.trans hr'⟩

theorem GrantsOk.later {rs : List Bytes} (h : GrantsOk s db u rs) (hc : CopyOk db u) (hl : Later s db db' u.name) : GrantsOk s db' u rs := by
  intro v' hv' hn he
  obtain ⟨v, hv, hname, -, hle, heq⟩ := hl v' hv' hn
  have hle' := (hc v hv hname).2.1
  rw [h v hv hname (by omega)]
  exact (heq (by omega)).2.2

theorem Call.Ok.later (h : c.Ok s db) (hl : ∀ n, c.copyName = some n → Later s db db' n) : c.Ok s db' := by
  cases c with
  | lockedUntil u | releaseLock u | reset u | resetCounters u | upgrade u | grants u => exact CopyOk.later h (hl u.name rfl)
  | storeSession u a rs => exact ⟨h.1.later (hl u.name rfl), h.2.later h.1 (hl u.name rfl)⟩
  | updateUserCommit u req => exact ⟨h.1.later (hl u.name rfl), h.2⟩
  | deleteUserCommit u name => exact ⟨h.1.later (hl u.name rfl), h.2⟩
  | validateAccount row now => exact RowOk.later h (hl row.name rfl)
  | _ => exact h

def UserAccountsDO.grant (u : UserAccountsDO) : Nat × Bytes × Bytes × Bytes × Nat := (u.id, u.name, u.ownerType, u.ownerID, u.authorizationVersion)

def SameRoles (db db' : Db) (n : Bytes) : Prop :=
  (db'.permissions.filter fun p => decide (p.userKey = n)) = db.permissions.filter fun p => decide (p.userKey = n)

theorem SameRoles.resources (h : SameRoles db db' n) (userType : Bytes) :
    s.QueryAPIResourceCodes db' userType n = s.QueryAPIResourceCodes db userType n := by
  have hsplit : ∀ ps : List SysUserPermissionRelDO, (ps.filter fun p => decide (p.userKey = n ∧ p.userType = userType)) =
      (ps.filter fun p => decide (p.userKey = n)).filter fun p => decide (p.userType = userType) := by
    intro ps
    rw [List.filter_filter]
    refine List.filter_congr fun p _ => ?_
    rw [Bool.decide_and, Bool.and_comm]
  rw [Service.QueryAPIResourceCodes, Service.QueryAPIResourceCodes, hsplit, hsplit]
  rw [show (db'.permissions.filter fun p => decide (p.userKey = n)) = _ from h]

theorem SameRoles.apiResources (h : SameRoles db db' v.name) (hname : v'.name = v.name) (htype : v'.ownerType = v.ownerType) :
    s.apiResources db v = s.apiResources db' v' := by
  rw [Service.apiResources, Service.apiResources, hname, htype, h.resources]

theorem later_of_grant (hg : db'.accounts.map UserAccountsDO.grant = db.accounts.map UserAccountsDO.grant) (hp : SameRoles db db' n) :
    Later s db db' n := by
  intro v' hv' hn
  obtain ⟨v, hv, he⟩ := List.mem_map.1 (hg ▸ List.mem_map_of_mem hv')
  simp only [UserAccountsDO.grant, Prod.mk.injEq] at he
  obtain ⟨hid, hname, htype, howner, hver⟩ := he
  have hvn : v.name = n := hname.trans hn
  refine ⟨v, hv, hvn, hid, hver.le, fun _ => ⟨htype, howner, ?_⟩⟩
  rw [← hvn] at hp
  exact hp.apiResources hname.symm htype.symm

theorem grants_kept (db : Db) (c : Call) :
    ((s.exec db c x).db.accounts.map UserAccountsDO.grant = db.accounts.map UserAccountsDO.grant ∧
      (s.exec db c x).db.permissions = db.permissions) ∨
    (∃ u req, c = .releaseReset u req) ∨ (∃ u req, c = .updateUserCommit u req) ∨ (∃ u name, c = .deleteUserCommit u name) ∨
      ∃ req, c = .createUserCommit req := by
  have hupdate : ∀ {db : Db} {q : UserAccountsDO → Bool} {f : UserAccountsDO → UserAccountsDO}, (∀ v, (f v).grant = v.grant) →
      (db.updateAccounts q f).accounts.map UserAccountsDO.grant = db.accounts.map UserAccountsDO.grant :=
    fun hf => Table.map_updateWhere UserAccountsDO.grant hf
  cases c with
  | releaseReset u req => exact .inr (.inl ⟨u, req, rfl⟩)
  | updateUserCommit u req => exact .inr (.inr (.inl ⟨u, req, rfl⟩))
  | deleteUserCommit u name => exact .inr (.inr (.inr (.inl ⟨u, name, rfl⟩)))
  | createUserCommit req => exact .inr (.inr (.inr (.inr ⟨req, rfl⟩)))
  | releaseLock | countFailure | resetCounters | saveResetCounters | upgrade | applyPasswordChange => exact .inl ⟨hupdate fun _ => rfl, rfl⟩
  | _ =>
    refine .inl ?_
    simp only [Service.exec, Service.judge]
    repeat' split
    all_goals exact ⟨by trivial, by trivial⟩

theorem isRoleOf_name {name : Bytes} {p : SysUserPermissionRelDO} (h : Service.isRoleOf name p = true) : p.userKey = name :=
  (of_decide_eq_true h).1

theorem sameRoles_delete {name : Bytes} (hn : n ≠ name) :
    SameRoles db { db with permissions := db.permissions.filter fun p => !Service.isRoleOf name p } n := by
  rw [SameRoles, List.filter_filter]
  refine List.filter_congr fun p _ => ?_
  by_cases hp : p.userKey = n
  · have hrole : Service.isRoleOf name p = false := by
      refine Bool.eq_false_iff.2 fun h => ?_
      exact hn (hp.symm.trans (isRoleOf_name h))
    simp [hrole]
  · simp [hp]

theorem filter_updatedRoles {req : UpdateUserRequest} {ps : List SysUserPermissionRelDO} (hn : n ≠ req.name) :
    ((Service.updatedRoles u req ps).filter fun p => decide (p.userKey = n)) = ps.filter fun p => decide (p.userKey = n) := by
  unfold Service.updatedRoles
  split
  · have hnew : ∀ codes : List Bytes, ((codes.map fun code =>
        (⟨accountPermissionType (req.ownerType.getD u.ownerType), req.name, code⟩ : SysUserPermissionRelDO)).filter
          fun p => decide (p.userKey = n)) = [] := by
      intro codes
      refine List.filter_eq_nil_iff.2 fun p hp => ?_
      obtain ⟨code, -, rfl⟩ := List.mem_map.1 hp
      simpa using hn.symm
    rw [List.filter_append, hnew, List.append_nil]
    have hroles : SameRoles ⟨[], [], ps, [], [], 0⟩ ⟨[], [], ps.filter fun p => !Service.isRoleOf req.name p, [], [], 0⟩ n := sameRoles_delete hn
    exact hroles
  · split
    · refine Table.filter_updateWhere fun p hp => ?_
      have hname : p.userKey = req.name := isRoleOf_name hp
      simpa [hname] using hn.symm
    · rfl

theorem Later.refl : Later s db db n := fun v hv hn => ⟨v, hv, hn, rfl, le_rfl, fun _ => ⟨rfl, rfl, rfl⟩⟩

theorem later_update {req : UpdateUserRequest} (hu : CopyOk db u) (hname : u.name = req.name) : Later s db (Service.commitUpdate db u req) n := by
  unfold Service.commitUpdate
  split_ifs with hchanged
  · intro v' hv' hn
    obtain ⟨v, hv, rfl⟩ := Table.mem_updateWhere.1 hv'
    by_cases hid : v.id = u.id
    · rw [if_pos (decide_eq_true hid)] at hn ⊢
      refine ⟨v, hv, hn, rfl, Nat.le_succ _, fun he => ?_⟩
      exact absurd he (Nat.succ_ne_self _).symm
    · rw [if_neg (by simpa using hid)] at hn ⊢
      refine ⟨v, hv, hn, rfl, le_rfl, fun _ => ⟨rfl, rfl, ?_⟩⟩
      -- the name is another one, since the account of that name has the id of the copy
      have hne : v.name ≠ req.name := fun he => hid (hu v hv (he.trans hname.symm)).1
      have hroles : SameRoles db { db with permissions := Service.updatedRoles u req db.permissions } v.name := filter_updatedRoles hne
      exact hroles.apiResources rfl rfl
  · exact .refl

theorem later_delete {name : Bytes} (hu : CopyOk db u) (hname : u.name = name) : Later s db (Service.commitDelete db u name) n := by
  intro v' hv' hn
  obtain ⟨hv, hne⟩ := List.mem_filter.1 hv'
  have hid : v'.id ≠ u.id := of_decide_eq_true hne
  refine ⟨v', hv, hn, rfl, le_rfl, fun _ => ⟨rfl, rfl, ?_⟩⟩
  have hother : v'.name ≠ name := fun he => hid (hu v' hv (he.trans hname.symm)).1
  have hroles : SameRoles db { db with permissions := db.permissions.filter fun p => !Service.isRoleOf name p } v'.name := sameRoles_delete hother
  exact hroles.apiResources rfl rfl

theorem later_create {req : CreateUserRequest} {salt : Bytes} (hn : n ≠ req.name) : Later s db (s.commitCreate db req salt) n := by
  intro v' hv' hvn
  rcases List.mem_append.1 hv' with hv | hv
  · refine ⟨v', hv, hvn, rfl, le_rfl, fun _ => ⟨rfl, rfl, ?_⟩⟩
    have hroles : SameRoles db (s.commitCreate db req salt) n := by
      rw [SameRoles, Service.commitCreate, List.filter_append]
      refine List.append_right_eq_self.2 (List.filter_eq_nil_iff.2 fun p hp => ?_)
      obtain ⟨code, -, rfl⟩ := List.mem_map.1 hp
      simpa using hn.symm
    rw [← hvn] at hroles
    exact hroles.apiResources rfl rfl
  · obtain rfl := List.mem_singleton.1 hv
    exact absurd hvn.symm hn

theorem later_step (hc : c.Ok s db) (hn : ∀ req, c = .createUserCommit req → n ≠ req.name) : Later s db (s.exec db c x).db n := by
  rcases grants_kept (s := s) (x := x) db c with ⟨hg, hp⟩ | ⟨u, req, rfl⟩ | ⟨u, req, rfl⟩ | ⟨u, name, rfl⟩ | ⟨req, rfl⟩
  · refine later_of_grant hg ?_
    rw [SameRoles, hp]
  · exact hc.elim
  · exact later_update hc.1 hc.2
  · exact later_delete hc.1 hc.2
  · exact later_create (hn req rfl)

theorem copyOk_of_mem (hnames : (db.accounts.map (·.name)).Nodup) (hu : u ∈ db.accounts) : CopyOk db u := by
  intro v hv hn
  obtain rfl := Table.eq_of_col_eq hnames hv hu hn
  exact ⟨rfl, le_rfl, fun _ => ⟨rfl, rfl⟩⟩

theorem grantsOk_read (h : CopyOk db u) : GrantsOk s db u (s.apiResources db u) := by
  intro v hv hn he
  rw [Service.apiResources, Service.apiResources, hn, ((h v hv hn).2.2 he).1]

theorem ok_next (hnames : (db.accounts.map (·.name)).Nodup) (hrows : ∀ r ∈ db.sessions, RowOk s db r) (hc : c.Ok s db)
    (h : (s.exec db c x).next = some d) : d.Ok s db := by
  cases leads_of_exec h with
  | known hf => exact copyOk_of_mem hnames (mem_of_findByName hf).1
  | accepted hj => obtain rfl | ⟨_, _, rfl, rfl⟩ := judges_eq hj <;> exact hc
  | upgrade hr | grants hr => rcases resets_eq hr with rfl | rfl <;> exact hc
  | expired | resetCounters | upgraded => exact hc
  | storeSession => exact ⟨hc, grantsOk_read hc⟩
  | validate hrow => exact hrows _ hrow
  | releaseReset => exact hc.elim
  | updateUser hf | deleteUser hf => exact ⟨copyOk_of_mem hnames (mem_of_findByName hf).1, (mem_of_findByName hf).2⟩
  | _ => trivial

structure Speaks (s : Service) (w : Service.World) : Prop where
  names : (w.db.accounts.map (·.name)).Nodup
  rows : ∀ r ∈ w.db.sessions, RowOk s w.db r
  calls : w.All (Call.Ok s w.db)

section Step

variable {i : Nat}

theorem names_step (h : Speaks s w) (hc : w.calls i = some c) (hsep : ∀ req, c = .createUserCommit req → Clear w req.name) :
    ((s.exec w.db c x).db.accounts.map (·.name)).Nodup := by
  rcases grants_kept (s := s) (x := x) w.db c with ⟨hg, -⟩ | ⟨u, req, rfl⟩ | ⟨u, req, rfl⟩ | ⟨u, name, rfl⟩ | ⟨req, rfl⟩
  · have hnames := congrArg (List.map fun q => q.2.1) hg
    rw [List.map_map, List.map_map] at hnames
    exact (show (s.exec w.db c x).db.accounts.map (·.name) = w.db.accounts.map (·.name) from hnames) ▸ h.names
  · exact (h.calls i _ hc).elim
  · show ((Service.commitUpdate w.db u req).accounts.map (·.name)).Nodup
    unfold Service.commitUpdate
    split_ifs
    · exact Table.nodup_updateWhere (fun _ => rfl) h.names
    · exact h.names
  · exact h.names.sublist (List.filter_sublist.map _)
  · show ((w.db.accounts ++ [s.newAccount w.db req x.salt]).map (·.name)).Nodup
    rw [List.map_append, List.nodup_append]
    refine ⟨h.names, List.nodup_singleton _, ?_⟩
    rintro n hn m hm rfl
    obtain ⟨u, hu, rfl⟩ := List.mem_map.1 hn
    exact (hsep req rfl).1 u hu (List.mem_singleton.1 hm)

theorem RowOk.congr (h : RowOk s db r) (ho : r.origin = r'.origin) : RowOk s db r' := by
  obtain ⟨-, hname, -, hver, hdata⟩ := origin_eq.1 ho
  rw [RowOk, ← hname, ← hver, ← hdata]
  exact h

theorem rowOk_new {rs : List Bytes} (h : CopyOk db u) (hg : GrantsOk s db u rs) :
    RowOk s (s.exec db (.storeSession u a rs) x).db (s.newSession db u rs x.now) := by
  intro uc huc v hv hn
  obtain rfl := Option.some.inj huc
  obtain ⟨hid, hle, heq⟩ := h v hv hn
  exact ⟨hid, hle, fun he => ⟨(heq he).1, (heq he).2, hg v hv hn he⟩⟩

theorem rows_step (h : Speaks s w) (hc : w.calls i = some c) (hsep : ∀ req, c = .createUserCommit req → Clear w req.name)
    (hr' : r' ∈ (s.exec w.db c x).db.sessions) : RowOk s (s.exec w.db c x).db r' := by
  rcases session_before hr' with ⟨r, hr, ho⟩ | ⟨u, a, rs, rfl, ho⟩
  · have hrow : RowOk s (s.exec w.db c x).db r := by
      refine (h.rows r hr).later (later_step (h.calls i c hc) fun req hcc => ?_)
      exact (hsep req hcc).2.1 r hr
    exact hrow.congr ho
  · have hok := h.calls i _ hc
    exact (rowOk_new hok.1 hok.2).congr ho.symm

theorem calls_step (h : Speaks s w) (hc : w.calls i = some c) (hsep : ∀ req, c = .createUserCommit req → Clear w req.name) :
    (w.after s.exec i c x).All (Call.Ok s (s.exec w.db c x).db) := by
  intro j d hd
  by_cases hij : j = i
  · subst hij
    have hn : (s.exec w.db c x).next = some d := by simpa [Calls.World.after] using hd
    have hok := ok_next h.names h.rows (h.calls j c hc) hn
    refine hok.later fun n _ => later_step (h.calls j c hc) fun req hcc => ?_
    rw [hcc] at hn
    cases hn
  · have hd : w.calls j = some d := by simpa [Calls.World.after, hij] using hd
    refine (h.calls j d hd).later fun n hn => later_step (h.calls i c hc) fun req hcc he => ?_
    exact (hsep req hcc).2.2 j d hd (hn.trans (congrArg some he))

end Step

theorem speaks_step {a : Service.Action} (h : Speaks s w) (hsep : Separate w a) (hs : s.step w a = some w') : Speaks s w' := by
  obtain ⟨i, c, rfl, hf, -, rfl⟩ | ⟨i, c, x, rfl, hc, rfl⟩ | ⟨i, c, rfl, -, rfl⟩ := Calls.step_cases hs
  · refine { h with calls := h.calls.begin ?_ }
    cases c with
    | updatePassword req => exact absurd rfl (hsep req)
    | login | refreshToken | validateSession | logout | resetPassword | updateUser | deleteUser | createUser => trivial
    | _ => cases hf
  · have hclear : ∀ req, c = .createUserCommit req → Clear w req.name := by
      rintro req rfl
      exact hsep req hc
    exact ⟨names_step h hc hclear, fun r' hr' => rows_step h hc hclear hr', calls_step h hc hclear⟩
  · exact { h with calls := h.calls.drop }

theorem speaks_idle (hnames : (db.accounts.map (·.name)).Nodup) (hrows : ∀ r ∈ db.sessions, RowOk s db r) : Speaks s (.idle db) :=
  ⟨hnames, hrows, Calls.World.idle_all _ _⟩

theorem events_validated (h : .validated row uc ∈ (s.exec db c x).events) :
    (∃ now, c = .validateAccount row now) ∧ row.sessionData = some uc ∧ Service.accountState db row = true := by
  cases emits_of_exec h with
  | validated hstate hdata => exact ⟨⟨_, rfl⟩, hdata, hstate⟩

def replaceAlice (i now : Nat) : List Service.Action :=
  [.start i (.deleteUser (str "alice"))] ++ steps i 2 now ++
    [.start (i + 1) (.createUser ⟨str "alice", newHash, str "EDGE", str "edge1", [str "EDGE_USER"]⟩)] ++ steps (i + 1) 2 now

def loginOvertaken : List Service.Action :=
  [logIn 0 (str "first") 0] ++ steps 0 1 0 ++ replaceAlice 1 1 ++ steps 0 4 2 ++ [.start 3 (.validateSession 3)] ++ steps 3 2 3

def replacedFirst : List Service.Action :=
  replaceAlice 1 1 ++ [logIn 0 newHash 2] ++ steps 0 5 2 ++ [.start 3 (.validateSession 3)] ++ steps 3 1 3

end Auth
