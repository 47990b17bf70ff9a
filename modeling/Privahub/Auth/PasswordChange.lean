import Privahub.Auth.Rotation

/-!
# Password changes

`only_new_password`: in a run whose writes of a password's columns find them as their call has read them (`Untouched`), the account has
the hash of the password it was last changed to, and only sessions that were opened with that password have its version. The writes do
not see to it: `Login` upgrades an old hash under the name alone, and takes a change of the password back (`upgrade_restores`).
-/

namespace Auth

def Call.holds : Call → Option UserAccountsDO
  | .lockedUntil u _ | .releaseLock u _ _ | .reset u _ _ | .resetCounters u _ _ | .upgrade u _ | .grants u _ | .storeSession u _ _
  | .releaseReset u _ | .applyPasswordChange u _ _ => some u
  | _ => none

def Call.Passed (s : Service) : Call → Prop
  | .reset u a rehash | .resetCounters u a rehash => s.kdf.VerifyStoredPassword u.passwordHash a.cand = ⟨true, rehash⟩
  | .upgrade u a => s.kdf.VerifyStoredPassword u.passwordHash a.cand = ⟨true, true⟩
  | .grants u a | .storeSession u a _ => (s.kdf.VerifyStoredPassword u.passwordHash a.cand).ok = true
  | .applyPasswordChange _ p _ => p ≠ []
  | _ => True

def Call.keepsAccounts : Call → Bool
  | .createUser _ | .createUserCommit _ | .deleteUser _ | .deleteUserCommit .. => false
  | _ => true

def Event.newPassword (id : Nat) : Event → Option Bytes
  | .changed i p => if i = id then some p else none
  | _ => none

def lastChange (log : List Event) (id : Nat) : Option Bytes := (log.filterMap (Event.newPassword id)).getLast?

/-- The call writes the columns of the password, and they are as it has read them. -/
def Untouched (db : Db) : Call → Prop
  | .upgrade u _ => ∀ v ∈ db.accounts, v.name = u.name → v.passwordHash = u.passwordHash
  | .applyPasswordChange u _ _ => ∀ v ∈ db.accounts, v.id = u.id → v.passwordVersion = u.passwordVersion
  | .releaseReset u _ => ∀ v ∈ db.accounts, v.id = u.id → v.passwordHash = u.passwordHash ∧ v.passwordVersion = u.passwordVersion
  | _ => True

instance (db : Db) : ∀ c, Decidable (Untouched db c)
  | .upgrade u _ => inferInstanceAs (Decidable (∀ v ∈ db.accounts, v.name = u.name → v.passwordHash = u.passwordHash))
  | .applyPasswordChange u _ _ => inferInstanceAs (Decidable (∀ v ∈ db.accounts, v.id = u.id → v.passwordVersion = u.passwordVersion))
  | .releaseReset u _ => inferInstanceAs (Decidable (∀ v ∈ db.accounts, v.id = u.id →
      v.passwordHash = u.passwordHash ∧ v.passwordVersion = u.passwordVersion))
  | .login .. | .failUnknown .. | .failUnknownAccount .. | .lockedUntil .. | .releaseLock .. | .fail .. | .countFailure .. | .reset ..
  | .resetCounters .. | .grants .. | .storeSession .. | .refreshToken _ | .refreshAccount .. | .refreshSwap .. | .refreshRevoke ..
  | .validateSession _ | .validateAccount .. | .slide .. | .revokeSession _ | .logout .. | .updatePassword _ | .saveResetCounters _
  | .resetPassword .. | .clearUserSessions _ | .updateUser _ | .updateUserCommit .. | .deleteUser _ | .deleteUserCommit ..
  | .createUser _ | .createUserCommit _ => .isTrue trivial

variable {s : Service} {db : Db} {c d : Call} {x : Ending} {u v v' : UserAccountsDO} {r r' row : UserTokensDO} {w w' : Service.World}
  {id : Nat} {p : Bytes} {es log : List Event}

theorem lastChange_append (h : ∀ e ∈ es, e.newPassword id = none) : lastChange (log ++ es) id = lastChange log id := by
  rw [lastChange, lastChange, List.filterMap_append, List.filterMap_eq_nil_iff.2 h, List.append_nil]

theorem lastChange_changed : lastChange (log ++ [.changed id p]) id = some p := by
  rw [lastChange, List.filterMap_append]
  simp [Event.newPassword]

theorem newPassword_eq_none {e : Event} (h : ∀ q, e ≠ .changed id q) : e.newPassword id = none := by
  cases e with
  | changed i q =>
    refine if_neg ?_
    rintro rfl
    exact h q rfl
  | _ => rfl

theorem newHashAccepted_ne_nil (h : s.newHashAccepted u p = true) : p ≠ [] := by
  rintro rfl
  simp [Service.newHashAccepted, IsClientHash] at h

theorem holds_next (h : (s.exec db c x).next = some d) (hd : d.holds = some u) :
    ∃ u₀, (c.holds = some u₀ ∨ u₀ ∈ db.accounts) ∧ u.id = u₀.id ∧ u.name = u₀.name ∧ u.passwordHash = u₀.passwordHash ∧
      u.passwordVersion = u₀.passwordVersion := by
  cases leads_of_exec h with
  | known hf | releaseReset hf | resetPassword hf =>
    obtain rfl := Option.some.inj hd
    exact ⟨_, .inr (mem_of_findByName hf).1, rfl, rfl, rfl, rfl⟩
  | accepted hj =>
    obtain rfl := Option.some.inj hd
    obtain rfl | ⟨u₀, _, rfl, rfl⟩ := judges_eq hj
    · exact ⟨_, .inl rfl, rfl, rfl, rfl, rfl⟩
    · exact ⟨u₀, .inl rfl, rfl, rfl, rfl, rfl⟩
  | upgrade hr | grants hr =>
    refine ⟨u, .inl ?_, rfl, rfl, rfl, rfl⟩
    rcases resets_eq hr with rfl | rfl <;> exact hd
  | change hc =>
    obtain rfl := Option.some.inj hd
    obtain ⟨-, hf⟩ | ⟨u₀, rfl, rfl⟩ := checks_eq hc
    · exact ⟨_, .inr (mem_of_findByName hf).1, rfl, rfl, rfl, rfl⟩
    · exact ⟨u₀, .inl rfl, rfl, rfl, rfl, rfl⟩
  | expired | resetCounters | upgraded | storeSession => exact ⟨u, .inl hd, rfl, rfl, rfl, rfl⟩
  | _ => cases hd

theorem of_first (hf : c.first = true) : c.Passed s ∧ c.holds = none := by
  cases c with
  | login | refreshToken | validateSession | logout | updatePassword | resetPassword | updateUser | deleteUser | createUser =>
    exact ⟨trivial, rfl⟩
  | _ => cases hf

theorem passed_next (hc : c.Passed s) (h : (s.exec db c x).next = some d) : d.Passed s := by
  cases leads_of_exec h with
  | accepted _ hv => exact hv
  | resetCounters | storeSession => exact hc
  | upgrade hr => rcases resets_eq hr with rfl | rfl <;> exact hc
  | grants hr =>
    rcases resets_eq hr with rfl | rfl
    all_goals exact congrArg (·.ok) hc
  | upgraded => exact congrArg (·.ok) hc
  | change _ hnew | resetPassword _ hnew => exact newHashAccepted_ne_nil hnew
  | _ => trivial

theorem keepsAccounts_next (hc : c.keepsAccounts) (h : (s.exec db c x).next = some d) : d.keepsAccounts := by
  cases leads_of_exec h with
  | createUser | deleteUser => cases hc
  | _ => rfl

def UserAccountsDO.secret (u : UserAccountsDO) : Nat × Bytes × Stored × Nat := (u.id, u.name, u.passwordHash, u.passwordVersion)

theorem events_changed (h : .changed id p ∈ (s.exec db c x).events) : ∃ u m, c = .applyPasswordChange u p m ∧ u.id = id := by
  cases emits_of_exec h with
  | changed => exact ⟨_, _, rfl, rfl⟩

theorem lastChange_of_ne (h : ∀ u p m, c ≠ .applyPasswordChange u p m) :
    lastChange (log ++ (s.exec db c x).events) id = lastChange log id := by
  refine lastChange_append fun e he => newPassword_eq_none ?_
  rintro q rfl
  obtain ⟨u, m, rfl, -⟩ := events_changed he
  exact h u q m rfl

theorem secret_kept (db : Db) (hc : c.keepsAccounts) : (s.exec db c x).db.accounts.map UserAccountsDO.secret = db.accounts.map UserAccountsDO.secret ∨
    (∃ u a, c = .upgrade u a) ∨ (∃ u req, c = .releaseReset u req) ∨ ∃ u p m, c = .applyPasswordChange u p m := by
  have hupdate : ∀ {db : Db} {q : UserAccountsDO → Bool} {f : UserAccountsDO → UserAccountsDO}, (∀ v, (f v).secret = v.secret) →
      (db.updateAccounts q f).accounts.map UserAccountsDO.secret = db.accounts.map UserAccountsDO.secret :=
    fun hf => Table.map_updateWhere UserAccountsDO.secret hf
  cases c with
  | createUser | createUserCommit | deleteUser | deleteUserCommit => cases hc
  | upgrade u a => exact .inr (.inl ⟨u, a, rfl⟩)
  | releaseReset u req => exact .inr (.inr (.inl ⟨u, req, rfl⟩))
  | applyPasswordChange u p m => exact .inr (.inr (.inr ⟨u, p, m, rfl⟩))
  | releaseLock | countFailure | resetCounters | saveResetCounters => exact .inl (hupdate fun _ => rfl)
  | updateUserCommit u req =>
    refine .inl ?_
    simp only [Service.exec, Service.commitUpdate]
    split_ifs
    · exact hupdate (f := Service.updatedAccount req) fun _ => rfl
    · rfl
  | _ =>
    refine .inl ?_
    simp only [Service.exec, Service.judge]
    repeat' split
    all_goals rfl

def Found (db : Db) (u : UserAccountsDO) : Prop := ∃ v ∈ db.accounts, v.id = u.id ∧ v.name = u.name

theorem secret_saveAccount (hids : (db.accounts.map (·.id)).Nodup) (hf : Found db u)
    (hu : ∀ v ∈ db.accounts, v.id = u.id → v.passwordHash = u.passwordHash ∧ v.passwordVersion = u.passwordVersion) :
    (Service.saveAccount db u).accounts.map UserAccountsDO.secret = db.accounts.map UserAccountsDO.secret := by
  obtain ⟨v₀, hv₀, hid₀, hname₀⟩ := hf
  have hany : db.accounts.any fun v => decide (v.id = u.id) := List.any_eq_true.2 ⟨v₀, hv₀, decide_eq_true hid₀⟩
  rw [Service.saveAccount, if_pos hany]
  refine Table.map_updateWhere_of_mem UserAccountsDO.secret fun v hv hid => ?_
  have hid : v.id = u.id := of_decide_eq_true hid
  obtain ⟨hh, hv'⟩ := hu v hv hid
  obtain rfl := Table.eq_of_col_eq hids hv hv₀ (hid.trans hid₀.symm)
  simp only [UserAccountsDO.secret, hid, hname₀, hh, hv']

inductive After (s : Service) (x : Ending) (v v' : UserAccountsDO) : Call → Prop where
  | kept {c : Call} : v'.passwordHash = v.passwordHash → v'.passwordVersion = v.passwordVersion →
      (∀ u p m, c = .applyPasswordChange u p m → v.id ≠ u.id) → After s x v v' c
  | upgraded {u : UserAccountsDO} {a : Attempt} : v.name = u.name → v'.passwordVersion = v.passwordVersion → After s x v v' (.upgrade u a)
  | changed {u : UserAccountsDO} {p : Bytes} {m : Bool} : v.id = u.id → v'.passwordHash = s.kdf.HashClientPassword p x.salt → v'.passwordVersion = v.passwordVersion + 1 →
      After s x v v' (.applyPasswordChange u p m)

structure Accounts (s : Service) (x : Ending) (c : Call) (db db' : Db) : Prop where
  ids : db'.accounts.map (·.id) = db.accounts.map (·.id)
  names : db'.accounts.map (·.name) = db.accounts.map (·.name)
  before : ∀ v' ∈ db'.accounts, ∃ v ∈ db.accounts, v.id = v'.id ∧ v.name = v'.name ∧ After s x v v' c

theorem Accounts.of_secret {db' : Db} (h : db'.accounts.map UserAccountsDO.secret = db.accounts.map UserAccountsDO.secret)
    (hc : ∀ u p m, c ≠ .applyPasswordChange u p m) : Accounts s x c db db' := by
  refine ⟨?_, ?_, fun v' hv' => ?_⟩
  · have hids := congrArg (List.map Prod.fst) h
    rwa [List.map_map, List.map_map] at hids
  · have hnames := congrArg (List.map fun q => q.2.1) h
    rwa [List.map_map, List.map_map] at hnames
  · obtain ⟨v, hv, he⟩ := List.mem_map.1 (h ▸ List.mem_map_of_mem hv')
    simp only [UserAccountsDO.secret, Prod.mk.injEq] at he
    exact ⟨v, hv, he.1, he.2.1, .kept he.2.2.1.symm he.2.2.2.symm fun u p m hcc => absurd hcc (hc u p m)⟩

theorem accounts_step (hc : c.keepsAccounts) (hu : Untouched db c) (hids : (db.accounts.map (·.id)).Nodup)
    (hf : ∀ u, c.holds = some u → Found db u) : Accounts s x c db (s.exec db c x).db := by
  by_cases happ : ∃ u p m, c = .applyPasswordChange u p m
  · obtain ⟨u, p, m, rfl⟩ := happ
    refine ⟨Table.map_updateWhere _ fun _ => rfl, Table.map_updateWhere _ fun _ => rfl, fun v' hv' => ?_⟩
    obtain ⟨v, hv, rfl⟩ := Table.mem_updateWhere.1 hv'
    by_cases hid : v.id = u.id
    · rw [if_pos (decide_eq_true hid)]
      refine ⟨v, hv, rfl, rfl, .changed hid rfl ?_⟩
      rw [hu v hv hid]
      rfl
    · rw [if_neg (by simpa using hid)]
      refine ⟨v, hv, rfl, rfl, .kept rfl rfl fun u' p' m' hcc => ?_⟩
      rw [← (Call.applyPasswordChange.inj hcc).1]
      exact hid
  · have hno : ∀ u p m, c ≠ .applyPasswordChange u p m := fun u p m hcc => happ ⟨u, p, m, hcc⟩
    rcases secret_kept (s := s) (x := x) db hc with hk | ⟨u, a, rfl⟩ | ⟨u, req, rfl⟩ | ⟨u, p, m, rfl⟩
    · exact .of_secret hk hno
    · refine ⟨Table.map_updateWhere _ fun _ => rfl, Table.map_updateWhere _ fun _ => rfl, fun v' hv' => ?_⟩
      obtain ⟨v, hv, rfl⟩ := Table.mem_updateWhere.1 hv'
      by_cases hn : v.name = u.name
      · rw [if_pos (decide_eq_true hn)]
        exact ⟨v, hv, rfl, rfl, .upgraded hn rfl⟩
      · rw [if_neg (by simpa using hn)]
        exact ⟨v, hv, rfl, rfl, .kept rfl rfl fun u' p' m' hcc => absurd hcc (hno u' p' m')⟩
    · exact .of_secret (secret_saveAccount hids (hf u rfl) hu) hno
    · exact absurd rfl (hno u p m)

theorem events_opened {cand : PasswordCandidates} (h : .opened row cand ∈ (s.exec db c x).events) :
    ∃ u a rs, c = .storeSession u a rs ∧ row.id = db.fresh ∧ cand = a.cand := by
  cases emits_of_exec h with
  | opened => exact ⟨_, _, _, rfl, rfl, rfl⟩

/-- The session of the row was opened, and with the password `p`. -/
def Authenticated (log : List Event) (r : UserTokensDO) (p : Bytes) : Prop :=
  (∃ row cand, .opened row cand ∈ log ∧ row.id = r.id) ∧ ∀ row cand, .opened row cand ∈ log → row.id = r.id → cand.sha256 = p

def Known (s : Service) (db : Db) (log : List Event) (u : UserAccountsDO) : Prop :=
  ∃ v ∈ db.accounts, v.id = u.id ∧ v.name = u.name ∧ u.passwordVersion ≤ v.passwordVersion ∧
    (u.passwordVersion = v.passwordVersion → ∀ p, lastChange log u.id = some p → s.kdf.HashOf p u.passwordHash)

theorem Known.found (h : Known s db log u) : Found db u := by
  obtain ⟨v, hv, hid, hname, -⟩ := h
  exact ⟨v, hv, hid, hname⟩

structure Current (s : Service) (w : Service.World) : Prop where
  ids : (w.db.accounts.map (·.id)).Nodup
  names : (w.db.accounts.map (·.name)).Nodup
  hashes : ∀ v ∈ w.db.accounts, ∀ p, lastChange w.log v.id = some p → s.kdf.HashOf p v.passwordHash ∧ p ≠ []
  calls : w.All fun c => c.keepsAccounts ∧ c.Passed s ∧ ∀ u, c.holds = some u → Known s w.db w.log u
  opened : ∀ row cand, .opened row cand ∈ w.log → row.id < w.db.fresh
  sessions : ∀ r ∈ w.db.sessions, r.id < w.db.fresh ∧ ∀ v ∈ w.db.accounts, v.name = r.name → r.pwdVer ≤ v.passwordVersion ∧
    (r.pwdVer = v.passwordVersion → ∀ p, lastChange w.log v.id = some p → Authenticated w.log r p)

section Step

variable {i : Nat}

theorem not_upgraded {a : Attempt} (h : Current s w) (hc : w.calls i = some (.upgrade u a)) (hu : Untouched w.db (.upgrade u a))
    (hv : v ∈ w.db.accounts) (hn : v.name = u.name) : lastChange w.log v.id = none := by
  cases hl : lastChange w.log v.id with
  | none => rfl
  | some p =>
    obtain ⟨salt, hstored⟩ := (h.hashes v hv p hl).1
    have hpass : s.kdf.VerifyStoredPassword u.passwordHash a.cand = ⟨true, true⟩ := (h.calls i _ hc).2.1
    rw [← hu v hv hn, hstored] at hpass
    simp only [Kdf.VerifyStoredPassword, Kdf.HashClientPassword, Nat.lt_irrefl] at hpass
    split_ifs at hpass <;> cases hpass

theorem lastChange_after (h : Current s w) (hc : w.calls i = some c) (hu : Untouched w.db c) (hv : v ∈ w.db.accounts)
    (ha : After s x v v' c) :
    (lastChange (w.log ++ (s.exec w.db c x).events) v.id = lastChange w.log v.id ∧ v'.passwordVersion = v.passwordVersion ∧
      (v'.passwordHash = v.passwordHash ∨ lastChange w.log v.id = none)) ∨
    ∃ p, lastChange (w.log ++ (s.exec w.db c x).events) v.id = some p ∧ v'.passwordHash = s.kdf.HashClientPassword p x.salt ∧ p ≠ [] ∧
      v'.passwordVersion = v.passwordVersion + 1 := by
  cases ha with
  | kept hh hver hne =>
    refine .inl ⟨?_, hver, .inl hh⟩
    refine lastChange_append fun e he => newPassword_eq_none ?_
    rintro q rfl
    obtain ⟨u, m, rfl, hid⟩ := events_changed he
    exact hne u q m rfl hid.symm
  | upgraded hn hver => exact .inl ⟨lastChange_of_ne (fun _ _ _ he => nomatch he), hver, .inr (not_upgraded h hc hu hv hn)⟩
  | changed hid hh hver =>
    rename_i u p m
    refine .inr ⟨p, ?_, hh, (h.calls i _ hc).2.1, hver⟩
    rw [hid]
    exact lastChange_changed

theorem Accounts.after {db' : Db} (h : Accounts s x c db db') (hids : (db.accounts.map (·.id)).Nodup) (hv : v ∈ db.accounts) :
    ∃ v' ∈ db'.accounts, v.id = v'.id ∧ v.name = v'.name ∧ After s x v v' c := by
  have hmem : v.id ∈ db'.accounts.map (·.id) := h.ids ▸ List.mem_map_of_mem hv
  obtain ⟨v', hv', hid'⟩ := List.mem_map.1 hmem
  obtain ⟨v₁, hv₁, hid, hname, ha⟩ := h.before v' hv'
  obtain rfl := Table.eq_of_col_eq hids hv₁ hv (hid.trans hid')
  exact ⟨v', hv', hid, hname, ha⟩

theorem Current.accounts (h : Current s w) (hc : w.calls i = some c) (hu : Untouched w.db c) :
    Accounts s x c w.db (s.exec w.db c x).db :=
  accounts_step (h.calls i c hc).1 hu h.ids fun u hu => ((h.calls i c hc).2.2 u hu).found

theorem known_of_mem (h : Current s w) (hv : v ∈ w.db.accounts) : Known s w.db w.log v :=
  ⟨v, hv, rfl, rfl, le_rfl, fun _ p hp => (h.hashes v hv p hp).1⟩

theorem Known.congr {u₀ : UserAccountsDO} (h : Known s db log u₀) (hid : u.id = u₀.id) (hname : u.name = u₀.name)
    (hhash : u.passwordHash = u₀.passwordHash) (hver : u.passwordVersion = u₀.passwordVersion) : Known s db log u := by
  rw [Known, hid, hname, hhash, hver]
  exact h

theorem known_after (h : Current s w) (hc : w.calls i = some c) (hu : Untouched w.db c) (hk : Known s w.db w.log u) :
    Known s (s.exec w.db c x).db (w.log ++ (s.exec w.db c x).events) u := by
  obtain ⟨v, hv, hid, hname, hle, heq⟩ := hk
  obtain ⟨v', hv', hid', hname', ha⟩ := (h.accounts hc hu).after h.ids hv
  refine ⟨v', hv', hid'.symm.trans hid, hname'.symm.trans hname, ?_⟩
  rcases lastChange_after h hc hu hv ha with ⟨hlog, hver, -⟩ | ⟨p, -, -, -, hver⟩
  · rw [hid] at hlog
    rw [hlog, hver]
    exact ⟨hle, heq⟩
  · rw [hver]
    refine ⟨by omega, fun he => ?_⟩
    omega

theorem hashes_after (h : Current s w) (hc : w.calls i = some c) (hu : Untouched w.db c) (hv' : v' ∈ (s.exec w.db c x).db.accounts)
    (hp : lastChange (w.log ++ (s.exec w.db c x).events) v'.id = some p) : s.kdf.HashOf p v'.passwordHash ∧ p ≠ [] := by
  obtain ⟨v, hv, hid, -, ha⟩ := (h.accounts hc hu).before v' hv'
  rw [← hid] at hp
  rcases lastChange_after h hc hu hv ha with ⟨hlog, -, hhash⟩ | ⟨q, hlog, hhash, hne, -⟩
  · rw [hlog] at hp
    rcases hhash with hhash | hnone
    · rw [hhash]
      exact h.hashes v hv p hp
    · rw [hnone] at hp
      cases hp
  · obtain rfl := Option.some.inj (hlog.symm.trans hp)
    exact ⟨⟨x.salt, hhash⟩, hne⟩

theorem opened_after (h : Current s w) {cand : PasswordCandidates} (hop : .opened row cand ∈ w.log ++ (s.exec w.db c x).events) :
    row.id < (s.exec w.db c x).db.fresh := by
  rcases List.mem_append.1 hop with hop | hop
  · exact (h.opened row cand hop).trans_le fresh_mono
  · obtain ⟨u, a, rs, rfl, hid, -⟩ := events_opened hop
    show row.id < w.db.fresh + 2
    omega

theorem Authenticated.after (hr : r.id < w.db.fresh) (hid : r.id = r'.id) (ha : Authenticated w.log r p) :
    Authenticated (w.log ++ (s.exec w.db c x).events) r' p := by
  obtain ⟨⟨row, cand, hop, hrow⟩, hall⟩ := ha
  refine ⟨⟨row, cand, List.mem_append_left _ hop, hrow.trans hid⟩, fun row cand hop hrow => ?_⟩
  rcases List.mem_append.1 hop with hop | hop
  · exact hall row cand hop (hrow.trans hid.symm)
  · obtain ⟨-, -, -, -, hfresh, -⟩ := events_opened hop
    omega

theorem authenticated_new {a : Attempt} {rs : List Bytes} (h : Current s w) (hc : w.calls i = some (.storeSession u a rs))
    (hu : s.kdf.HashOf p u.passwordHash) (hid : r'.id = w.db.fresh) :
    Authenticated (w.log ++ (s.exec w.db (.storeSession u a rs) x).events) r' p := by
  have hpass : (s.kdf.VerifyStoredPassword u.passwordHash a.cand).ok = true := (h.calls i _ hc).2.1
  refine ⟨⟨s.newSession w.db u rs x.now, a.cand, List.mem_append_right _ (List.mem_singleton.2 rfl), hid.symm⟩, fun row cand hop hrow => ?_⟩
  rcases List.mem_append.1 hop with hop | hop
  · have := h.opened row cand hop
    omega
  · obtain ⟨_, _, _, hcc, -, rfl⟩ := events_opened hop
    obtain ⟨rfl, rfl, rfl⟩ := Call.storeSession.inj hcc
    exact (hu.verify.1 hpass).2

theorem sessions_after (h : Current s w) (hc : w.calls i = some c) (hu : Untouched w.db c) (hr' : r' ∈ (s.exec w.db c x).db.sessions) :
    r'.id < (s.exec w.db c x).db.fresh ∧ ∀ v' ∈ (s.exec w.db c x).db.accounts, v'.name = r'.name → r'.pwdVer ≤ v'.passwordVersion ∧
      (r'.pwdVer = v'.passwordVersion → ∀ p, lastChange (w.log ++ (s.exec w.db c x).events) v'.id = some p →
        Authenticated (w.log ++ (s.exec w.db c x).events) r' p) := by
  rcases session_before hr' with ⟨r, hr, ho⟩ | ⟨u, a, rs, rfl, ho⟩
  · obtain ⟨hid, hname, hpv, -⟩ := origin_eq.1 ho
    obtain ⟨hlt, hrow⟩ := h.sessions r hr
    refine ⟨(hid ▸ hlt).trans_le fresh_mono, fun v' hv' hn => ?_⟩
    obtain ⟨v, hv, hvid, hvname, ha⟩ := (h.accounts hc hu).before v' hv'
    obtain ⟨hle, heq⟩ := hrow v hv (hvname.trans (hn.trans hname.symm))
    rw [← hvid, ← hpv]
    rcases lastChange_after h hc hu hv ha with ⟨hlog, hver, -⟩ | ⟨q, -, -, -, hver⟩
    · rw [hlog, hver]
      exact ⟨hle, fun he p hp => (heq he p hp).after hlt hid⟩
    · rw [hver]
      refine ⟨by omega, fun he => ?_⟩
      omega
  · obtain ⟨hid, hname, hpv, -⟩ := origin_eq.1 ho
    have hid : r'.id = w.db.fresh := hid
    have hpv : r'.pwdVer = u.passwordVersion := hpv
    obtain ⟨v₀, hv₀, hid₀, hname₀, hle, heq⟩ := (h.calls i _ hc).2.2 u rfl
    refine ⟨?_, fun v' hv' hn => ?_⟩
    · show r'.id < w.db.fresh + 2
      omega
    · obtain rfl := Table.eq_of_col_eq h.names hv' hv₀ (hn.trans (hname.trans hname₀.symm))
      have hlog : lastChange (w.log ++ (s.exec w.db (.storeSession u a rs) x).events) v'.id = lastChange w.log v'.id :=
        lastChange_of_ne fun _ _ _ he => nomatch he
      rw [hpv]
      refine ⟨hle, fun he p hp => authenticated_new h hc (heq he p ?_) hid⟩
      rw [← hid₀, ← hlog]
      exact hp

end Step

/-- The condition on a step: no account is made or deleted, and the columns of a password are written as they have been read. -/
def Undisturbed (w : Service.World) : Service.Action → Prop
  | .start _ c => c.keepsAccounts
  | .exec i _ => ∀ c, w.calls i = some c → Untouched w.db c
  | .abandon _ => True

instance (w : Service.World) : ∀ a, Decidable (Undisturbed w a)
  | .start _ c => inferInstanceAs (Decidable (c.keepsAccounts = true))
  | .exec i _ => match h : w.calls i with
    | none => .isTrue fun c hc => by rw [h] at hc; cases hc
    | some c => decidable_of_iff (Untouched w.db c) ⟨fun hu d hd => Option.some.inj (h.symm.trans hd) ▸ hu, fun hu => hu c h⟩
  | .abandon _ => .isTrue trivial

theorem current_step {a : Service.Action} (h : Current s w) (hu : Undisturbed w a) (hs : s.step w a = some w') : Current s w' := by
  obtain ⟨i, c, rfl, hf, -, rfl⟩ | ⟨i, c, x, rfl, hc, rfl⟩ | ⟨i, c, rfl, -, rfl⟩ := Calls.step_cases hs
  · obtain ⟨hpass, hholds⟩ := of_first (s := s) hf
    refine { h with calls := h.calls.begin ⟨hu, hpass, fun u hc => ?_⟩ }
    rw [hholds] at hc
    cases hc
  · have hun : Untouched w.db c := hu c hc
    have hacc := h.accounts (x := x) hc hun
    refine ⟨?_, ?_, fun v' hv' p hp => hashes_after h hc hun hv' hp, ?_, fun row cand hop => opened_after h hop,
      fun r' hr' => sessions_after h hc hun hr'⟩
    · show ((s.exec w.db c x).db.accounts.map (·.id)).Nodup
      rw [hacc.ids]
      exact h.ids
    · show ((s.exec w.db c x).db.accounts.map (·.name)).Nodup
      rw [hacc.names]
      exact h.names
    · intro j d hd
      obtain ⟨hkeeps, hpass, hknown⟩ := h.calls i c hc
      by_cases hij : j = i
      · subst hij
        have hn : (s.exec w.db c x).next = some d := by simpa [Calls.World.after] using hd
        refine ⟨keepsAccounts_next hkeeps hn, passed_next hpass hn, fun u hdu => ?_⟩
        obtain ⟨u₀, hu₀, hid, hname, hhash, hver⟩ := holds_next hn hdu
        have hk : Known s w.db w.log u₀ := by
          rcases hu₀ with hu₀ | hu₀
          · exact hknown u₀ hu₀
          · exact known_of_mem h hu₀
        exact known_after h hc hun (hk.congr hid hname hhash hver)
      · have hd : w.calls j = some d := by simpa [Calls.World.after, hij] using hd
        obtain ⟨hkeeps, hpass, hknown⟩ := h.calls j d hd
        exact ⟨hkeeps, hpass, fun u hdu => known_after h hc hun (hknown u hdu)⟩
  · exact { h with calls := h.calls.drop }

/-- Accounts with names of their own, whose sessions have no version that is still to come. -/
structure Settled (db : Db) : Prop where
  ids : (db.accounts.map (·.id)).Nodup
  names : (db.accounts.map (·.name)).Nodup
  sessions : ∀ r ∈ db.sessions, r.id < db.fresh ∧ ∀ v ∈ db.accounts, v.name = r.name → r.pwdVer ≤ v.passwordVersion

theorem Settled.current (h : Settled db) : Current s (.idle db) := by
  refine ⟨h.ids, h.names, (fun _ _ _ hp => nomatch hp), Calls.World.idle_all _ _, (fun _ _ ho => nomatch ho), fun r hr => ⟨(h.sessions r hr).1, fun v hv hn => ?_⟩⟩
  exact ⟨(h.sessions r hr).2 v hv hn, fun _ _ hp => nomatch hp⟩

def oldHash : Bytes := List.replicate 64 98

def newHash : Bytes := List.replicate 64 97

def oldAlice : UserAccountsDO := { alice with passwordHash := .raw oldHash }

def overtaken : List Service.Action :=
  [logIn 0 oldHash 0] ++ steps 0 3 0 ++ [.start 1 (.resetPassword (str "alice") newHash)] ++ steps 1 3 1 ++ steps 0 3 2 ++
    [logIn 2 oldHash 3] ++ steps 2 5 3 ++ [.start 3 (.validateSession 4)] ++ steps 3 2 4

def changedFirst : List Service.Action :=
  [.start 0 (.resetPassword (str "alice") newHash)] ++ steps 0 3 0 ++ [logIn 1 newHash 1] ++ steps 1 5 1

theorem settled_officeDb (u : UserAccountsDO) : Settled (officeDb u) :=
  ⟨List.nodup_singleton _, List.nodup_singleton _, fun _ hr => nomatch hr⟩

end Auth
