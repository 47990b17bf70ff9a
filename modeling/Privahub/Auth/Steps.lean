import Privahub.Auth.Service

/-!
# What a step of a call leads to

`Leads` says what each call goes on with and what it has found by then, and `Emits` what it logs. What is proved of runs goes by these
two (`leads_of_exec`, `emits_of_exec`) where it needs no more of a step.
-/

namespace Auth

def Call.judges : Call → Option (UserAccountsDO × Attempt)
  | .lockedUntil u a => some (u, a)
  | .releaseLock u a _ => some ({ u with failedAttempts := none, lockedInvalidTime := none }, a)
  | _ => none

def Call.resets : Call → Option (UserAccountsDO × Attempt × Bool)
  | .reset u a rehash | .resetCounters u a rehash => some (u, a, rehash)
  | _ => none

/-- The call checks the passwords of the request against the copy `u`. -/
def Checks (db : Db) : Call → UserAccountsDO → UpdatePasswordRequest → Prop
  | .updatePassword req, u, req' => db.FindByName req.name = some u ∧ req' = req
  | .releaseReset u₀ req, u, req' => u = { u₀ with gmtPasswdResetRelease := none, passwdResetFailedAttempts := none } ∧ req' = req
  | _, _, _ => False

structure Claims.Finds (t : Claims) (db : Db) (row : UserTokensDO) : Prop where
  issued : t ∈ db.issued
  session : t.sessionID ≠ none
  mem : row ∈ db.sessions
  name : row.name = t.username
  sessionID : row.sessionID = t.sessionID

section

variable (s : Service) (db : Db) (x : Ending)

inductive Leads : Call → Call → Prop
  | unknown {name a} : Leads (.login name a) (.failUnknown name a)
  | known {name a u} : db.FindByName name = some u → Leads (.login name a) (.lockedUntil u a)
  | failUnknown {name a} : Leads (.failUnknown name a) (.failUnknownAccount name a)
  | expired {u a locked} : Leads (.lockedUntil u a) (.releaseLock u a locked)
  | failed {c u a} : c.judges = some (u, a) → Leads c (.fail u a)
  | accepted {c u a rehash} : c.judges = some (u, a) → s.kdf.VerifyStoredPassword u.passwordHash a.cand = ⟨true, rehash⟩ →
      Leads c (.reset u a rehash)
  | countFailure {u a} : Leads (.fail u a) (.countFailure u a)
  | resetCounters {u a rehash} : Leads (.reset u a rehash) (.resetCounters u a rehash)
  | upgrade {c u a} : c.resets = some (u, a, true) → Leads c (.upgrade u a)
  | grants {c u a rehash} : c.resets = some (u, a, rehash) → Leads c (.grants u a)
  | upgraded {u a} : Leads (.upgrade u a) (.grants u a)
  | storeSession {u a} : Leads (.grants u a) (.storeSession u a (s.apiResources db u))
  | stale {t row} : t.Finds db row → Leads (.refreshToken t) (.refreshRevoke t row)
  | refresh {t row} : t.Finds db row → row.refreshJTI = none ∨ row.refreshJTI = some t.jti →
      Leads (.refreshToken t) (.refreshAccount t row x.now)
  | refreshSwap {t row now} : Leads (.refreshAccount t row now) (.refreshSwap t row now)
  | otherVersion {t row now} : Leads (.refreshAccount t row now) (.refreshRevoke t row)
  | swapLost {t row now} : Leads (.refreshSwap t row now) (.refreshRevoke t row)
  | sessionExpired {token row} : row ∈ db.sessions → Leads (.validateSession token) (.revokeSession row)
  | validate {token row} : row ∈ db.sessions → Leads (.validateSession token) (.validateAccount row x.now)
  | slide {row now} : Leads (.validateAccount row now) (.slide row now)
  | revokeSession {row now} : Leads (.validateAccount row now) (.revokeSession row)
  | releaseReset {req u} : db.FindByName req.name = some u → Leads (.updatePassword req) (.releaseReset u req)
  | wrongPassword {c u req u'} : Checks db c u req → Leads c (.saveResetCounters u')
  | change {c u req} : Checks db c u req → s.newHashAccepted u req.newPasswordHash = true →
      Leads c (.applyPasswordChange u req.newPasswordHash false)
  | resetPassword {name p u} : db.FindByName name = some u → s.newHashAccepted u p = true →
      Leads (.resetPassword name p) (.applyPasswordChange u p true)
  | clearUserSessions {u p m} : Leads (.applyPasswordChange u p m) (.clearUserSessions u.name)
  | updateUser {req u} : db.FindByName req.name = some u → Leads (.updateUser req) (.updateUserCommit u req)
  | deleteUser {name u} : db.FindByName name = some u → Leads (.deleteUser name) (.deleteUserCommit u name)
  | createUser {req} : Leads (.createUser req) (.createUserCommit req)

inductive Emits : Call → Event → Prop
  | compared {c u a ok locked} : c.judges = some (u, a) → Emits c (.compared u a.ip a.now ok locked)
  | opened {u a rs} : Emits (.storeSession u a rs) (.opened (s.newSession db u rs x.now) a.cand)
  | unknown {t} : t ∈ db.issued → (∀ r ∈ db.sessions, r.name = t.username → r.sessionID = t.sessionID → t.sessionID = none) →
      Emits (.refreshToken t) (.refused t)
  | refused {t row} : Emits (.refreshRevoke t row) (.refused t)
  | exchanged {t row now} : (db.sessions.any fun r => decide (r.id = row.id ∧ r.refreshJTI = row.refreshJTI)) = true →
      Emits (.refreshSwap t row now) (.exchanged t.jti)
  | validated {row now uc} : Service.accountState db row = true → row.sessionData = some uc →
      Emits (.validateAccount row now) (.validated row uc)
  | changed {u p m} : Emits (.applyPasswordChange u p m) (.changed u.id p)

end

variable {s : Service} {db : Db} {c d : Call} {x : Ending} {u : UserAccountsDO}

theorem mem_of_findByName {name : Bytes} (h : db.FindByName name = some u) : u ∈ db.accounts ∧ u.name = name :=
  ⟨List.mem_of_find?_eq_some h, by simpa using List.find?_some h⟩

theorem judges_eq {a : Attempt} (h : c.judges = some (u, a)) : c = .lockedUntil u a ∨
    ∃ u₀ locked, c = .releaseLock u₀ a locked ∧ u = { u₀ with failedAttempts := none, lockedInvalidTime := none } := by
  cases c with
  | lockedUntil =>
    obtain ⟨rfl, rfl⟩ := Prod.mk.inj (Option.some.inj h)
    exact .inl rfl
  | releaseLock u₀ _ locked =>
    obtain ⟨rfl, rfl⟩ := Prod.mk.inj (Option.some.inj h)
    exact .inr ⟨u₀, locked, rfl, rfl⟩
  | _ => cases h

theorem resets_eq {a : Attempt} {rehash : Bool} (h : c.resets = some (u, a, rehash)) : c = .reset u a rehash ∨ c = .resetCounters u a rehash := by
  cases c with
  | reset =>
    cases Option.some.inj h
    exact .inl rfl
  | resetCounters =>
    cases Option.some.inj h
    exact .inr rfl
  | _ => cases h

theorem checks_eq {req : UpdatePasswordRequest} (h : Checks db c u req) : (c = .updatePassword req ∧ db.FindByName req.name = some u) ∨
    ∃ u₀, c = .releaseReset u₀ req ∧ u = { u₀ with gmtPasswdResetRelease := none, passwdResetFailedAttempts := none } := by
  cases c with
  | updatePassword =>
    obtain ⟨hf, rfl⟩ := h
    exact .inl ⟨rfl, hf⟩
  | releaseReset u₀ =>
    obtain ⟨rfl, rfl⟩ := h
    exact .inr ⟨u₀, rfl, rfl⟩
  | _ => cases h

theorem leads_of_judge {db' : Db} {a : Attempt} {locked : Bool} (hc : c.judges = some (u, a))
    (h : (s.judge db' u a locked).next = some d) : Leads s db x c d := by
  simp only [Service.judge] at h
  split_ifs at h with hl hok
  · obtain rfl := Option.some.inj h
    exact .failed hc
  · obtain rfl := Option.some.inj h
    have hok : (s.kdf.VerifyStoredPassword u.passwordHash a.cand).ok = true := by simpa using hok
    exact .accepted hc (by rw [← hok])

theorem leads_afterReset {a : Attempt} {rehash : Bool} (hc : c.resets = some (u, a, rehash)) :
    Leads s db x c (Service.afterReset u a rehash) := by
  unfold Service.afterReset
  split_ifs with h
  · exact .upgrade (h.1 ▸ hc)
  · exact .grants hc

theorem leads_of_update {req : UpdatePasswordRequest} {now : Nat} (hc : Checks db c u req) (h : s.updateChecked u req now = some d) :
    Leads s db x c d := by
  simp only [Service.updateChecked] at h
  split_ifs at h with _ _ _ hnew
  · obtain rfl := Option.some.inj h
    exact .change hc hnew
  · obtain rfl := Option.some.inj h
    exact .wrongPassword hc
  · obtain rfl := Option.some.inj h
    exact .wrongPassword hc

theorem leads_of_exec (h : (s.exec db c x).next = some d) : Leads s db x c d := by
  cases c with
  | login name a =>
    simp only [Service.exec] at h
    split at h <;> obtain rfl := Option.some.inj h
    · exact .unknown
    · exact .known ‹_›
  | failUnknown name a =>
    obtain rfl := Option.some.inj h
    exact .failUnknown
  | lockedUntil u a =>
    simp only [Service.exec] at h
    split at h
    · exact leads_of_judge rfl h
    · split_ifs at h
      · exact leads_of_judge rfl h
      · obtain rfl := Option.some.inj h
        exact .expired
  | releaseLock u a locked => exact leads_of_judge rfl h
  | fail u a =>
    obtain rfl := Option.some.inj h
    exact .countFailure
  | reset u a rehash =>
    simp only [Service.exec] at h
    obtain rfl := Option.some.inj h
    split_ifs
    · exact .resetCounters
    · exact leads_afterReset rfl
  | resetCounters u a rehash =>
    obtain rfl := Option.some.inj h
    exact leads_afterReset rfl
  | upgrade u a =>
    obtain rfl := Option.some.inj h
    exact .upgraded
  | grants u a =>
    obtain rfl := Option.some.inj h
    exact .storeSession
  | refreshToken t =>
    simp only [Service.exec] at h
    split_ifs at h with h₁ h₂
    split at h
    · cases h
    rename_i row hf
    have hrow : row.name = t.username ∧ row.sessionID = t.sessionID := by simpa using List.find?_some hf
    have hfinds : t.Finds db row := ⟨not_not.1 fun hn => h₁ (.inl hn), h₂, List.mem_of_find?_eq_some hf, hrow.1, hrow.2⟩
    split_ifs at h with h₃ h₄
    · obtain rfl := Option.some.inj h
      exact .stale hfinds
    · obtain rfl := Option.some.inj h
      exact .stale hfinds
    · obtain rfl := Option.some.inj h
      refine .refresh hfinds ?_
      cases hj : row.refreshJTI with
      | none => exact .inl rfl
      | some j => exact .inr (not_not.1 fun hne => h₃ ⟨by rw [hj]; rfl, by rw [hj]; exact hne⟩)
  | refreshAccount t row now =>
    simp only [Service.exec] at h
    split_ifs at h <;> obtain rfl := Option.some.inj h
    · exact .refreshSwap
    · exact .otherVersion
  | refreshSwap t row now =>
    simp only [Service.exec] at h
    split_ifs at h
    obtain rfl := Option.some.inj h
    exact .swapLost
  | validateSession token =>
    simp only [Service.exec] at h
    split at h
    · cases h
    rename_i row hf
    split_ifs at h <;> obtain rfl := Option.some.inj h
    · exact .sessionExpired (List.mem_of_find?_eq_some hf)
    · exact .validate (List.mem_of_find?_eq_some hf)
  | validateAccount row now =>
    simp only [Service.exec] at h
    split_ifs at h <;> obtain rfl := Option.some.inj h
    · exact .slide
    · exact .revokeSession
  | updatePassword req =>
    simp only [Service.exec] at h
    split_ifs at h
    split at h
    · cases h
    rename_i u hf
    have hc : Checks db (.updatePassword req) u req := ⟨hf, rfl⟩
    split at h
    · exact leads_of_update hc h
    · split_ifs at h
      · exact leads_of_update hc h
      · obtain rfl := Option.some.inj h
        exact .releaseReset hf
  | releaseReset u req => exact leads_of_update (c := .releaseReset u req) ⟨rfl, rfl⟩ h
  | resetPassword name p =>
    simp only [Service.exec] at h
    split at h
    · cases h
    rename_i u hf
    split_ifs at h with hnew
    obtain rfl := Option.some.inj h
    exact .resetPassword hf hnew
  | applyPasswordChange u p m =>
    obtain rfl := Option.some.inj h
    exact .clearUserSessions
  | updateUser req =>
    simp only [Service.exec] at h
    split at h
    · cases h
    · obtain rfl := Option.some.inj h
      exact .updateUser ‹_›
  | deleteUser name =>
    simp only [Service.exec] at h
    split at h
    · cases h
    · obtain rfl := Option.some.inj h
      exact .deleteUser ‹_›
  | createUser req =>
    simp only [Service.exec] at h
    split at h
    · cases h
    · split_ifs at h
      obtain rfl := Option.some.inj h
      exact .createUser
  | failUnknownAccount | countFailure | storeSession | refreshRevoke | slide | revokeSession | logout | saveResetCounters
  | clearUserSessions | updateUserCommit | deleteUserCommit | createUserCommit => cases h

theorem emits_of_exec {e : Event} (h : e ∈ (s.exec db c x).events) : Emits s db x c e := by
  have hjudge : ∀ {u a db' locked}, c.judges = some (u, a) → e ∈ (s.judge db' u a locked).events → Emits s db x c e := by
    intro u a db' locked hc he
    obtain rfl := List.mem_singleton.1 he
    exact .compared hc
  cases c with
  | lockedUntil u a =>
    simp only [Service.exec] at h
    split at h
    · exact hjudge rfl h
    · split_ifs at h
      · exact hjudge rfl h
      · cases h
  | releaseLock u a locked => exact hjudge rfl h
  | storeSession u a rs =>
    obtain rfl := List.mem_singleton.1 h
    exact .opened
  | refreshToken t =>
    simp only [Service.exec] at h
    split_ifs at h with h₁ h₂
    · cases h
    · obtain rfl := List.mem_singleton.1 h
      exact .unknown (not_not.1 fun hn => h₁ (.inl hn)) fun _ _ _ _ => h₂
    · split at h
      · rename_i hf
        obtain rfl := List.mem_singleton.1 h
        refine .unknown (not_not.1 fun hn => h₁ (.inl hn)) fun r hr hn hs => ?_
        exact absurd (decide_eq_true (p := r.name = _ ∧ r.sessionID = _) ⟨hn, hs⟩) (List.find?_eq_none.1 hf r hr)
      · split_ifs at h <;> cases h
  | refreshAccount t row now =>
    simp only [Service.exec] at h
    split_ifs at h <;> cases h
  | refreshSwap t row now =>
    simp only [Service.exec] at h
    split_ifs at h with hany
    · obtain rfl := List.mem_singleton.1 h
      exact .exchanged hany
    · cases h
  | refreshRevoke t row =>
    obtain rfl := List.mem_singleton.1 h
    exact .refused
  | validateSession token =>
    simp only [Service.exec] at h
    split at h
    · cases h
    · split_ifs at h <;> cases h
  | validateAccount row now =>
    by_cases hstate : Service.accountState db row = true
    · simp only [Service.exec, if_pos hstate] at h
      cases hdata : row.sessionData with
      | none => rw [hdata] at h; cases h
      | some uc =>
        rw [hdata] at h
        obtain rfl := List.mem_singleton.1 h
        exact .validated hstate hdata
    · simp only [Service.exec, if_neg hstate] at h
      cases h
  | updatePassword req =>
    simp only [Service.exec] at h
    repeat' split at h
    all_goals cases h
  | applyPasswordChange u p m =>
    obtain rfl := List.mem_singleton.1 h
    exact .changed
  | login | resetPassword | updateUser | deleteUser | createUser =>
    simp only [Service.exec] at h
    split at h <;> cases h
  | _ => cases h

end Auth
