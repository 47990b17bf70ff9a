import Privahub.Auth.Steps

/-!
# Session rotation

`session_rotation`: over every run of logins, refreshes, validations, logouts, password changes and changes of accounts, a refresh
token is exchanged at most once, a session whose refresh token was refused is gone for good, each session has one row and so one access
token, and its absolute end stays where the login has put it. The exchange is a compare-and-swap on the stored token id: the row of a
session never holds the id of a token that was exchanged. A token that has expired is turned down without a look at the session
(`expired_unnoticed`).
-/

namespace Auth

def UserTokensDO.strip (r : UserTokensDO) : UserTokensDO := { r with gmtToken := none }

def Db.rows (db : Db) : List UserTokensDO := db.sessions.map UserTokensDO.strip

/-- What a refresh has found, once it has looked for its session. -/
def Call.refreshing : Call → Option (Claims × UserTokensDO)
  | .refreshAccount t row _ | .refreshSwap t row _ | .refreshRevoke t row => some (t, row)
  | _ => none

def Call.accepted : Call → Bool
  | .refreshAccount .. | .refreshSwap .. => true
  | _ => false

def Event.exchangedJti : Event → Option Nat
  | .exchanged j => some j
  | _ => none

variable {s : Service} {db : Db} {c d : Call} {x : Ending} {t t' : Claims} {r r' row : UserTokensDO} {w w' : Service.World} {n j : Nat}

structure Kept (db db' : Db) : Prop where
  rows : db'.rows.Sublist db.rows
  issued : db'.issued = db.issued
  fresh : db.fresh ≤ db'.fresh

theorem Kept.refl : Kept db db := ⟨.refl _, rfl, le_rfl⟩

theorem Kept.of_sessions {db' : Db} (h : db'.sessions = db.sessions) (hi : db'.issued = db.issued) (hf : db.fresh ≤ db'.fresh) : Kept db db' :=
  ⟨by rw [Db.rows, Db.rows, h], hi, hf⟩

theorem Kept.delete {p : UserTokensDO → Bool} : Kept db (db.deleteSessions p) := ⟨List.filter_sublist.map _, rfl, le_rfl⟩

theorem Kept.slide {p : UserTokensDO → Bool} {now : Nat} : Kept db (db.updateSessions p fun r => { r with gmtToken := some now }) := by
  let f : UserTokensDO → UserTokensDO := fun r => { r with gmtToken := some now }
  have hrows : (db.updateSessions p f).rows = db.rows := Table.map_updateWhere UserTokensDO.strip (p := p) (f := f) fun _ => rfl
  exact ⟨hrows ▸ .refl _, rfl, le_rfl⟩

structure Opened (s : Service) (db db' : Db) (x : Ending) (u : UserAccountsDO) (apiResources : List Bytes) : Prop where
  rows : db'.rows = db.rows ++ [(s.newSession db u apiResources x.now).strip]
  issued : db'.issued =
    ⟨db.fresh + 1, u.name, some db.fresh, u.passwordVersion, Service.numericDate (x.now + s.refreshTokenExpiry)⟩ :: db.issued
  fresh : db'.fresh = db.fresh + 2

/-- The row of a session whose refresh token `t` is exchanged. -/
structure Swapped (s : Service) (db db' : Db) (x : Ending) (t : Claims) (row : UserTokensDO) : Prop where
  found : ∃ r ∈ db.rows, r.id = row.id ∧ r.refreshJTI = row.refreshJTI
  rows : ∀ r' ∈ db'.rows, ∃ r ∈ db.rows, (r.id = row.id ∧ r.refreshJTI = row.refreshJTI ∧
    r' = { r with token := db.fresh, refreshJTI := some (db.fresh + 1) }) ∨ ¬ (r.id = row.id ∧ r.refreshJTI = row.refreshJTI) ∧ r' = r
  ids : db'.rows.map (·.id) = db.rows.map (·.id)
  issued : db'.issued = s.newClaims t row db.fresh x.now :: db.issued
  fresh : db'.fresh = db.fresh + 2

theorem swapped (now : Nat) (h : db.sessions.any fun r => decide (r.id = row.id ∧ r.refreshJTI = row.refreshJTI)) :
    Swapped s db (s.exec db (.refreshSwap t row now) x).db x t row := by
  have hexec : (s.exec db (.refreshSwap t row now) x).db =
      { db.updateSessions (fun r => decide (r.id = row.id ∧ r.refreshJTI = row.refreshJTI)) fun r => Service.rotated r db.fresh now with
        issued := s.newClaims t row db.fresh x.now :: db.issued, fresh := db.fresh + 2 } := by
    simp only [Service.exec, if_pos h]
  rw [hexec]
  refine ⟨?_, fun r' hr' => ?_, ?_, rfl, rfl⟩
  · obtain ⟨r, hr, hp⟩ := List.any_eq_true.1 h
    exact ⟨r.strip, List.mem_map_of_mem hr, of_decide_eq_true hp⟩
  · obtain ⟨r₁, hr₁, rfl⟩ := List.mem_map.1 hr'
    obtain ⟨r, hr, rfl⟩ := Table.mem_updateWhere.1 hr₁
    refine ⟨r.strip, List.mem_map_of_mem hr, ?_⟩
    by_cases hp : r.id = row.id ∧ r.refreshJTI = row.refreshJTI
    · rw [if_pos (decide_eq_true hp)]
      exact .inl ⟨hp.1, hp.2, rfl⟩
    · rw [if_neg (by simpa using hp)]
      exact .inr ⟨hp, rfl⟩
  · have hids : (Table.updateWhere (fun r : UserTokensDO => decide (r.id = row.id ∧ r.refreshJTI = row.refreshJTI))
        (fun r => Service.rotated r db.fresh now) db.sessions).map (fun r => r.strip.id) = db.sessions.map fun r => r.strip.id :=
      Table.map_updateWhere (f := fun r => Service.rotated r db.fresh now) _ fun _ => rfl
    rw [Db.rows, Db.rows, List.map_map, List.map_map]
    exact hids

theorem kept_saveAccount {u : UserAccountsDO} : Kept db (Service.saveAccount db u) := by
  unfold Service.saveAccount
  split_ifs
  · exact .of_sessions rfl rfl le_rfl
  · exact .of_sessions rfl rfl le_rfl

theorem kept_commitUpdate {u : UserAccountsDO} {req : UpdateUserRequest} : Kept db (Service.commitUpdate db u req) := by
  unfold Service.commitUpdate
  split_ifs
  · exact ⟨List.filter_sublist.map _, rfl, le_rfl⟩
  · exact .refl

theorem sessions_cases (db : Db) (c : Call) : Kept db (s.exec db c x).db ∨
    (∃ u a rs, c = .storeSession u a rs ∧ Opened s db (s.exec db c x).db x u rs) ∨
    ∃ t row now, c = .refreshSwap t row now ∧ (s.exec db c x).events = [.exchanged t.jti] ∧ Swapped s db (s.exec db c x).db x t row := by
  cases c with
  | storeSession u a rs => exact .inr (.inl ⟨u, a, rs, rfl, by simp [Service.exec, Db.rows], rfl, rfl⟩)
  | refreshSwap t row now =>
    by_cases h : db.sessions.any fun r => decide (r.id = row.id ∧ r.refreshJTI = row.refreshJTI)
    · refine .inr (.inr ⟨t, row, now, rfl, ?_, swapped now h⟩)
      simp only [Service.exec, if_pos h]
    · refine .inl ?_
      simp only [Service.exec, if_neg h]
      exact .refl
  | refreshRevoke | revokeSession | logout | clearUserSessions => exact .inl .delete
  | slide => exact .inl .slide
  | releaseReset => exact .inl kept_saveAccount
  | updateUserCommit => exact .inl kept_commitUpdate
  | deleteUserCommit => exact .inl ⟨List.filter_sublist.map _, rfl, le_rfl⟩
  | createUserCommit => exact .inl (.of_sessions rfl rfl (Nat.le_succ _))
  | refreshToken | validateSession | updatePassword =>
    refine .inl ?_
    simp only [Service.exec]
    repeat' split
    all_goals exact .refl
  | login | lockedUntil | refreshAccount | validateAccount | resetPassword | updateUser | deleteUser | createUser =>
    refine .inl ?_
    simp only [Service.exec]
    repeat' split
    all_goals exact .refl
  | _ => exact .inl (.of_sessions rfl rfl le_rfl)

theorem refreshing_next (h : (s.exec db c x).next = some d) (hd : d.refreshing = some (t, row)) :
    (c.refreshing = some (t, row) ∧ (d.accepted = true → c.accepted = true)) ∨
    t ∈ db.issued ∧ t.sessionID ≠ none ∧ (∃ r ∈ db.sessions, r = row) ∧ row.sessionID = t.sessionID ∧
      (d.accepted = true → row.refreshJTI = none ∨ row.refreshJTI = some t.jti) := by
  cases leads_of_exec h with
  | stale hf =>
    obtain ⟨rfl, rfl⟩ := Prod.mk.inj (Option.some.inj hd)
    exact .inr ⟨hf.issued, hf.session, ⟨_, hf.mem, rfl⟩, hf.sessionID, nofun⟩
  | refresh hf hj =>
    obtain ⟨rfl, rfl⟩ := Prod.mk.inj (Option.some.inj hd)
    exact .inr ⟨hf.issued, hf.session, ⟨_, hf.mem, rfl⟩, hf.sessionID, fun _ => hj⟩
  | refreshSwap | otherVersion | swapLost => exact .inl ⟨hd, fun _ => rfl⟩
  | _ => cases hd

theorem events_cases {e : Event} (h : e ∈ (s.exec db c x).events) :
    ((∀ j, e ≠ .exchanged j) ∧ ∀ t, e = .refused t → (∃ row, c = .refreshRevoke t row) ∨
      t ∈ db.issued ∧ ∀ r ∈ db.sessions, r.name = t.username → r.sessionID = t.sessionID → t.sessionID = none) ∨
    ∃ t row now, c = .refreshSwap t row now ∧ e = .exchanged t.jti := by
  cases emits_of_exec h with
  | unknown hiss hnone =>
    refine .inl ⟨nofun, fun t ht => .inr ?_⟩
    obtain rfl := Event.refused.inj ht
    exact ⟨hiss, hnone⟩
  | @refused t row =>
    refine .inl ⟨nofun, fun t' ht => .inl ⟨row, ?_⟩⟩
    rw [Event.refused.inj ht]
  | exchanged => exact .inr ⟨_, _, _, rfl, rfl⟩
  | _ => exact .inl ⟨nofun, nofun⟩

theorem Kept.not_swapped {db' : Db} (h : Kept db db') : ¬ Swapped s db db' x t row := by
  intro hsw
  have hi := h.issued
  rw [hsw.issued] at hi
  exact absurd (congrArg List.length hi) (by simp)

theorem step_sessions (db : Db) (c : Call) : (Kept db (s.exec db c x).db ∧ ∀ e ∈ (s.exec db c x).events, ∀ j, e ≠ .exchanged j) ∨
    (∃ u a rs, c = .storeSession u a rs ∧ Opened s db (s.exec db c x).db x u rs) ∨
    ∃ t row now, c = .refreshSwap t row now ∧ (s.exec db c x).events = [.exchanged t.jti] ∧ Swapped s db (s.exec db c x).db x t row := by
  rcases sessions_cases (s := s) (x := x) db c with hk | hrest
  · refine .inl ⟨hk, fun e he j hj => ?_⟩
    rcases events_cases he with ⟨hne, -⟩ | ⟨t, row, now, rfl, -⟩
    · exact hne j hj
    · by_cases hany : db.sessions.any fun r => decide (r.id = row.id ∧ r.refreshJTI = row.refreshJTI)
      · exact hk.not_swapped (swapped now hany)
      · simp only [Service.exec, if_neg hany] at he
        cases he
  · exact .inr hrest

/-- What the sessions and the refresh tokens of a database have to do with each other. -/
structure Sound (db : Db) : Prop where
  ids : (db.rows.map (·.id)).Nodup
  sids : ∀ r ∈ db.rows, ∀ r' ∈ db.rows, r.sessionID = r'.sessionID → r.sessionID ≠ none → r = r'
  old : ∀ r ∈ db.rows, r.id < db.fresh ∧ (∀ n, r.sessionID = some n → n < db.fresh) ∧ ∀ j, r.refreshJTI = some j → j < db.fresh
  current : ∀ r ∈ db.rows, ∀ t ∈ db.issued, r.refreshJTI = some t.jti → t.sessionID = r.sessionID
  issued : ∀ t ∈ db.issued, t.jti < db.fresh ∧ ∀ n, t.sessionID = some n → n < db.fresh
  jtis : ∀ t ∈ db.issued, ∀ t' ∈ db.issued, t.jti = t'.jti → t = t'
  names : ∀ t ∈ db.issued, ∀ r ∈ db.rows, r.sessionID = t.sessionID → t.sessionID ≠ none → r.name = t.username
  ends : ∀ t ∈ db.issued, ∀ r ∈ db.rows, r.sessionID = t.sessionID → t.sessionID ≠ none → ∀ e, r.gmtRefreshExpire = some e → t.expiresAt ≤ e

structure Knows (db : Db) (c : Call) (t : Claims) (row : UserTokensDO) : Prop where
  issued : t ∈ db.issued
  sid : t.sessionID ≠ none
  same : row.sessionID = t.sessionID
  old : row.id < db.fresh
  stored : ∀ r ∈ db.rows, (r.id = row.id ↔ r.sessionID = row.sessionID) ∧
    (r.id = row.id → r.gmtRefreshExpire = row.gmtRefreshExpire ∧ r.name = row.name)
  matched : c.accepted = true → row.refreshJTI = none ∨ row.refreshJTI = some t.jti

structure Inv (w : Service.World) : Prop where
  sound : Sound w.db
  calls : w.All fun c => ∀ t row, c.refreshing = some (t, row) → Knows w.db c t row
  /-- The session of a token that was exchanged holds the id of another one. -/
  exchanged : ∀ j, .exchanged j ∈ w.log → ∃ t ∈ w.db.issued, t.jti = j ∧
    ∀ r ∈ w.db.rows, r.sessionID = t.sessionID → r.refreshJTI ≠ none ∧ r.refreshJTI ≠ some j
  once : (w.log.filterMap Event.exchangedJti).Nodup
  refused : ∀ t, .refused t ∈ w.log → t ∈ w.db.issued ∧ ∀ n, t.sessionID = some n → ∀ r ∈ w.db.rows, r.sessionID ≠ some n

section Kept

variable {db' : Db}

theorem Kept.mem (h : Kept db db') (hr : r ∈ db'.rows) : r ∈ db.rows := h.rows.subset hr

theorem Sound.kept (hs : Sound db) (h : Kept db db') : Sound db' := by
  refine ⟨hs.ids.sublist (h.rows.map _), ?_, ?_, ?_, ?_, ?_, ?_, ?_⟩ <;> try rw [h.issued]
  · exact fun r hr r' hr' => hs.sids r (h.mem hr) r' (h.mem hr')
  · intro r hr
    obtain ⟨hid, hsid, hj⟩ := hs.old r (h.mem hr)
    exact ⟨hid.trans_le h.fresh, fun n hn => (hsid n hn).trans_le h.fresh, fun j hn => (hj j hn).trans_le h.fresh⟩
  · exact fun r hr => hs.current r (h.mem hr)
  · intro t ht
    exact ⟨(hs.issued t ht).1.trans_le h.fresh, fun n hn => ((hs.issued t ht).2 n hn).trans_le h.fresh⟩
  · exact hs.jtis
  · exact fun t ht r hr => hs.names t ht r (h.mem hr)
  · exact fun t ht r hr => hs.ends t ht r (h.mem hr)

theorem Knows.kept (hk : Knows db c t row) (h : Kept db db') : Knows db' c t row :=
  ⟨h.issued ▸ hk.issued, hk.sid, hk.same, hk.old.trans_le h.fresh, fun r hr => hk.stored r (h.mem hr), hk.matched⟩

end Kept

theorem mem_strip {rs : List UserTokensDO} (hr : r ∈ rs) : r.strip ∈ rs.map UserTokensDO.strip := List.mem_map_of_mem hr

theorem Sound.knows (hs : Sound db) (ht : t ∈ db.issued) (hsid : t.sessionID ≠ none) (hrow : row ∈ db.sessions) (hsame : row.sessionID = t.sessionID)
    (hm : c.accepted = true → row.refreshJTI = none ∨ row.refreshJTI = some t.jti) : Knows db c t row := by
  have hmem := mem_strip hrow
  refine ⟨ht, hsid, hsame, (hs.old _ hmem).1, fun r hr => ⟨⟨fun hid => ?_, fun hs' => ?_⟩, fun hid => ?_⟩, hm⟩
  · rw [Table.eq_of_col_eq hs.ids hr hmem hid]
    rfl
  · rw [hs.sids r hr _ hmem hs' (by rw [hs', hsame]; exact hsid)]
    rfl
  · rw [Table.eq_of_col_eq hs.ids hr hmem hid]
    exact ⟨rfl, rfl⟩

theorem knows_next (hs : Sound db) (hc : ∀ t row, c.refreshing = some (t, row) → Knows db c t row) (h : (s.exec db c x).next = some d)
    (hd : d.refreshing = some (t, row)) : Knows db d t row := by
  rcases refreshing_next h hd with ⟨hr, hacc⟩ | ⟨ht, hsid, ⟨_, hrow, rfl⟩, hsame, hm⟩
  · obtain hk := hc t row hr
    exact ⟨hk.issued, hk.sid, hk.same, hk.old, hk.stored, fun ha => hk.matched (hacc ha)⟩
  · exact hs.knows ht hsid hrow hsame hm

theorem numericDate_le (n : Nat) : Service.numericDate n ≤ n := Nat.div_mul_le_self ..

section Opened

variable {db' : Db} {u : UserAccountsDO} {rs : List Bytes}

theorem Opened.mem (h : Opened s db db' x u rs) (hr : r ∈ db'.rows) : r ∈ db.rows ∨ r = (s.newSession db u rs x.now).strip := by
  rw [h.rows] at hr
  exact (List.mem_append.1 hr).imp_right List.mem_singleton.1

theorem Sound.opened (hs : Sound db) (h : Opened s db db' x u rs) : Sound db' := by
  have hold : ∀ {t}, t ∈ db.issued → ∀ n, t.sessionID = some n → n ≠ db.fresh := fun ht n hn => ((hs.issued _ ht).2 n hn).ne
  refine ⟨?_, ?_, ?_, ?_, ?_, ?_, ?_, ?_⟩
  · rw [h.rows, List.map_append, List.nodup_append]
    refine ⟨hs.ids, List.nodup_singleton _, ?_⟩
    rintro a ha b hb rfl
    obtain ⟨r, hr, rfl⟩ := List.mem_map.1 ha
    exact (hs.old r hr).1.ne (List.mem_singleton.1 hb)
  · intro r hr r' hr' he hne
    rcases h.mem hr with hr | rfl <;> rcases h.mem hr' with hr' | rfl
    · exact hs.sids r hr r' hr' he hne
    · exact absurd rfl ((hs.old r hr).2.1 _ he).ne
    · exact absurd rfl ((hs.old r' hr').2.1 _ he.symm).ne
    · rfl
  · intro r hr
    rw [h.fresh]
    rcases h.mem hr with hr | rfl
    · obtain ⟨hid, hsid, hj⟩ := hs.old r hr
      exact ⟨by omega, fun n hn => (hsid n hn).trans (by omega), fun j hn => (hj j hn).trans (by omega)⟩
    · refine ⟨Nat.lt_add_of_pos_right (by decide), fun n hn => ?_, fun j hn => ?_⟩
      · rw [← Option.some.inj hn]
        exact Nat.lt_add_of_pos_right (by decide)
      · rw [← Option.some.inj hn]
        exact Nat.lt_succ_self _
  · rw [h.issued]
    intro r hr t ht hj
    rcases h.mem hr with hr | rfl <;> rcases List.mem_cons.1 ht with rfl | ht
    · exact absurd ((hs.old r hr).2.2 _ hj) (by simp)
    · exact hs.current r hr t ht hj
    · rfl
    · have hjti := (hs.issued t ht).1
      rw [← Option.some.inj hj] at hjti
      omega
  · rw [h.issued, h.fresh]
    intro t ht
    rcases List.mem_cons.1 ht with rfl | ht
    · refine ⟨Nat.lt_succ_self _, fun n hn => ?_⟩
      rw [← Option.some.inj hn]
      exact Nat.lt_add_of_pos_right (by decide)
    · obtain ⟨hj, hn⟩ := hs.issued t ht
      exact ⟨by omega, fun n h => (hn n h).trans (by omega)⟩
  · rw [h.issued]
    intro t ht t' ht' he
    rcases List.mem_cons.1 ht with rfl | ht <;> rcases List.mem_cons.1 ht' with rfl | ht'
    · rfl
    · exact absurd (hs.issued t' ht').1 (by rw [← he]; simp)
    · exact absurd (hs.issued t ht).1 (by rw [he]; simp)
    · exact hs.jtis t ht t' ht' he
  · rw [h.issued]
    intro t ht r hr he hne
    rcases List.mem_cons.1 ht with rfl | ht <;> rcases h.mem hr with hr | rfl
    · exact absurd rfl ((hs.old r hr).2.1 _ he).ne
    · rfl
    · exact hs.names t ht r hr he hne
    · exact absurd rfl (hold ht _ he.symm)
  · rw [h.issued]
    intro t ht r hr he hne e hend
    rcases List.mem_cons.1 ht with rfl | ht <;> rcases h.mem hr with hr | rfl
    · exact absurd rfl ((hs.old r hr).2.1 _ he).ne
    · rw [← Option.some.inj hend]
      exact numericDate_le _
    · exact hs.ends t ht r hr he hne e hend
    · exact absurd rfl (hold ht _ he.symm)

theorem Knows.opened (hs : Sound db) (hk : Knows db c t row) (h : Opened s db db' x u rs) : Knows db' c t row := by
  refine ⟨h.issued ▸ List.mem_cons_of_mem _ hk.issued, hk.sid, hk.same, by rw [h.fresh]; have := hk.old; omega, fun r hr => ?_, hk.matched⟩
  rcases h.mem hr with hr | rfl
  · exact hk.stored r hr
  · refine ⟨⟨fun hid => absurd hk.old (by rw [← hid]; exact lt_irrefl _), fun hs' => ?_⟩, fun hid => absurd hk.old (by rw [← hid]; exact lt_irrefl _)⟩
    exact absurd ((hs.issued t hk.issued).2 db.fresh (hk.same.symm.trans hs'.symm)) (lt_irrefl _)

end Opened

section Swapped

variable {db' : Db}

theorem Swapped.stored (h : Swapped s db db' x t row) (hr : r' ∈ db'.rows) : ∃ r ∈ db.rows, r'.id = r.id ∧ r'.sessionID = r.sessionID ∧
    r'.name = r.name ∧ r'.gmtRefreshExpire = r.gmtRefreshExpire ∧
    (r.id = row.id ∧ r.refreshJTI = row.refreshJTI ∧ r'.refreshJTI = some (db.fresh + 1) ∨
      ¬ (r.id = row.id ∧ r.refreshJTI = row.refreshJTI) ∧ r'.refreshJTI = r.refreshJTI) := by
  obtain ⟨r, hmem, ⟨hid, hj, rfl⟩ | ⟨hne, rfl⟩⟩ := h.rows r' hr
  · exact ⟨r, hmem, rfl, rfl, rfl, rfl, .inl ⟨hid, hj, rfl⟩⟩
  · exact ⟨_, hmem, rfl, rfl, rfl, rfl, .inr ⟨hne, rfl⟩⟩

theorem Sound.swapped (hs : Sound db) (hk : Knows db c t row) (h : Swapped s db db' x t row) : Sound db' := by
  have hold : ∀ r ∈ db.rows, ∀ j, r.refreshJTI = some j → j < db.fresh := fun r hr => (hs.old r hr).2.2
  have hids : (db'.rows.map (·.id)).Nodup := h.ids ▸ hs.ids
  refine ⟨hids, ?_, ?_, ?_, ?_, ?_, ?_, ?_⟩
  · intro r₁ hr₁ r₂ hr₂ he hne
    obtain ⟨q₁, hq₁, hid₁, hs₁, -⟩ := h.stored hr₁
    obtain ⟨q₂, hq₂, hid₂, hs₂, -⟩ := h.stored hr₂
    rw [hs₁, hs₂] at he
    rw [hs₁] at hne
    obtain rfl := hs.sids q₁ hq₁ q₂ hq₂ he hne
    exact Table.eq_of_col_eq hids hr₁ hr₂ (hid₁.trans hid₂.symm)
  · intro r hr
    obtain ⟨q, hq, hid, hsid, -, -, hj⟩ := h.stored hr
    obtain ⟨h₁, h₂, h₃⟩ := hs.old q hq
    rw [h.fresh, hid, hsid]
    refine ⟨by omega, fun n hn => (h₂ n hn).trans (by omega), fun j hn => ?_⟩
    rcases hj with ⟨-, -, hj⟩ | ⟨-, hj⟩ <;> rw [hj] at hn
    · rw [← Option.some.inj hn]
      omega
    · exact (h₃ j hn).trans (by omega)
  · rw [h.issued]
    intro r hr t' ht' hj
    obtain ⟨q, hq, hid, hsid, -, -, hq'⟩ := h.stored hr
    rw [hsid]
    rcases hq' with ⟨hqid, -, hqj⟩ | ⟨-, hqj⟩ <;> rw [hqj] at hj <;> rcases List.mem_cons.1 ht' with rfl | ht'
    · exact hk.same.symm.trans ((hk.stored q hq).1.1 hqid).symm
    · exact absurd (hs.issued t' ht').1 (by rw [← Option.some.inj hj]; omega)
    · exact absurd (hold q hq _ hj) (by show ¬ db.fresh + 1 < db.fresh; omega)
    · exact hs.current q hq t' ht' hj
  · rw [h.issued, h.fresh]
    intro t' ht'
    rcases List.mem_cons.1 ht' with rfl | ht'
    · exact ⟨Nat.lt_succ_self _, fun n hn => ((hs.issued t hk.issued).2 n hn).trans (by omega)⟩
    · exact ⟨(hs.issued t' ht').1.trans (by omega), fun n hn => ((hs.issued t' ht').2 n hn).trans (by omega)⟩
  · rw [h.issued]
    have hnew : ∀ t' ∈ db.issued, t'.jti ≠ db.fresh + 1 := fun t' ht' => by
      have := (hs.issued t' ht').1
      omega
    intro t₁ ht₁ t₂ ht₂ he
    rcases List.mem_cons.1 ht₁ with rfl | ht₁ <;> rcases List.mem_cons.1 ht₂ with rfl | ht₂
    · rfl
    · exact absurd he.symm (hnew t₂ ht₂)
    · exact absurd he (hnew t₁ ht₁)
    · exact hs.jtis t₁ ht₁ t₂ ht₂ he
  · rw [h.issued]
    intro t' ht' r hr he hne
    obtain ⟨q, hq, -, hsid, hname, -⟩ := h.stored hr
    rw [hname]
    rw [hsid] at he
    rcases List.mem_cons.1 ht' with rfl | ht'
    · exact hs.names t hk.issued q hq he hne
    · exact hs.names t' ht' q hq he hne
  · rw [h.issued]
    intro t' ht' r hr he hne e hend
    obtain ⟨q, hq, -, hsid, -, hexp, -⟩ := h.stored hr
    rw [hsid] at he
    rw [hexp] at hend
    rcases List.mem_cons.1 ht' with rfl | ht'
    · -- the new token ends with the session at the latest
      have hrow := (hk.stored q hq).2 ((hk.stored q hq).1.2 (he.trans hk.same.symm))
      have hexpire : row.gmtRefreshExpire = some e := hrow.1.symm.trans hend
      have hle := numericDate_le (min (x.now + s.refreshTokenExpiry) (row.gmtRefreshExpire.getD t.expiresAt))
      refine hle.trans ((min_le_right _ _).trans ?_)
      rw [hexpire]
      exact le_rfl
    · exact hs.ends t' ht' q hq he hne e hend

theorem Knows.swapped {t₀ : Claims} {row₀ : UserTokensDO} (hk : Knows db c t row) (h : Swapped s db db' x t₀ row₀) :
    Knows db' c t row := by
  refine ⟨h.issued ▸ List.mem_cons_of_mem _ hk.issued, hk.sid, hk.same, by rw [h.fresh]; have := hk.old; omega, fun r hr => ?_, hk.matched⟩
  obtain ⟨q, hq, hid, hsid, hname, hexp, -⟩ := h.stored hr
  rw [hid, hsid, hname, hexp]
  exact hk.stored q hq

end Swapped

variable {i : Nat} {a : Service.Action}

theorem sound_exec (h : Inv w) (hc : w.calls i = some c) : Sound (s.exec w.db c x).db ∧
    ∀ c' t row, Knows w.db c' t row → Knows (s.exec w.db c x).db c' t row := by
  rcases step_sessions (s := s) (x := x) w.db c with ⟨hk, -⟩ | ⟨u, _, rs, rfl, hop⟩ | ⟨t, row, now, rfl, -, hsw⟩
  · exact ⟨h.sound.kept hk, fun c' t row hkn => hkn.kept hk⟩
  · exact ⟨h.sound.opened hop, fun c' t row hkn => hkn.opened h.sound hop⟩
  · exact ⟨h.sound.swapped (h.calls i _ hc t row rfl) hsw, fun c' t row hkn => hkn.swapped hsw⟩

theorem filterMap_exchanged {es : List Event} (h : ∀ e ∈ es, ∀ j, e ≠ .exchanged j) : es.filterMap Event.exchangedJti = [] := by
  refine List.filterMap_eq_nil_iff.2 fun e he => ?_
  cases e with
  | exchanged j => exact absurd rfl (h _ he j)
  | _ => rfl

theorem not_exchanged {now : Nat} (h : Inv w) (hc : w.calls i = some (.refreshSwap t row now))
    (hsw : Swapped s w.db (s.exec w.db (.refreshSwap t row now) x).db x t row) : .exchanged t.jti ∉ w.log := by
  intro hex
  have hk := h.calls i _ hc t row rfl
  obtain ⟨t', ht', hj, hrows⟩ := h.exchanged _ hex
  obtain rfl := h.sound.jtis t' ht' t hk.issued hj
  obtain ⟨r, hr, hid, hrj⟩ := hsw.found
  obtain ⟨hnone, hsome⟩ := hrows r hr (((hk.stored r hr).1.1 hid).trans hk.same)
  rcases hk.matched rfl with hm | hm
  · exact hnone (hrj.trans hm)
  · exact hsome (hrj.trans hm)

theorem issued_mono (ht : t ∈ db.issued) : t ∈ (s.exec db c x).db.issued := by
  rcases step_sessions (s := s) (x := x) db c with ⟨hk, -⟩ | ⟨_, _, _, _, hop⟩ | ⟨_, _, _, _, -, hsw⟩
  · exact hk.issued ▸ ht
  · exact hop.issued ▸ List.mem_cons_of_mem _ ht
  · exact hsw.issued ▸ List.mem_cons_of_mem _ ht

theorem row_before (hr' : r' ∈ (s.exec db c x).db.rows) (hlt : ∀ n, r'.sessionID = some n → n < db.fresh) :
    ∃ r ∈ db.rows, r.id = r'.id ∧ r.sessionID = r'.sessionID ∧ r.gmtRefreshExpire = r'.gmtRefreshExpire ∧
      (r'.refreshJTI = r.refreshJTI ∨ r'.refreshJTI = some (db.fresh + 1)) := by
  rcases step_sessions (s := s) (x := x) db c with ⟨hk, -⟩ | ⟨_, _, _, _, hop⟩ | ⟨_, _, _, _, -, hsw⟩
  · exact ⟨r', hk.mem hr', rfl, rfl, rfl, .inl rfl⟩
  · rcases hop.mem hr' with hr' | rfl
    · exact ⟨r', hr', rfl, rfl, rfl, .inl rfl⟩
    · exact absurd (hlt _ rfl) (lt_irrefl _)
  · obtain ⟨r, hr, hid, hsid, -, hexp, ⟨-, -, hj⟩ | ⟨-, hj⟩⟩ := hsw.stored hr'
    · exact ⟨r, hr, hid.symm, hsid.symm, hexp.symm, .inr hj⟩
    · exact ⟨r, hr, hid.symm, hsid.symm, hexp.symm, .inl hj⟩

theorem fresh_mono : db.fresh ≤ (s.exec db c x).db.fresh := by
  rcases step_sessions (s := s) (x := x) db c with ⟨hk, -⟩ | ⟨_, _, _, _, hop⟩ | ⟨_, _, _, _, -, hsw⟩
  · exact hk.fresh
  · rw [hop.fresh]
    omega
  · rw [hsw.fresh]
    omega

theorem calls_after (h : Inv w) (hc : w.calls i = some c) :
    (w.after s.exec i c x).All fun c' => ∀ t row, c'.refreshing = some (t, row) → Knows (s.exec w.db c x).db c' t row := by
  obtain ⟨-, hkeep⟩ := sound_exec (s := s) (x := x) h hc
  intro j d hd t row hdr
  by_cases hij : j = i
  · subst hij
    have hn : (s.exec w.db c x).next = some d := by simpa [Calls.World.after] using hd
    exact hkeep d t row (knows_next h.sound (h.calls j c hc) hn hdr)
  · have hd : w.calls j = some d := by simpa [Calls.World.after, hij] using hd
    exact hkeep d t row (h.calls j d hd t row hdr)

theorem exchanged_after (h : Inv w) (hc : w.calls i = some c) (hj : .exchanged j ∈ w.log ++ (s.exec w.db c x).events) :
    ∃ t ∈ (s.exec w.db c x).db.issued, t.jti = j ∧
      ∀ r ∈ (s.exec w.db c x).db.rows, r.sessionID = t.sessionID → r.refreshJTI ≠ none ∧ r.refreshJTI ≠ some j := by
  rcases List.mem_append.1 hj with hj | hj
  · obtain ⟨t, ht, rfl, hrows⟩ := h.exchanged j hj
    refine ⟨t, issued_mono ht, rfl, fun r' hr' hsid => ?_⟩
    obtain ⟨r, hr, -, hrs, -, hrj⟩ := row_before hr' fun n hn => (h.sound.issued t ht).2 n (hsid ▸ hn)
    have hold := hrows r hr (hrs.trans hsid)
    rcases hrj with hrj | hrj <;> rw [hrj]
    · exact hold
    · refine ⟨nofun, fun he => ?_⟩
      have := (h.sound.issued t ht).1
      rw [← Option.some.inj he] at this
      omega
  · rcases events_cases hj with ⟨hne, -⟩ | ⟨t, row, now, rfl, he⟩
    · exact absurd rfl (hne j)
    · obtain rfl := Event.exchanged.inj he
      have hk := h.calls i _ hc t row rfl
      refine ⟨t, issued_mono hk.issued, rfl, fun r' hr' hsid => ?_⟩
      rcases step_sessions (s := s) (x := x) w.db (.refreshSwap t row now) with ⟨-, hno⟩ | ⟨_, _, _, hcc, -⟩ | ⟨t', row', now', hcc, -, hsw⟩
      · exact absurd rfl (hno _ hj t.jti)
      · cases hcc
      · obtain ⟨rfl, rfl, rfl⟩ := Call.refreshSwap.inj hcc
        obtain ⟨r₀, hr₀, hid₀, hj₀⟩ := hsw.found
        obtain ⟨r, hr, hid, hrs, -, -, hcase⟩ := hsw.stored hr'
        have hrid : r.id = row.id := (hk.stored r hr).1.2 (by rw [← hrs, hsid, hk.same])
        obtain rfl := Table.eq_of_col_eq h.sound.ids hr hr₀ (hrid.trans hid₀.symm)
        rcases hcase with ⟨-, -, hnew⟩ | ⟨hno, -⟩
        · rw [hnew]
          refine ⟨nofun, fun he => ?_⟩
          have := (h.sound.issued t hk.issued).1
          rw [← Option.some.inj he] at this
          omega
        · exact absurd ⟨hid₀, hj₀⟩ hno

theorem once_after (h : Inv w) (hc : w.calls i = some c) : ((w.log ++ (s.exec w.db c x).events).filterMap Event.exchangedJti).Nodup := by
  rw [List.filterMap_append]
  rcases step_sessions (s := s) (x := x) w.db c with ⟨-, hno⟩ | ⟨u, a, rs, rfl, -⟩ | ⟨t, row, now, rfl, hev, hsw⟩
  · rw [filterMap_exchanged hno, List.append_nil]
    exact h.once
  · have hno : ∀ e ∈ (s.exec w.db (.storeSession u a rs) x).events, ∀ j, e ≠ .exchanged j := by
      intro e he
      rw [List.mem_singleton.1 he]
      exact nofun
    rw [filterMap_exchanged hno, List.append_nil]
    exact h.once
  · rw [hev]
    refine List.nodup_append.2 ⟨h.once, List.nodup_singleton _, ?_⟩
    rintro j hj j' hj' rfl
    obtain ⟨e, he, hej⟩ := List.mem_filterMap.1 hj
    obtain rfl := List.mem_singleton.1 hj'
    cases e with
    | exchanged j₀ =>
      rw [Option.some.inj hej] at he
      exact not_exchanged h hc hsw he
    | _ => cases hej

theorem refused_after (h : Inv w) (hc : w.calls i = some c) (ht : .refused t ∈ w.log ++ (s.exec w.db c x).events) :
    t ∈ (s.exec w.db c x).db.issued ∧ ∀ n, t.sessionID = some n → ∀ r ∈ (s.exec w.db c x).db.rows, r.sessionID ≠ some n := by
  rcases List.mem_append.1 ht with ht | ht
  · obtain ⟨hiss, hrows⟩ := h.refused t ht
    refine ⟨issued_mono hiss, fun n hn r' hr' hsid => ?_⟩
    obtain ⟨r, hr, -, hrs, -⟩ := row_before hr' fun m hm => (h.sound.issued t hiss).2 m (hn.trans (hsid.symm.trans hm))
    exact hrows n hn r hr (hrs.trans hsid)
  · rcases events_cases ht with ⟨-, href⟩ | ⟨_, _, _, _, he⟩
    · rcases href t rfl with ⟨row, rfl⟩ | ⟨hiss, hnone⟩
      · -- the row was deleted
        have hk := h.calls i _ hc t row rfl
        refine ⟨issued_mono hk.issued, fun n hn r' hr' hsid => ?_⟩
        obtain ⟨r, hr, rfl⟩ := List.mem_map.1 hr'
        obtain ⟨hr, hne⟩ := List.mem_filter.1 hr
        have hid := ((hk.stored _ (mem_strip hr)).1.2 (by rw [hsid, hk.same, hn]))
        simp only [Bool.not_eq_true', decide_eq_false_iff_not] at hne
        exact hne hid
      · refine ⟨issued_mono hiss, fun n hn r' hr' hsid => ?_⟩
        obtain ⟨r, hr, -, hrs, -⟩ := row_before hr' fun m hm => (h.sound.issued t hiss).2 m (hn.trans (hsid.symm.trans hm))
        obtain ⟨q, hq, rfl⟩ := List.mem_map.1 hr
        have hname := h.sound.names t hiss _ hr (hrs.trans (hsid.trans hn.symm)) (by rw [hn]; nofun)
        exact absurd (hnone q hq hname (hrs.trans (hsid.trans hn.symm))) (by rw [hn]; nofun)
    · cases he

theorem refreshing_first (hf : c.first = true) : c.refreshing = none := by
  cases c <;> first | rfl | cases hf

theorem inv_step (h : Inv w) (hs : s.step w a = some w') : Inv w' := by
  obtain ⟨i, c, rfl, hf, -, rfl⟩ | ⟨i, c, x, rfl, hc, rfl⟩ | ⟨i, c, rfl, -, rfl⟩ := Calls.step_cases hs
  · refine { h with calls := h.calls.begin fun t row hr => ?_ }
    rw [refreshing_first hf] at hr
    cases hr
  · exact ⟨(sound_exec h hc).1, calls_after h hc, fun j hj => exchanged_after h hc hj, once_after h hc, fun t ht => refused_after h hc ht⟩
  · exact { h with calls := h.calls.drop }

theorem Sound.inv (h : Sound db) : Inv (.idle db) := ⟨h, Calls.World.idle_all _ _, nofun, .nil, nofun⟩

def UserTokensDO.origin (r : UserTokensDO) : Nat × Bytes × Nat × Nat × Option UserContext :=
  (r.id, r.name, r.pwdVer, r.authorizationVersion, r.sessionData)

theorem origin_eq : r.origin = r'.origin ↔ r.id = r'.id ∧ r.name = r'.name ∧ r.pwdVer = r'.pwdVer ∧
    r.authorizationVersion = r'.authorizationVersion ∧ r.sessionData = r'.sessionData := by
  simp only [UserTokensDO.origin, Prod.mk.injEq]

theorem session_before (hr' : r' ∈ (s.exec db c x).db.sessions) : (∃ r ∈ db.sessions, r.origin = r'.origin) ∨
    ∃ u a rs, c = .storeSession u a rs ∧ r'.origin = (s.newSession db u rs x.now).origin := by
  have hback : r'.strip ∈ db.rows → ∃ r ∈ db.sessions, r.origin = r'.origin := by
    intro h
    obtain ⟨r, hr, he⟩ := List.mem_map.1 h
    have ho := congrArg UserTokensDO.origin he
    exact ⟨r, hr, ho⟩
  rcases sessions_cases (s := s) (x := x) db c with hk | ⟨u, a, rs, rfl, hop⟩ | ⟨t, row, now, -, -, hsw⟩
  · exact .inl (hback (hk.mem (mem_strip hr')))
  · rcases hop.mem (mem_strip hr') with h | h
    · exact .inl (hback h)
    · have ho := congrArg UserTokensDO.origin h
      exact .inr ⟨u, a, rs, rfl, ho⟩
  · obtain ⟨q, hq, hcase⟩ := hsw.rows _ (mem_strip hr')
    obtain ⟨r, hr, rfl⟩ := List.mem_map.1 hq
    rcases hcase with ⟨-, -, he⟩ | ⟨-, he⟩
    · have ho := congrArg UserTokensDO.origin he
      exact .inl ⟨r, hr, ho.symm⟩
    · have ho := congrArg UserTokensDO.origin he
      exact .inl ⟨r, hr, ho.symm⟩

theorem run_inv {as : List Service.Action} (h : Inv w) (hr : Lts.run s.step w as = some w') : Inv w' :=
  Lts.Reachable.invariant (fun _ _ _ hi hs => inv_step hi hs) h ⟨as, hr⟩

/-- What `ValidateSession` finds in one look, at the time `now`. -/
def Validates (s : Service) (db : Db) (now token : Nat) (r : UserTokensDO) : Prop :=
  r ∈ db.sessions ∧ r.token = token ∧ s.sessionExpired r now = false ∧ Service.accountState db r = true

/-- The call presents `t`, which has not expired when it looks at it. -/
def Presents (t : Claims) (now : Nat) (c : Call) : Prop := (c = .refreshToken t ∧ now < t.expiresAt) ∨ ∃ row, c.refreshing = some (t, row)

/-- The session of `t` has no row. -/
def Gone (db : Db) (t : Claims) : Prop := t.sessionID ≠ none → ∀ r ∈ db.sessions, r.sessionID ≠ t.sessionID

def SameEnd (db db' : Db) : Prop :=
  ∀ r ∈ db.sessions, ∀ r' ∈ db'.sessions, r.sessionID = r'.sessionID → r.sessionID ≠ none → r'.gmtRefreshExpire = r.gmtRefreshExpire

theorem Inv.gone (h : Inv w) (ht : .refused t ∈ w.log) : Gone w.db t := by
  intro hne r hr hs
  obtain ⟨n, hn⟩ := Option.ne_none_iff_exists'.1 hne
  exact (h.refused t ht).2 n hn r.strip (mem_strip hr) (hs.trans hn)

theorem presents_returns (hiss : t ∈ db.issued) (hp : Presents t x.now c) (hn : (s.exec db c x).next = none) :
    (s.exec db c x).events = [.exchanged t.jti] ∨ (s.exec db c x).events = [.refused t] := by
  rcases hp with ⟨rfl, hlt⟩ | ⟨row, hrow⟩
  · simp only [Service.exec] at hn ⊢
    have hok : ¬ (t ∉ db.issued ∨ t.expiresAt ≤ x.now) := by
      rintro (h | h)
      · exact h hiss
      · omega
    rw [if_neg hok] at hn ⊢
    split_ifs at hn ⊢
    · exact .inr rfl
    · cases hf : db.sessions.find? fun r => decide (r.name = t.username ∧ r.sessionID = t.sessionID) with
      | none => exact .inr rfl
      | some row =>
        simp only [hf] at hn
        split_ifs at hn
  · cases c with
    | refreshAccount t₀ row₀ now =>
      simp only [Service.exec] at hn
      split_ifs at hn
    | refreshSwap t₀ row₀ now =>
      obtain ⟨rfl, rfl⟩ := Prod.mk.inj (Option.some.inj hrow)
      simp only [Service.exec] at hn ⊢
      split_ifs at hn ⊢
      exact .inl rfl
    | refreshRevoke t₀ row₀ =>
      obtain ⟨rfl, rfl⟩ := Prod.mk.inj (Option.some.inj hrow)
      exact .inr rfl
    | _ => cases hrow

theorem represented (h : Inv w) (hex : .exchanged t.jti ∈ w.log) (hiss : t ∈ w.db.issued) (hc : w.calls i = some c)
    (hp : Presents t x.now c) (hs : s.step w (.exec i x) = some w') (hret : w'.calls i = none) : .refused t ∈ w'.log := by
  have hinv := inv_step h hs
  obtain rfl : w.after s.exec i c x = w' := by
    simpa [Service.step, Calls.step, hc] using hs
  have hn : (s.exec w.db c x).next = none := by simpa [Calls.World.after] using hret
  have hlog : (w.after s.exec i c x).log = w.log ++ (s.exec w.db c x).events := rfl
  rcases presents_returns hiss hp hn with he | he
  · -- the second exchange of a token
    have honce := hinv.once
    rw [hlog, he, List.filterMap_append] at honce
    have hmem : t.jti ∈ w.log.filterMap Event.exchangedJti := List.mem_filterMap.2 ⟨_, hex, rfl⟩
    exact absurd rfl ((List.nodup_append.1 honce).2.2 _ hmem t.jti (List.mem_singleton.2 rfl))
  · rw [hlog, he]
    exact List.mem_append_right _ (List.mem_singleton.2 rfl)

theorem Sound.one_token (h : Sound db) {now now' token token' : Nat} (hv : Validates s db now token r) (hv' : Validates s db now' token' r')
    (hs : r.sessionID = r'.sessionID) (hne : r.sessionID ≠ none) : token = token' := by
  have hr : r.strip = r'.strip := h.sids _ (mem_strip hv.1) _ (mem_strip hv'.1) hs hne
  have htok : r.strip.token = r'.strip.token := congrArg UserTokensDO.token hr
  exact hv.2.1.symm.trans (htok.trans hv'.2.1)

/-- The rows of the sessions of `db` keep their ends. -/
structure EndsKept (db : Db) (w : Service.World) : Prop where
  inv : Inv w
  fresh : db.fresh ≤ w.db.fresh
  ends : ∀ r ∈ db.rows, ∀ r' ∈ w.db.rows, r.sessionID = r'.sessionID → r.sessionID ≠ none → r'.gmtRefreshExpire = r.gmtRefreshExpire

theorem endsKept_step {db₀ : Db} (h₀ : Sound db₀) (h : EndsKept db₀ w) (hs : s.step w a = some w') : EndsKept db₀ w' := by
  have hinv := inv_step h.inv hs
  obtain ⟨i, c, rfl, -, -, rfl⟩ | ⟨i, c, x, rfl, hc, rfl⟩ | ⟨i, c, rfl, -, rfl⟩ := Calls.step_cases hs
  · exact ⟨hinv, h.fresh, h.ends⟩
  · refine ⟨hinv, h.fresh.trans fresh_mono, fun r hr r' hr' hsid hne => ?_⟩
    have hlt : ∀ n, r'.sessionID = some n → n < w.db.fresh := by
      intro n hn
      exact ((h₀.old r hr).2.1 n (hsid.trans hn)).trans_le h.fresh
    obtain ⟨q, hq, -, hqs, hqe, -⟩ := row_before hr' hlt
    exact hqe.symm.trans (h.ends r hr q hq (hsid.trans hqs.symm) hne)
  · exact ⟨hinv, h.fresh, h.ends⟩

theorem Inv.endsKept (h : Inv w) : EndsKept w.db w := by
  refine ⟨h, le_rfl, fun r hr r' hr' hsid hne => ?_⟩
  rw [h.sound.sids r hr r' hr' hsid hne]

theorem Inv.sameEnd {as : List Service.Action} (h : Inv w) (hr : Lts.run s.step w as = some w') : SameEnd w.db w'.db := by
  have hk : EndsKept w.db w' := Lts.Reachable.invariant (fun _ _ _ hi hs => endsKept_step h.sound hi hs) h.endsKept ⟨as, hr⟩
  intro r hr r' hr' hsid hne
  exact hk.ends r.strip (mem_strip hr) r'.strip (mem_strip hr') hsid hne

theorem Sound.empty (hs : db.sessions = []) (hi : db.issued = []) : Sound db := by
  have hrows : db.rows = [] := by rw [Db.rows, hs, List.map_nil]
  constructor <;> simp [hrows, hi]

def firstClaims : Claims := ⟨3, str "alice", some 2, 0, Service.second⟩

def untilExchange : List Service.Action :=
  [logIn 0 (str "first") 0] ++ steps 0 5 0 ++ [.start 1 (.refreshToken firstClaims)] ++ steps 1 3 500000000

def presentAgain (n now : Nat) : List Service.Action := .start 2 (.refreshToken firstClaims) :: steps 2 n now

theorem sound_officeDb (u : UserAccountsDO) : Sound (officeDb u) := .empty rfl rfl

def sessionEnd : Nat := 1500000000

def exchangedRow : UserTokensDO where
  id := 2
  name := str "alice"
  token := 4
  gmtToken := some 500000000
  sessionData := some ⟨1, str "alice", str "CENTER", str "kuscia-system", []⟩
  sessionID := some 2
  refreshJTI := some 5
  pwdVer := 0
  authorizationVersion := 0
  gmtRefreshExpire := some sessionEnd

def lookUp : List Service.Action := .start 3 (.validateSession 4) :: steps 3 2 1300000000

theorem untilExchange_run : ∃ w, Lts.run (office sessionEnd).step (.idle (officeDb alice)) untilExchange = some w ∧
    .exchanged firstClaims.jti ∈ w.log ∧ firstClaims ∈ w.db.issued := by
  have hrun : (Lts.run (office sessionEnd).step (.idle (officeDb alice)) untilExchange).map
      (fun w => decide (.exchanged firstClaims.jti ∈ w.log ∧ firstClaims ∈ w.db.issued)) = some true := by decide +kernel
  obtain ⟨w, hw, hlog⟩ := Option.map_eq_some_iff.1 hrun
  exact ⟨w, hw, of_decide_eq_true hlog⟩

end Auth
