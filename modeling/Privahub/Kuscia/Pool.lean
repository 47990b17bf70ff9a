import Mathlib.Data.List.Sort
import Privahub.Kuscia.Endpoint

/-!
# The pool of clients and its file

`ClientPool` of `pkg/kuscia/pool.go`: endpoints that were registered as persistent are written to a file after each change of theirs, and a fresh pool
registers what it reads there. `held` says from the history which endpoints these are. Reading back checks each endpoint again, which leaves it as it is
exactly if its host carries no second port (`validate_again_iff`).
-/

namespace Kuscia

open NodeEndpoint

variable {κ : Type}

/-- The table of lower case letters, the path of the file, the proxy of the default client, if there is one, and how a client is made. -/
structure Env (κ : Type) where
  unicode : CaseTables
  persistPath : Bytes
  defProxy : Option Bytes
  NewClientE : ClientConfig → Except Bytes κ

inductive PoolError where
  | endpoint (e : EndpointError)
  | client (e : Bytes)
  | parse
  deriving DecidableEq

/-- The map of the endpoints is a list of them, one for each domain. Every write to the file succeeds. -/
structure ClientPool (κ : Type) where
  clients : Bytes → Option κ
  endpoints : List NodeEndpoint
  file : Option Bytes

def NewClientPool (file : Option Bytes) : ClientPool κ := ⟨fun _ => none, [], file⟩

def lookup (eps : List NodeEndpoint) (domainID : Bytes) : Option NodeEndpoint := eps.find? fun e => decide (e.DomainID = domainID)

def delete (eps : List NodeEndpoint) (domainID : Bytes) : List NodeEndpoint := eps.filter fun e => decide (e.DomainID ≠ domainID)

def put (eps : List NodeEndpoint) (e : NodeEndpoint) : List NodeEndpoint := delete eps e.DomainID ++ [e]

def saved (eps : List NodeEndpoint) : List NodeEndpoint :=
  (eps.filter (·.Persist)).insertionSort fun a b => a.DomainID ≤ b.DomainID

namespace ClientPool

variable (env : Env κ) (p : ClientPool κ)

def saveLocked : ClientPool κ := if env.persistPath = [] then p else { p with file := some (marshal (saved p.endpoints)) }

def inherit (cc : ClientConfig) : ClientConfig := if cc.HTTPProxy = [] then { cc with HTTPProxy := env.defProxy.getD [] } else cc

def Register (ep : NodeEndpoint) : Except PoolError Unit × ClientPool κ :=
  match ep.Validate env.unicode with
  | .error e => (.error (.endpoint e), p)
  | .ok ep =>
    match env.NewClientE (inherit env ep.toClientConfig) with
    | .error e => (.error (.client e), p)
    | .ok c =>
      let old : Option NodeEndpoint := lookup p.endpoints ep.DomainID
      let ep := { ep with Persist := ep.Persist || old.any fun e : NodeEndpoint => e.Persist }
      let p := { p with clients := fun d => if d = ep.DomainID then some c else p.clients d, endpoints := put p.endpoints ep }
      (.ok (), if ep.Persist then p.saveLocked env else p)

def Unregister (domainID : Bytes) : ClientPool κ :=
  let ep := lookup p.endpoints domainID
  let p := { p with clients := fun d => if d = domainID then none else p.clients d, endpoints := delete p.endpoints domainID }
  if ep.any (·.Persist) then p.saveLocked env else p

def registerAll : ClientPool κ → List NodeEndpoint → List PoolError × ClientPool κ
  | p, [] => ([], p)
  | p, ep :: eps =>
    let r := p.Register env { ep with Persist := true }
    let rest := registerAll r.2 eps
    (match r.1 with
      | .ok _ => rest.1
      | .error e => e :: rest.1, rest.2)

def Load : List PoolError × ClientPool κ :=
  if env.persistPath = [] then ([], p)
  else
    match p.file with
    | none => ([], p)
    | some data =>
      match unmarshal data with
      | none => ([.parse], p)
      | some eps => registerAll env p eps

end ClientPool

inductive Op where
  | register (ep : NodeEndpoint)
  | unregister (domainID : Bytes)
  deriving DecidableEq

variable (env : Env κ)

def apply (p : ClientPool κ) : Op → ClientPool κ
  | .register ep => (p.Register env ep).2
  | .unregister domainID => p.Unregister env domainID

def run (ops : List Op) : ClientPool κ := ops.foldl (apply env) (NewClientPool none)

def accepted (ep : NodeEndpoint) : Option NodeEndpoint :=
  match ep.Validate env.unicode with
  | .error _ => none
  | .ok e =>
    match env.NewClientE (ClientPool.inherit env e.toClientConfig) with
    | .error _ => none
    | .ok _ => some e

def extend (domainID : Bytes) (l : List NodeEndpoint) : Op → List NodeEndpoint
  | .register ep => l ++ ((accepted env ep).filter fun e => decide (e.DomainID = domainID)).toList
  | .unregister d => if d = domainID then [] else l

def since (ops : List Op) (domainID : Bytes) : List NodeEndpoint := ops.foldl (extend env domainID) []

def latest (l : List NodeEndpoint) : Option NodeEndpoint := l.getLast?.map fun e => { e with Persist := l.any (·.Persist) }

/-- The endpoint of a domain that was registered as persistent and has not been unregistered since. -/
def held (ops : List Op) (domainID : Bytes) : Option NodeEndpoint := (latest (since env ops domainID)).filter (·.Persist)

/-- The file, if there is one, is the text of the endpoints, each once. -/
def Holds (file : Option Bytes) (endpoint : Bytes → Option NodeEndpoint) : Prop :=
  ∃ eps, (file = none ∧ eps = [] ∨ file = some (marshal eps)) ∧ (eps.map (·.DomainID)).Nodup ∧ ∀ e, e ∈ eps ↔ endpoint e.DomainID = some e

/-- The host that is left of it has neither a port of its own nor blanks alone. -/
def PlainHost (host : Bytes) : Prop := ∀ h port, splitHost host = some (h, port) → Utf8.trimSpace h ≠ [] ∧ splitHost h = none

section
variable {env} {u : CaseTables} {e e' : NodeEndpoint}

theorem toLower_of_lower {s : Bytes} (h : ∀ b ∈ s, b.toNat < 128 ∧ ¬(65 ≤ b.toNat ∧ b.toNat ≤ 90)) : ToLower u s = s := by
  induction s with
  | nil => rfl
  | cons b s ih =>
    obtain ⟨hlt, hlow⟩ := h b List.mem_cons_self
    have htail : ToLower u s = s := ih fun x hx => h x (List.mem_cons_of_mem _ hx)
    rw [ToLower, Utf8.runes_ascii_cons s hlt, List.flatMap_cons, ← ToLower, htail]
    show Utf8.encodeRune (u.toLower b.toNat) ++ s = _
    rw [u.toLower_ascii _ hlt, if_neg hlow, Utf8.encodeRune, if_pos hlt, UInt8.ofNat_toNat]
    rfl

theorem splitHost_append {host h : Bytes} {port : Int64} (hs : splitHost host = some (h, port)) : ∃ t, host = h ++ 58 :: t := by
  unfold splitHost at hs
  split at hs
  · rename_i c h' hd
    split_ifs at hs with hc
    obtain ⟨q, -, hq⟩ := Option.map_eq_some_iff.1 hs
    obtain ⟨rfl, -⟩ := Prod.mk.inj hq
    have hcolon : c = 58 := by
      have hhead := List.head?_dropWhile_not (fun b : UInt8 => decide (b ≠ 58)) host.reverse
      rw [hd] at hhead
      simpa using hhead
    have hsplit := List.takeWhile_append_dropWhile (p := fun b : UInt8 => decide (b ≠ 58)) (l := host.reverse)
    rw [hd, hcolon] at hsplit
    refine ⟨(host.reverse.takeWhile fun b => decide (b ≠ 58)).reverse, ?_⟩
    have hrev := congrArg List.reverse hsplit
    rw [List.reverse_append, List.reverse_cons, List.reverse_reverse, List.append_assoc] at hrev
    exact hrev.symm
  · cases hs

theorem length_lt_of_splitHost {host h : Bytes} {port : Int64} (hs : splitHost host = some (h, port)) : h.length < host.length := by
  obtain ⟨t, rfl⟩ := splitHost_append hs
  rw [List.length_append, List.length_cons]
  omega

theorem validate_ok (h : e.Validate u = .ok e') : ∃ protocol, e' = { e.located with Protocol := protocol } ∧
    Utf8.trimSpace e.DomainID ≠ [] ∧ Utf8.trimSpace e.Host ≠ [] ∧ ¬(e.located.Port < 0 ∨ 65535 < e.located.Port) ∧
    (protocol = str "notls" ∨
      (protocol = str "tls" ∨ protocol = str "mtls") ∧ ¬(e.located.CertFile = [] ∨ e.located.KeyFile = [] ∨ e.located.Token = [])) := by
  unfold Validate at h
  dsimp only at h
  split_ifs at h with h1 h2 h3 h4 h5 h6
  · exact ⟨_, (Except.ok.inj h).symm, h1, h2, h3, .inl rfl⟩
  · exact ⟨_, (Except.ok.inj h).symm, h1, h2, h3, .inr ⟨h5, h6⟩⟩

theorem located_domain (e : NodeEndpoint) : e.located.DomainID = e.DomainID := by
  unfold located
  split <;> rfl

theorem toLower_protocol {p : Bytes} (h : p ∈ [str "notls", str "tls", str "mtls"]) : ToLower u p = p := by
  refine toLower_of_lower ?_
  revert p
  decide

theorem validate_again (h : e.Validate u = .ok e') (hhost : Utf8.trimSpace e'.Host ≠ []) (hs : splitHost e'.Host = none) : e'.Validate u = .ok e' := by
  have hlocated : e'.located = e' := by rw [located, hs]
  obtain ⟨protocol, rfl, hdomain, -, hport, hproto⟩ := validate_ok h
  unfold Validate
  rw [hlocated, if_neg (located_domain e ▸ hdomain), if_neg hhost]
  dsimp only
  rw [if_neg hport]
  rcases hproto with rfl | ⟨hp, hcred⟩
  · rw [toLower_protocol (by simp), if_pos (.inr rfl)]
  · have hlow : ToLower u protocol = protocol := toLower_protocol (by rcases hp with hp | hp <;> simp [hp])
    have hno : ¬(protocol = [] ∨ protocol = str "notls") := by
      rcases hp with rfl | rfl <;> decide
    rw [hlow, if_neg hno, if_pos hp, if_neg hcred]

theorem validate_again_iff (h : e.Validate u = .ok e') : e'.Validate u = .ok e' ↔ PlainHost e.Host := by
  obtain ⟨protocol, he, -, hblank, -, -⟩ := validate_ok h
  have hhost : e'.Host = e.located.Host := by rw [he]
  constructor
  · intro hagain h' port hs
    obtain ⟨protocol', he', -, hblank', -, -⟩ := validate_ok hagain
    have hh : e'.Host = h' := by rw [hhost, located, hs]
    rw [hh] at hblank'
    refine ⟨hblank', ?_⟩
    cases hs' : splitHost h' with
    | none => rfl
    | some q =>
      have hshort : h' = q.1 := by
        rw [← hh, he', located, hh, hs']
      exact absurd (length_lt_of_splitHost hs') (by rw [← hshort]; exact lt_irrefl _)
  · intro hplain
    cases hs : splitHost e.Host with
    | none =>
      have hh : e'.Host = e.Host := by rw [hhost, located, hs]
      exact validate_again h (hh ▸ hblank) (hh ▸ hs)
    | some q =>
      have hh : e'.Host = q.1 := by rw [hhost, located, hs]
      obtain ⟨hleft, hnone⟩ := hplain q.1 q.2 hs
      exact validate_again h (hh ▸ hleft) (hh ▸ hnone)

end

section
variable {eps : List NodeEndpoint} {e : NodeEndpoint}

theorem nodup_delete (h : (eps.map (·.DomainID)).Nodup) (d : Bytes) : ((delete eps d).map (·.DomainID)).Nodup := h.sublist (List.filter_sublist.map _)

theorem nodup_put (h : (eps.map (·.DomainID)).Nodup) (e : NodeEndpoint) : ((put eps e).map (·.DomainID)).Nodup := by
  rw [put, List.map_append, List.nodup_append]
  refine ⟨nodup_delete h _, List.nodup_singleton _, fun a ha b hb => ?_⟩
  obtain ⟨x, hx, rfl⟩ := List.mem_map.1 ha
  rw [List.map_singleton, List.mem_singleton] at hb
  rw [hb]
  exact of_decide_eq_true (List.mem_filter.1 hx).2

theorem lookup_eq_some_iff (h : (eps.map (·.DomainID)).Nodup) {d : Bytes} : lookup eps d = some e ↔ e ∈ eps ∧ e.DomainID = d := by
  constructor
  · intro hl
    exact ⟨List.mem_of_find?_eq_some hl, by simpa using List.find?_some hl⟩
  · rintro ⟨he, rfl⟩
    cases hl : lookup eps e.DomainID with
    | none => exact absurd (List.find?_eq_none.1 hl e he) (by simp)
    | some x =>
      have hx : x.DomainID = e.DomainID := by simpa using List.find?_some hl
      rw [List.inj_on_of_nodup_map h (List.mem_of_find?_eq_some hl) he hx]

theorem lookup_delete (d d' : Bytes) : lookup (delete eps d') d = if d' = d then none else lookup eps d := by
  rw [lookup, delete, List.find?_filter]
  split_ifs with hd
  · subst hd
    exact List.find?_eq_none.2 fun x _ => by simp
  · rw [lookup]
    congr 1
    funext x
    by_cases hx : x.DomainID = d
    · simp [hx, Ne.symm hd]
    · simp [hx]

theorem lookup_put (d : Bytes) : lookup (put eps e) d = if e.DomainID = d then some e else lookup eps d := by
  rw [lookup, put, List.find?_append, ← lookup, lookup_delete]
  split_ifs with hd
  · rw [Option.none_or, List.find?_cons_of_pos (by simpa using hd)]
  · rw [List.find?_cons_of_neg (by simpa using hd), List.find?_nil, Option.or_none]

theorem saved_delete {d : Bytes} (h : ∀ x ∈ eps, x.DomainID = d → x.Persist = false) : saved (delete eps d) = saved eps := by
  unfold saved delete
  rw [List.filter_filter]
  congr 1
  refine List.filter_congr fun x hx => ?_
  by_cases hd : x.DomainID = d
  · simp [h x hx hd]
  · simp [hd]

theorem saved_put (he : e.Persist = false) (h : ∀ x ∈ eps, x.DomainID = e.DomainID → x.Persist = false) : saved (put eps e) = saved eps := by
  rw [← saved_delete h]
  simp [saved, put, List.filter_append, he]

theorem mem_saved : e ∈ saved eps ↔ e ∈ eps ∧ e.Persist = true := by
  rw [saved, List.mem_insertionSort, List.mem_filter]

theorem nodup_saved (h : (eps.map (·.DomainID)).Nodup) : ((saved eps).map (·.DomainID)).Nodup := by
  rw [saved, ((List.perm_insertionSort _ _).map _).nodup_iff]
  exact h.sublist (List.filter_sublist.map _)
end

section
variable {env : Env κ} {p : ClientPool κ} {ep e : NodeEndpoint} {entry : Bytes → Option NodeEndpoint}

structure Inv (p : ClientPool κ) (entry : Bytes → Option NodeEndpoint) : Prop where
  nodup : (p.endpoints.map (·.DomainID)).Nodup
  entries : ∀ d, lookup p.endpoints d = entry d
  file : p.file = none ∧ saved p.endpoints = [] ∨ p.file = some (marshal (saved p.endpoints))

theorem file_after (hpath : env.persistPath ≠ []) {b : Bool} {q : ClientPool κ} (hq : q.file = p.file)
    (h : p.file = none ∧ saved p.endpoints = [] ∨ p.file = some (marshal (saved p.endpoints)))
    (hb : b = false → saved q.endpoints = saved p.endpoints) :
    let r := if b then q.saveLocked env else q
    r.endpoints = q.endpoints ∧ (r.file = none ∧ saved r.endpoints = [] ∨ r.file = some (marshal (saved r.endpoints))) := by
  cases b with
  | false => exact ⟨rfl, by simpa [hq, hb rfl] using h⟩
  | true =>
    have hsave : q.saveLocked env = { q with file := some (marshal (saved q.endpoints)) } := if_neg hpath
    show (q.saveLocked env).endpoints = _ ∧ _
    rw [if_pos rfl, hsave]
    exact ⟨rfl, .inr rfl⟩

theorem register_cases (env : Env κ) (p : ClientPool κ) (ep : NodeEndpoint) :
    (accepted env ep = none ∧ (p.Register env ep).2 = p) ∨
    ∃ e c, accepted env ep = some e ∧
      p.Register env ep = (.ok (), let x := { e with Persist := e.Persist || (lookup p.endpoints e.DomainID).any fun o : NodeEndpoint => o.Persist }
        let q : ClientPool κ := { p with clients := fun d => if d = e.DomainID then some c else p.clients d, endpoints := put p.endpoints x }
        if x.Persist then q.saveLocked env else q) := by
  unfold accepted ClientPool.Register
  cases hv : ep.Validate env.unicode with
  | error e => exact .inl ⟨rfl, rfl⟩
  | ok e =>
    dsimp only
    cases hc : env.NewClientE (ClientPool.inherit env e.toClientConfig) with
    | error m => exact .inl ⟨rfl, rfl⟩
    | ok c => exact .inr ⟨e, c, rfl, rfl⟩

theorem latest_concat (l : List NodeEndpoint) (e : NodeEndpoint) :
    latest (l ++ [e]) = some { e with Persist := e.Persist || (latest l).any fun o : NodeEndpoint => o.Persist } := by
  have hany : ((latest l).any fun o : NodeEndpoint => o.Persist) = l.any (·.Persist) := by
    unfold latest
    cases hl : l.getLast? with
    | none => rw [List.getLast?_eq_none_iff.1 hl]; rfl
    | some x => rfl
  rw [hany, latest, List.getLast?_concat, Option.map_some, List.any_append, Bool.or_comm]
  simp

theorem Inv.apply (hpath : env.persistPath ≠ []) {ops : List Op} (h : Inv p fun d => latest (since env ops d)) (op : Op) :
    Inv (Kuscia.apply env p op) fun d => latest (since env (ops ++ [op]) d) := by
  have hsince : ∀ d, since env (ops ++ [op]) d = extend env d (since env ops d) op := fun d => List.foldl_concat ..
  simp only [hsince]
  cases op with
  | register ep =>
    show Inv (p.Register env ep).2 _
    rcases register_cases env p ep with ⟨hacc, hp⟩ | ⟨e, c, hacc, hp⟩
    · rw [hp]
      refine ⟨h.nodup, fun d => ?_, h.file⟩
      rw [h.entries, extend, hacc]
      exact congrArg latest (List.append_nil _).symm
    · rw [hp]
      generalize hx : ({ e with Persist := e.Persist || (lookup p.endpoints e.DomainID).any fun o : NodeEndpoint => o.Persist } : NodeEndpoint) = x
      have hxd : x.DomainID = e.DomainID := by rw [← hx]
      obtain ⟨heps, hfile⟩ := file_after (p := p) hpath (b := x.Persist)
        (q := { p with clients := fun d => if d = e.DomainID then some c else p.clients d, endpoints := put p.endpoints x }) rfl h.file fun hb =>
        saved_put hb fun y hy hyd => by
          have hl : lookup p.endpoints e.DomainID = some y := (lookup_eq_some_iff h.nodup).2 ⟨hy, hyd.trans hxd⟩
          rw [← hx, hl] at hb
          exact (Bool.or_eq_false_iff.1 hb).2
      refine ⟨by rw [heps]; exact nodup_put h.nodup x, fun d => ?_, hfile⟩
      rw [heps]
      show lookup (put p.endpoints x) d = _
      rw [lookup_put, extend, hacc, hxd, h.entries]
      by_cases hd : e.DomainID = d
      · subst hd
        rw [if_pos rfl, Option.filter_some, if_pos (decide_eq_true rfl), Option.toList_some, latest_concat, ← hx, h.entries]
      · rw [if_neg hd, Option.filter_some, if_neg (by simpa using hd), Option.toList_none, List.append_nil]
  | unregister d' =>
    show Inv (p.Unregister env d') _
    unfold ClientPool.Unregister
    obtain ⟨heps, hfile⟩ := file_after (p := p) hpath (b := (lookup p.endpoints d').any fun o : NodeEndpoint => o.Persist)
      (q := { p with clients := fun d => if d = d' then none else p.clients d, endpoints := delete p.endpoints d' }) rfl h.file fun hb =>
      saved_delete fun y hy hyd => by
        rw [(lookup_eq_some_iff h.nodup).2 ⟨hy, hyd⟩] at hb
        exact hb
    refine ⟨by rw [heps]; exact nodup_delete h.nodup d', fun d => ?_, hfile⟩
    rw [heps]
    show lookup (delete p.endpoints d') d = _
    rw [lookup_delete, extend, h.entries]
    split_ifs <;> rfl

theorem run_concat (env : Env κ) (ops : List Op) (op : Op) : run env (ops ++ [op]) = apply env (run env ops) op := List.foldl_concat ..

theorem inv_run (hpath : env.persistPath ≠ []) (ops : List Op) : Inv (run env ops) fun d => latest (since env ops d) := by
  induction ops using List.reverseRecOn with
  | nil => exact ⟨List.nodup_nil, fun _ => rfl, .inl ⟨rfl, rfl⟩⟩
  | append_singleton ops op ih =>
    rw [run_concat]
    exact ih.apply hpath op

structure Loadable (env : Env κ) (e : NodeEndpoint) : Prop where
  valid : e.Validate env.unicode = .ok e
  readable : e.Readable
  client : ∃ c, env.NewClientE (ClientPool.inherit env e.toClientConfig) = .ok c

theorem Loadable.accepted (h : Loadable env e) : accepted env e = some e := by
  obtain ⟨c, hc⟩ := h.client
  unfold Kuscia.accepted
  rw [h.valid]
  dsimp only
  rw [hc]

theorem validate_persist (u : CaseTables) (e : NodeEndpoint) (b : Bool) :
    ({ e with Persist := b } : NodeEndpoint).Validate u = (e.Validate u).map fun x => { x with Persist := b } := by
  have hlocated : ({ e with Persist := b } : NodeEndpoint).located = { e.located with Persist := b } := by
    unfold located
    dsimp only
    cases splitHost e.Host <;> rfl
  unfold Validate
  rw [hlocated]
  dsimp only
  split_ifs <;> rfl

theorem Loadable.persist (h : Loadable env e) (b : Bool) : Loadable env { e with Persist := b } where
  valid := by rw [validate_persist, h.valid]; rfl
  readable := h.readable
  client := h.client

theorem validString_before {s t : Bytes} (h : Utf8.validString (s ++ 58 :: t) = true) : Utf8.validString s = true := by
  generalize hx : s ++ 58 :: t = x at h
  induction x using Utf8.rune_induction generalizing s with
  | nil => exact absurd (congrArg List.length hx) (by simp)
  | bad a r hd hge ih =>
    rw [Utf8.validString, Utf8.runes_bad hd, List.all_cons] at h
    cases h
  | good c r hc ih =>
    rw [Json.validString_encodeRune_append] at h
    rcases List.append_eq_append_iff.1 hx with ⟨u, hu, hr⟩ | ⟨u, hu, hr⟩
    · cases u with
      | nil =>
        rw [List.append_nil] at hu
        rw [← hu, ← List.append_nil (Utf8.encodeRune c), Json.validString_encodeRune_append]
        rfl
      | cons b u =>
        -- the colon is a byte of the rune, which is then the colon itself
        obtain ⟨rfl, -⟩ := List.cons.inj hr
        by_cases hlt : c < 0x80
        · rw [Utf8.encodeRune, if_pos hlt] at hu
          cases s with
          | nil => rfl
          | cons a s => exact absurd (List.cons.inj hu).2 (by simp)
        · have := Json.high_of_mem_encodeRune (by omega) hc (b := 58) (hu ▸ List.mem_append_right _ List.mem_cons_self)
          exact absurd this (by decide)
    · rw [hu, Json.validString_encodeRune_append]
      exact ih hr.symm h

theorem loadable_of_accepted (h : Kuscia.accepted env ep = some e) (hplain : PlainHost ep.Host) (hread : ep.Readable) : Loadable env e := by
  unfold Kuscia.accepted at h
  cases hv : ep.Validate env.unicode with
  | error m => rw [hv] at h; cases h
  | ok x =>
    rw [hv] at h
    dsimp only at h
    cases hc : env.NewClientE (ClientPool.inherit env x.toClientConfig) with
    | error m => rw [hc] at h; cases h
    | ok c =>
      rw [hc] at h
      obtain rfl := Option.some.inj h
      refine ⟨(validate_again_iff hv).2 hplain, ?_, c, hc⟩
      obtain ⟨protocol, rfl, -, -, -, hproto⟩ := validate_ok hv
      have hvalid : Utf8.validString protocol = true := by
        rcases hproto with rfl | ⟨rfl | rfl, -⟩ <;> decide
      simp only [Readable, List.forall_mem_cons] at hread ⊢
      obtain ⟨h1, h2, h3, -, h5, h6, h7, h8, h9, h10, -⟩ := hread
      unfold located
      cases hs : splitHost ep.Host with
      | none => exact ⟨h1, h2, h3, hvalid, h5, h6, h7, h8, h9, h10, List.forall_mem_nil _⟩
      | some q =>
        obtain ⟨t, ht⟩ := splitHost_append (h := q.1) hs
        exact ⟨h1, h2, validString_before (ht ▸ h3), hvalid, h5, h6, h7, h8, h9, h10, List.forall_mem_nil _⟩

theorem mem_since {ops : List Op} {d : Bytes} (h : e ∈ since env ops d) : ∃ ep, .register ep ∈ ops ∧ Kuscia.accepted env ep = some e := by
  induction ops using List.reverseRecOn with
  | nil => cases h
  | append_singleton ops op ih =>
    have hsince : since env (ops ++ [op]) d = extend env d (since env ops d) op := List.foldl_concat ..
    rw [hsince] at h
    have hbefore : e ∈ since env ops d → ∃ ep, .register ep ∈ ops ++ [op] ∧ Kuscia.accepted env ep = some e := by
      intro h
      obtain ⟨ep, hep, hacc⟩ := ih h
      exact ⟨ep, List.mem_append_left _ hep, hacc⟩
    cases op with
    | register ep =>
      rcases List.mem_append.1 h with h | h
      · exact hbefore h
      · obtain ⟨hacc, -⟩ := Option.filter_eq_some_iff.1 (Option.mem_toList.1 h)
        exact ⟨ep, List.mem_append_right _ (List.mem_singleton_self _), hacc⟩
    | unregister d' =>
      have h : e ∈ if d' = d then [] else since env ops d := h
      split_ifs at h
      · cases h
      · exact hbefore h

theorem registerAll_loadable {l : List NodeEndpoint} (hl : ∀ e ∈ l, Loadable env e ∧ e.Persist = true)
    (hnd : ((p.endpoints ++ l).map (·.DomainID)).Nodup) :
    (ClientPool.registerAll env p (l.map fun e => { e with Persist := false })).1 = [] ∧
      (ClientPool.registerAll env p (l.map fun e => { e with Persist := false })).2.endpoints = p.endpoints ++ l := by
  induction l generalizing p with
  | nil => exact ⟨rfl, (List.append_nil _).symm⟩
  | cons e l ih =>
    obtain ⟨hload, hpersist⟩ := hl e List.mem_cons_self
    have hsame : ({ ({ e with Persist := false } : NodeEndpoint) with Persist := true } : NodeEndpoint) = e := by
      rw [← hpersist]
    have hfresh : ∀ x ∈ p.endpoints, x.DomainID ≠ e.DomainID := by
      intro x hx hd
      rw [List.map_append, List.nodup_append] at hnd
      exact hnd.2.2 _ (List.mem_map_of_mem hx) _ (List.mem_map_of_mem List.mem_cons_self) hd
    have hput : put p.endpoints e = p.endpoints ++ [e] := by
      rw [put, delete, List.filter_eq_self.2 fun x hx => decide_eq_true (hfresh x hx)]
    rw [List.map_cons, ClientPool.registerAll, hsame]
    rcases register_cases env p e with ⟨hacc, -⟩ | ⟨x, c, hacc, hreg⟩
    · rw [hload.accepted] at hacc
      cases hacc
    · obtain rfl := Option.some.inj (hload.accepted.symm.trans hacc)
      have hx : ({ e with Persist := e.Persist || (lookup p.endpoints e.DomainID).any fun o : NodeEndpoint => o.Persist } : NodeEndpoint) = e := by
        rw [hpersist, Bool.true_or, ← hpersist]
      have hok : (p.Register env e).1 = .ok () := by rw [hreg]
      have heps : (p.Register env e).2.endpoints = p.endpoints ++ [e] := by
        rw [hreg, hx]
        dsimp only
        rw [if_pos hpersist, ClientPool.saveLocked]
        split_ifs <;> exact hput
      obtain ⟨herr, hend⟩ := ih (p := (p.Register env e).2) (fun y hy => hl y (List.mem_cons_of_mem _ hy))
        (by rw [heps, List.append_assoc]; exact hnd)
      rw [hok]
      exact ⟨herr, by rw [hend, heps, List.append_assoc]; rfl⟩

/-- Whatever is registered and unregistered, the file holds the endpoints registered as persistent and not unregistered since. If every registered
host is plain and every text valid, a fresh pool loads the same endpoints from it, and validating one of them again changes nothing. -/
theorem pool_restored (env : Env κ) (hpath : env.persistPath ≠ []) (ops : List Op) :
    Holds (run env ops).file (held env ops) ∧
    ((∀ ep, .register ep ∈ ops → PlainHost ep.Host ∧ ep.Readable) →
      (let r := ClientPool.Load env (NewClientPool (run env ops).file : ClientPool κ);
        r.1 = [] ∧ ∀ d, lookup r.2.endpoints d = held env ops d) ∧
      ∀ ep e, .register ep ∈ ops → ep.Validate env.unicode = .ok e → e.Validate env.unicode = .ok e) := by
  have hinv : Inv (run env ops) fun d => latest (since env ops d) := inv_run hpath ops
  have hheld : ∀ e, e ∈ saved (run env ops).endpoints ↔ held env ops e.DomainID = some e := by
    intro e
    rw [mem_saved, held, ← hinv.entries, Option.filter_eq_some_iff, lookup_eq_some_iff hinv.nodup]
    simp
  have hnd := nodup_saved hinv.nodup
  refine ⟨⟨saved (run env ops).endpoints, hinv.file, hnd, hheld⟩, fun hops => ⟨?_, fun ep e hep hv => (validate_again_iff hv).2 (hops ep hep).1⟩⟩
  have hload : ∀ e ∈ saved (run env ops).endpoints, Loadable env e ∧ e.Persist = true := by
    intro e he
    obtain ⟨hmem, hpersist⟩ := mem_saved.1 he
    have hlatest : latest (since env ops e.DomainID) = some e := (hinv.entries _).symm.trans ((lookup_eq_some_iff hinv.nodup).2 ⟨hmem, rfl⟩)
    obtain ⟨x, hx, hxe⟩ := Option.map_eq_some_iff.1 hlatest
    obtain ⟨ep, hep, hacc⟩ := mem_since (List.mem_of_getLast? hx)
    obtain ⟨hplain, hread⟩ := hops ep hep
    refine ⟨?_, hpersist⟩
    rw [← hxe]
    exact (loadable_of_accepted hacc hplain hread).persist _
  have hlookup : ∀ d, lookup (saved (run env ops).endpoints) d = held env ops d := by
    intro d
    refine Option.ext fun e => ?_
    rw [lookup_eq_some_iff hnd, hheld]
    constructor
    · rintro ⟨h, rfl⟩
      exact h
    · intro h
      have hd : e.DomainID = d := by
        rw [held, ← hinv.entries, Option.filter_eq_some_iff, lookup_eq_some_iff hinv.nodup] at h
        exact h.1.2
      rw [hd]
      exact ⟨h, rfl⟩
  dsimp only
  unfold ClientPool.Load
  rw [if_neg hpath]
  rcases hinv.file with ⟨hfile, hsaved⟩ | hfile
  · rw [hfile]
    rw [hsaved] at hlookup
    exact ⟨rfl, hlookup⟩
  · rw [hfile]
    dsimp only [NewClientPool]
    rw [unmarshal_marshal fun e he => (hload e he).1.readable]
    dsimp only
    obtain ⟨herr, hend⟩ := registerAll_loadable (p := (NewClientPool (some (marshal (saved (run env ops).endpoints))) : ClientPool κ)) hload hnd
    exact ⟨herr, fun d => (congrArg (lookup · d) hend).trans (hlookup d)⟩

def openEnv : Env Unit := ⟨.asciiCase, str "pool.json", none, fun _ => .ok ()⟩

theorem pool_restored_one :
    let ops : List Op := [.register { DomainID := str "n", Host := str "h:80", Persist := true }]
    lookup (ClientPool.Load openEnv (NewClientPool (run openEnv ops).file : ClientPool Unit)).2.endpoints (str "n") = held openEnv ops (str "n") := by
  intro ops
  refine (((pool_restored openEnv (by decide) ops).2 fun ep hep => ?_).1.2 (str "n"))
  obtain rfl := Op.register.inj (List.mem_singleton.1 hep)
  refine ⟨fun h port hs => ?_, by decide⟩
  have hsplit : splitHost (str "h:80") = some (str "h", 80) := by decide
  obtain ⟨rfl, -⟩ := Prod.mk.inj (Option.some.inj (hsplit.symm.trans hs))
  decide

/-- A host with two ports: the endpoint that is held carries one of them, and the one that is loaded has lost both. -/
theorem second_port_lost :
    let ops : List Op := [.register { DomainID := str "n", Host := str "a:1:2", Persist := true }]
    (held openEnv ops (str "n")).map (fun e => (e.Host, e.Port)) = some (str "a:1", 2) ∧
      (lookup (ClientPool.Load openEnv (NewClientPool (run openEnv ops).file : ClientPool Unit)).2.endpoints (str "n")).map (fun e => (e.Host, e.Port)) =
        some (str "a", 1) := by
  decide +kernel

end

end Kuscia
