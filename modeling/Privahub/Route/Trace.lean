import Privahub.Route.Consistent

/-!
# What a creation of routes leaves in Kuscia

`createKusciaRoute` asks for the route, deletes the one that is there and creates its own; `CreateRoute` does so for both directions and
takes the first one away again when the second fails. `mem_createKusciaRoute` and `mem_createInKuscia` say which domain routes there are
afterwards, however each call to Kuscia goes.
-/

namespace Route

def Tries.creates (t : Tries) (held : Bool) : Bool :=
  if held then decide (t.query = .done ∧ t.delete = .done) else decide (t.query = .done ∨ t.query = .refused)

def Tries.succeeds (t : Tries) (held : Bool) : Bool := t.creates held && decide (t.create = .done)

def Tries.adds (t : Tries) (held : Bool) : Bool := t.creates held && t.create.takesEffect

def Tries.removes (t : Tries) (held : Bool) : Bool := held && decide (t.query = .done) && t.delete.takesEffect

/-- The domain routes after an attempt to create `new`. -/
def After (ds : List DomainRoute) (t : Tries) (new d : DomainRoute) : Prop :=
  if d.key = new.key then
    if t.adds (Kuscia.has ds new.kuscia new.source new.destination) then d = new
    else d ∈ ds ∧ t.removes (Kuscia.has ds new.kuscia new.source new.destination) = false
  else d ∈ ds

def Tries.Same (t : Tries) (ds : List DomainRoute) (new : DomainRoute) : Prop :=
  if t.adds (Kuscia.has ds new.kuscia new.source new.destination) then new ∈ ds ∧ ∀ d ∈ ds, d.key = new.key → d = new
  else t.removes (Kuscia.has ds new.kuscia new.source new.destination) = false

variable {s : Service} {ds : List DomainRoute} {k : Nat} {src dst addr channel : Bytes} {t : Tries} {e : Endpoint} {d new : DomainRoute} {a : Answer}

theorem has_eq_false : Kuscia.has ds k src dst = false ↔ ∀ d ∈ ds, d.key ≠ (k, src, dst) := by simp [Kuscia.has]

theorem has_filter : Kuscia.has (ds.filter fun d => !decide (d.key = (k, src, dst))) k src dst = false := by
  rw [has_eq_false]
  intro d hd hkey
  have hne := (List.mem_filter.1 hd).2
  simp [hkey] at hne

theorem mem_deleteDomainRoute : d ∈ (Kuscia.DeleteDomainRoute ds k src dst a).2 ↔ d ∈ ds ∧ (a.takesEffect → d.key ≠ (k, src, dst)) := by
  unfold Kuscia.DeleteDomainRoute
  cases a.takesEffect <;> simp

theorem mem_createDomainRoute : d ∈ (Kuscia.CreateDomainRoute ds k src dst e a).2 ↔
    d ∈ ds ∨ (Kuscia.has ds k src dst = false ∧ a.takesEffect ∧ d = ⟨k, src, dst, e⟩) := by
  unfold Kuscia.CreateDomainRoute
  cases Kuscia.has ds k src dst <;> cases a.takesEffect <;> simp

theorem mem_added {b : Bool} (h : ∀ d ∈ ds, d.key ≠ new.key) :
    d ∈ ds ∨ (b = true ∧ d = new) ↔ if d.key = new.key then if b then d = new else d ∈ ds else d ∈ ds := by
  by_cases hkey : d.key = new.key
  · have hd : d ∉ ds := fun hd => h d hd hkey
    cases b <;> simp [hkey, hd]
  · have hne : d ≠ new := fun heq => hkey (congrArg DomainRoute.key heq)
    simp [hkey, hne]

theorem mem_createKusciaRoute (hk : s.kc channel = some k) (he : s.endpoint addr = some e) :
    ((s.createKusciaRoute t src dst addr channel ds).1 = .ok () ↔ t.succeeds (Kuscia.has ds k src dst) = true) ∧
      ∀ d, d ∈ (s.createKusciaRoute t src dst addr channel ds).2 ↔ After ds t ⟨k, src, dst, e⟩ d := by
  obtain ⟨query, delete, create⟩ := t
  have hcreate : ∀ ds', Kuscia.has ds' k src dst = false → (Kuscia.CreateDomainRoute ds' k src dst e create).1 = decide (create = .done) :=
    fun ds' h => by simp [Kuscia.CreateDomainRoute, h]
  simp only [Service.createKusciaRoute, hk, he]
  cases hheld : Kuscia.has ds k src dst with
  | false =>
    have hnone : ∀ d ∈ ds, d.key ≠ (⟨k, src, dst, e⟩ : DomainRoute).key := has_eq_false.1 hheld
    have hadded := fun d => mem_added (d := d) (b := create.takesEffect) hnone
    cases query <;>
      simp [Kuscia.DomainRouteExists, hheld, hcreate, mem_createDomainRoute, After, Tries.succeeds, Tries.creates, Tries.adds, Tries.removes]
    · exact hadded
    · exact hadded
  | true =>
    have hthere : Kuscia.CreateDomainRoute ds k src dst e create = (false, ds) := by simp [Kuscia.CreateDomainRoute, hheld]
    cases query with
    | refused | failed | lost =>
      simp [Kuscia.DomainRouteExists, hheld, hthere, After, Tries.succeeds, Tries.creates, Tries.adds, Tries.removes]
    | done =>
      cases delete with
      | refused | failed =>
        simp [Kuscia.DomainRouteExists, Kuscia.DeleteDomainRoute, hheld, After, Answer.takesEffect, Tries.succeeds, Tries.creates, Tries.adds,
          Tries.removes]
      | lost =>
        simp [Kuscia.DomainRouteExists, Kuscia.DeleteDomainRoute, hheld, After, Answer.takesEffect, Tries.succeeds, Tries.creates, Tries.adds,
          Tries.removes]
        exact fun d => and_comm
      | done =>
        have hnone : ∀ d ∈ ds.filter (fun d => !decide (d.key = (k, src, dst))), d.key ≠ (⟨k, src, dst, e⟩ : DomainRoute).key :=
          has_eq_false.1 has_filter
        have hdel : Kuscia.DeleteDomainRoute ds k src dst .done = (true, ds.filter fun d => !decide (d.key = (k, src, dst))) := rfl
        refine ⟨?_, fun d => ?_⟩
        · simp [Kuscia.DomainRouteExists, Kuscia.DeleteDomainRoute, hheld, Answer.takesEffect, Tries.succeeds, Tries.creates, hcreate, has_filter]
        · simp only [Kuscia.DomainRouteExists, hheld, if_true, hdel, Bool.not_true]
          rw [if_neg Bool.false_ne_true, mem_createDomainRoute, has_filter, eq_self, true_and, mem_added hnone]
          have hkeys : (⟨k, src, dst, e⟩ : DomainRoute).key = (k, src, dst) := rfl
          simp only [After, hheld, Tries.adds, Tries.creates, Tries.removes, List.mem_filter, hkeys]
          by_cases hkey : d.key = (k, src, dst) <;> cases create.takesEffect <;> simp [hkey, Answer.takesEffect]

theorem after_of_ne (h : d.key ≠ new.key) : After ds t new d ↔ d ∈ ds := by rw [After, if_neg h]

theorem after_same_iff : (∀ d, d.key = new.key → (After ds t new d ↔ d ∈ ds)) ↔ t.Same ds new := by
  simp only [After, Tries.Same]
  split_ifs with hadds
  · constructor
    · intro h
      refine ⟨?_, fun d hd hkey => ?_⟩
      · simpa using h new rfl
      · simpa [hkey, hd] using h d hkey
    · rintro ⟨hnew, honly⟩ d hkey
      rw [if_pos hkey]
      exact ⟨fun h => h ▸ hnew, fun hd => honly d hd hkey⟩
  · cases hr : t.removes (Kuscia.has ds new.kuscia new.source new.destination) with
    | false => exact iff_of_true (fun d hkey => by simp [hkey]) rfl
    | true =>
      -- what is removed was there
      refine iff_of_false (fun h => ?_) (fun h => nomatch h)
      have hheld : Kuscia.has ds new.kuscia new.source new.destination = true := by
        simp only [Tries.removes, Bool.and_eq_true] at hr
        exact hr.1.1
      obtain ⟨d, hd, hkey⟩ := has_iff.1 hheld
      simpa [hd, show d.key = new.key from hkey] using h d hkey

def Service.attempt (s : Service) (ds : List DomainRoute) (k : Nat) (t : Tries) (src dst addr : Bytes) : Bool :=
  (s.endpoint addr).isSome && t.succeeds (Kuscia.has ds k src dst)

theorem createKusciaRoute_none (hk : s.kc channel = some k) (he : s.endpoint addr = none) :
    s.createKusciaRoute t src dst addr channel ds = (.error (.NodeRouteCreateError (str "address format error")), ds) := by
  simp only [Service.createKusciaRoute, hk, he]

theorem createKusciaRoute_ok (hk : s.kc channel = some k) :
    (s.createKusciaRoute t src dst addr channel ds).1 = .ok () ↔ s.attempt ds k t src dst addr = true := by
  cases he : s.endpoint addr with
  | none => simp [createKusciaRoute_none hk he, Service.attempt, he]
  | some e => simp [(mem_createKusciaRoute hk he).1, Service.attempt, he]

def AfterAttempt (s : Service) (ds : List DomainRoute) (k : Nat) (t : Tries) (src dst addr : Bytes) (d : DomainRoute) : Prop :=
  match s.endpoint addr with
  | none => d ∈ ds
  | some e => After ds t ⟨k, src, dst, e⟩ d

theorem mem_attempt (hk : s.kc channel = some k) : d ∈ (s.createKusciaRoute t src dst addr channel ds).2 ↔ AfterAttempt s ds k t src dst addr d := by
  cases he : s.endpoint addr with
  | none => simp [createKusciaRoute_none hk he, AfterAttempt, he]
  | some e => simp [(mem_createKusciaRoute hk he).2, AfterAttempt, he]

theorem afterAttempt_of_ne (h : d.key ≠ (k, src, dst)) : AfterAttempt s ds k t src dst addr d ↔ d ∈ ds := by
  unfold AfterAttempt
  split
  · exact Iff.rfl
  · exact after_of_ne h

theorem attempt_congr {ds' : List DomainRoute} (h : ∀ d, d.key = (k, src, dst) → (d ∈ ds' ↔ d ∈ ds)) :
    Kuscia.has ds' k src dst = Kuscia.has ds k src dst := by
  rw [Bool.eq_iff_iff, has_iff, has_iff]
  constructor
  · rintro ⟨d, hd, hkey⟩
    exact ⟨d, (h d hkey).1 hd, hkey⟩
  · rintro ⟨d, hd, hkey⟩
    exact ⟨d, (h d hkey).2 hd, hkey⟩

theorem afterAttempt_congr {ds' : List DomainRoute} (h : ∀ d, d.key = (k, src, dst) → (d ∈ ds' ↔ d ∈ ds)) (hkey : d.key = (k, src, dst)) :
    AfterAttempt s ds' k t src dst addr d ↔ AfterAttempt s ds k t src dst addr d := by
  unfold AfterAttempt
  split
  · exact h d hkey
  · simp only [After, attempt_congr h, h d hkey]

theorem exists_createRows {db : Db} {x : Reads} {req : CreateRouteRequest} (hne : req.srcNodeId ≠ req.dstNodeId)
    (h : db.findByPair req.srcNodeId req.dstNodeId = none) : ∃ db', Service.createRows x req (Service.createsReverse db req) db = some db' := by
  have hcreate : ∀ {db : Db} {routeId a b p q : Bytes}, ¬ db.Stored (a, b) → ∃ db', db.create routeId a b p q = some db' := by
    intro db routeId a b p q hno
    rw [stored_iff] at hno
    exact ⟨_, by rw [Db.create, dif_neg hno]⟩
  obtain ⟨mid, hmid⟩ : ∃ mid, db.create (RouteIDOf req.srcNodeId req.dstNodeId) req.srcNodeId req.dstNodeId
      (Service.addressOf x req.srcNetAddress req.srcNodeId) (Service.addressOf x req.dstNetAddress req.dstNodeId) = some mid :=
    hcreate (stored_of_findByPair h)
  simp only [Service.createRows, hmid, Option.bind_some]
  cases hcr : Service.createsReverse db req with
  | false => exact ⟨mid, rfl⟩
  | true =>
    simp only [Service.createsReverse, Bool.and_eq_true, Option.isNone_iff_eq_none] at hcr
    refine hcreate fun hst => ?_
    rcases (stored_create hmid _).1 hst with hst | heq
    · exact stored_of_findByPair hcr.2 hst
    · exact hne (congrArg (·.2) heq)

section

variable {x : Reads} {req : CreateRouteRequest} {cr : Bool} {reverse forward : Tries} {rollback : Answer}

namespace Service

def srcAddr (x : Reads) (req : CreateRouteRequest) : Bytes := addressOf x req.srcNetAddress req.srcNodeId

def dstAddr (x : Reads) (req : CreateRouteRequest) : Bytes := addressOf x req.dstNetAddress req.dstNodeId

def back (s : Service) (x : Reads) (req : CreateRouteRequest) (k : Nat) (ds : List DomainRoute) (t : Tries) : Bool :=
  s.attempt ds k t req.dstNodeId req.srcNodeId (srcAddr x req)

def there (s : Service) (x : Reads) (req : CreateRouteRequest) (k : Nat) (ds : List DomainRoute) (t : Tries) : Bool :=
  s.attempt ds k t req.srcNodeId req.dstNodeId (dstAddr x req)

def Quiet (s : Service) (x : Reads) (req : CreateRouteRequest) (cr : Bool) (reverse forward : Tries) (rollback : Answer) (k : Nat)
    (ds : List DomainRoute) : Prop :=
  (cr → ∀ e, s.endpoint (srcAddr x req) = some e →
    if s.back x req k ds reverse && !s.there x req k ds forward && rollback.takesEffect
    then Kuscia.has ds k req.dstNodeId req.srcNodeId = false else reverse.Same ds ⟨k, req.dstNodeId, req.srcNodeId, e⟩) ∧
  ((cr → s.back x req k ds reverse) → ∀ e, s.endpoint (dstAddr x req) = some e → forward.Same ds ⟨k, req.srcNodeId, req.dstNodeId, e⟩)

end Service

theorem createInKuscia_oneWay : s.createInKuscia x req false reverse forward rollback ds =
    s.createKusciaRoute forward req.srcNodeId req.dstNodeId (Service.dstAddr x req) (if s.autonomy then req.srcNodeId else []) ds := by
  simp only [Service.createInKuscia, Service.dstAddr]
  split
  next e he => cases he
  next =>
    split
    · rfl
    next e he => exact Prod.ext he.symm rfl

theorem createInKuscia_bothWays (hk : s.kc (if s.autonomy then req.srcNodeId else []) = some k) :
    s.createInKuscia x req true reverse forward rollback ds =
      match s.createKusciaRoute reverse req.dstNodeId req.srcNodeId (Service.srcAddr x req) (if s.autonomy then req.srcNodeId else []) ds with
      | (.error e, ds₁) => (.error e, ds₁)
      | (.ok (), ds₁) =>
        match s.createKusciaRoute forward req.srcNodeId req.dstNodeId (Service.dstAddr x req) (if s.autonomy then req.srcNodeId else []) ds₁ with
        | (.ok (), ds₂) => (.ok (), ds₂)
        | (.error e, ds₂) => (.error e, (Kuscia.DeleteDomainRoute ds₂ k req.dstNodeId req.srcNodeId rollback).2) := by
  simp only [Service.createInKuscia, Service.srcAddr, Service.dstAddr, hk, if_true]
  generalize s.createKusciaRoute reverse _ _ _ _ ds = r₁
  obtain ⟨o₁, ds₁⟩ := r₁
  cases o₁ with
  | error e => rfl
  | ok u =>
    dsimp only
    generalize s.createKusciaRoute forward _ _ _ _ ds₁ = r₂
    obtain ⟨o₂, ds₂⟩ := r₂
    cases o₂ <;> rfl

theorem createInKuscia_spec (hk : s.kc (if s.autonomy then req.srcNodeId else []) = some k) (hne : req.srcNodeId ≠ req.dstNodeId) :
    ((s.createInKuscia x req cr reverse forward rollback ds).1 = .ok () ↔
      (cr → s.back x req k ds reverse = true) ∧ s.there x req k ds forward = true) ∧
    ∀ d, d ∈ (s.createInKuscia x req cr reverse forward rollback ds).2 ↔
      if d.key = (k, req.srcNodeId, req.dstNodeId) then
        if !cr || s.back x req k ds reverse then AfterAttempt s ds k forward req.srcNodeId req.dstNodeId (Service.dstAddr x req) d else d ∈ ds
      else if d.key = (k, req.dstNodeId, req.srcNodeId) ∧ cr = true then
        if s.back x req k ds reverse && !s.there x req k ds forward && rollback.takesEffect then False
        else AfterAttempt s ds k reverse req.dstNodeId req.srcNodeId (Service.srcAddr x req) d
      else d ∈ ds := by
  have hkeys : ((k, req.srcNodeId, req.dstNodeId) : Nat × Bytes × Bytes) ≠ (k, req.dstNodeId, req.srcNodeId) := by
    intro h
    exact hne (congrArg (·.2.1) h)
  have hother : ∀ {ds' : List DomainRoute} {t : Tries} {a b addr : Bytes} {d : DomainRoute}, d.key ≠ (k, a, b) →
      (AfterAttempt s ds' k t a b addr d ↔ d ∈ ds') := fun h => afterAttempt_of_ne h
  cases cr with
  | false =>
    rw [createInKuscia_oneWay]
    refine ⟨?_, fun d => ?_⟩
    · rw [createKusciaRoute_ok hk]
      exact ⟨fun h => ⟨(fun h => nomatch h), h⟩, fun h => h.2⟩
    · rw [mem_attempt hk]
      by_cases hkey : d.key = (k, req.srcNodeId, req.dstNodeId)
      · simp [hkey]
      · simp [hkey, hother hkey]
  | true =>
    have hback := @createKusciaRoute_ok s ds k req.dstNodeId req.srcNodeId (Service.srcAddr x req) _ reverse hk
    have hmem := fun d => @mem_attempt s ds k req.dstNodeId req.srcNodeId (Service.srcAddr x req) _ reverse d hk
    rw [createInKuscia_bothWays hk]
    revert hback hmem
    generalize s.createKusciaRoute reverse req.dstNodeId req.srcNodeId (Service.srcAddr x req) (if s.autonomy then req.srcNodeId else []) ds = r₁
    obtain ⟨o₁, ds₁⟩ := r₁
    intro hback hmem
    have hforward : ∀ d, d.key = (k, req.srcNodeId, req.dstNodeId) → (d ∈ ds₁ ↔ d ∈ ds) := by
      intro d hkey
      rw [hmem d, hother (hkey ▸ hkeys)]
    have hreverse : ∀ d, d.key = (k, req.srcNodeId, req.dstNodeId) → (AfterAttempt s ds k reverse req.dstNodeId req.srcNodeId (Service.srcAddr x req) d
        ↔ d ∈ ds) := fun d hkey => hother (hkey ▸ hkeys)
    cases o₁ with
    | error e =>
      have hno : s.back x req k ds reverse = false := by
        rw [← Bool.not_eq_true]
        exact fun h => nomatch hback.2 h
      refine ⟨⟨(fun h => nomatch h), fun h => ?_⟩, fun d => ?_⟩
      · rw [hno] at h
        cases h.1 rfl
      · rw [hno]
        by_cases hf : d.key = (k, req.srcNodeId, req.dstNodeId)
        · simp [hf, hmem, hreverse d hf]
        · by_cases hr : d.key = (k, req.dstNodeId, req.srcNodeId)
          · simp [hr, hmem, hkeys.symm]
          · simp [hf, hr, hmem, hother hr]
    | ok u =>
      have hyes : s.back x req k ds reverse = true := hback.1 rfl
      have hthere : (s.createKusciaRoute forward req.srcNodeId req.dstNodeId (Service.dstAddr x req) (if s.autonomy then req.srcNodeId else [])
          ds₁).1 = .ok () ↔ s.there x req k ds forward = true := by
        rw [createKusciaRoute_ok hk, Service.attempt, attempt_congr hforward]
        rfl
      have hmem₂ := fun d => @mem_attempt s ds₁ k req.srcNodeId req.dstNodeId (Service.dstAddr x req) _ forward d hk
      revert hthere hmem₂
      dsimp only
      generalize s.createKusciaRoute forward _ _ _ _ ds₁ = r₂
      obtain ⟨o₂, ds₂⟩ := r₂
      intro hthere hmem₂
      rw [hyes]
      cases o₂ with
      | ok u =>
        have hgo : s.there x req k ds forward = true := hthere.1 rfl
        refine ⟨iff_of_true rfl ⟨fun _ => rfl, hgo⟩, fun d => ?_⟩
        rw [hmem₂ d]
        by_cases hf : d.key = (k, req.srcNodeId, req.dstNodeId)
        · simp [hf, afterAttempt_congr hforward hf]
        · by_cases hr : d.key = (k, req.dstNodeId, req.srcNodeId)
          · simp [hr, hkeys.symm, hgo, hother hf, hmem]
          · simp [hf, hr, hother hf, hmem, hother hr]
      | error e =>
        have hgo : s.there x req k ds forward = false := by
          rw [← Bool.not_eq_true]
          exact fun h => nomatch hthere.2 h
        refine ⟨⟨(fun h => nomatch h), fun h => ?_⟩, fun d => ?_⟩
        · rw [hgo] at h
          cases h.2
        · dsimp only
          rw [mem_deleteDomainRoute, hmem₂ d]
          by_cases hf : d.key = (k, req.srcNodeId, req.dstNodeId)
          · simp [hf, afterAttempt_congr hforward hf, hkeys]
          · by_cases hr : d.key = (k, req.dstNodeId, req.srcNodeId)
            · cases hro : rollback.takesEffect <;> simp [hr, hkeys.symm, hgo, hother hf, hmem]
            · simp [hf, hr, hother hf, hmem, hother hr]

theorem quiet_iff (hk : s.kc (if s.autonomy then req.srcNodeId else []) = some k) (hne : req.srcNodeId ≠ req.dstNodeId) :
    (∀ d, d ∈ (s.createInKuscia x req cr reverse forward rollback ds).2 ↔ d ∈ ds) ↔ s.Quiet x req cr reverse forward rollback k ds := by
  have hspec := (@createInKuscia_spec s ds k x req cr reverse forward rollback hk hne).2
  have hkeys : ((k, req.dstNodeId, req.srcNodeId) : Nat × Bytes × Bytes) ≠ (k, req.srcNodeId, req.dstNodeId) := by
    intro h
    exact hne (congrArg (·.2.2) h)
  simp only [hspec]
  constructor
  · intro h
    refine ⟨fun hcr e he => ?_, fun hback e he => ?_⟩
    · split_ifs with hroll
      · rw [has_eq_false]
        intro d hd hkey
        have hd' := h d
        rw [if_neg (hkey ▸ hkeys), if_pos ⟨hkey, hcr⟩, if_pos hroll] at hd'
        exact hd'.2 hd
      · rw [← after_same_iff]
        intro d hkey
        have hkey' : d.key = (k, req.dstNodeId, req.srcNodeId) := hkey
        have hd' := h d
        rw [if_neg (hkey' ▸ hkeys), if_pos ⟨hkey', hcr⟩, if_neg hroll, AfterAttempt, he] at hd'
        exact hd'
    · rw [← after_same_iff]
      intro d hkey
      have hgo : (!cr || s.back x req k ds reverse) = true := by
        cases cr with
        | false => rfl
        | true => exact hback rfl
      have hkey' : d.key = (k, req.srcNodeId, req.dstNodeId) := hkey
      have hd' := h d
      rw [if_pos hkey', if_pos hgo, AfterAttempt, he] at hd'
      exact hd'
  · rintro ⟨hreverse, hforward⟩ d
    split_ifs with hf hgo hr hroll
    · have hback : cr → s.back x req k ds reverse := by
        intro hcr
        simpa [hcr] using hgo
      unfold AfterAttempt
      split
      · exact Iff.rfl
      next e he => exact after_same_iff.2 (hforward hback e he) d hf
    · exact Iff.rfl
    · -- there was none before
      refine iff_of_false id fun hd => ?_
      have hsome : (s.endpoint (Service.srcAddr x req)).isSome = true := by
        simp only [Service.back, Service.attempt, Bool.and_eq_true] at hroll
        exact hroll.1.1.1
      obtain ⟨e, he⟩ := Option.isSome_iff_exists.1 hsome
      have hnone := hreverse hr.2 e he
      rw [if_pos hroll] at hnone
      exact has_eq_false.1 hnone d hd hr.1
    · unfold AfterAttempt
      split
      · exact Iff.rfl
      next e he =>
        have hsame := hreverse hr.2 e he
        rw [if_neg hroll] at hsame
        exact after_same_iff.2 hsame d hr.1
    · exact Iff.rfl

end

section

variable {st : State} {x : Reads} {req : CreateRouteRequest} {reverse forward : Tries} {rollback : Answer}

theorem createRoute_refused (h : ¬ ((req.srcNodeId ≠ [] ∧ req.dstNodeId ≠ [] ∧ req.srcNodeId ≠ req.dstNodeId) ∧
    st.db.findByPair req.srcNodeId req.dstNodeId = none)) : ∃ e, s.CreateRoute st x req reverse forward rollback = (.error e, st) := by
  unfold Service.CreateRoute
  split_ifs with h₁ h₂ h₃
  · exact ⟨_, rfl⟩
  · exact ⟨_, rfl⟩
  · exact ⟨_, rfl⟩
  all_goals exact absurd ⟨⟨fun h => h₁ (.inl h), fun h => h₁ (.inr h), h₂⟩, by simpa using h₃⟩ h

theorem createRoute_stored (h₁ : req.srcNodeId ≠ [] ∧ req.dstNodeId ≠ [] ∧ req.srcNodeId ≠ req.dstNodeId)
    (h₂ : st.db.findByPair req.srcNodeId req.dstNodeId = none) : ∃ db, s.CreateRoute st x req reverse forward rollback =
      if s.kusciaClient.isNone then (.ok (), ⟨db, st.domainRoutes⟩)
      else Service.transaction st db
        (s.createInKuscia x req (Service.createsReverse st.db req) reverse forward rollback st.domainRoutes) := by
  obtain ⟨db, hdb⟩ := exists_createRows (x := x) h₁.2.2 h₂
  refine ⟨db, ?_⟩
  unfold Service.CreateRoute
  rw [if_neg (fun h => h.elim h₁.1 h₁.2.1), if_neg h₁.2.2, if_neg (by rw [h₂]; exact Bool.false_ne_true)]
  simp only [hdb]

end

end Route
