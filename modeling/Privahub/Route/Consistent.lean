import Privahub.Lib.Run
import Privahub.Lib.Outcome
import Privahub.Route.Service

/-!
# Rows and domain routes

Each row has its counterpart in a Kuscia (`Consistent`). Of the calls that may change a Kuscia only `CreateRoute` takes
a change back, and only that of the route back: `Service.Clean` is what an operation needs for its failure to
leave everything as it was and for its success to keep the two in step.
-/

namespace Route

open Kuscia

variable {s : Service} {st st' : State} {ds : List DomainRoute} {k : Nat} {src dst addr channel : Bytes} {t : Tries}
  {a b : Answer} {key : Nat × Bytes × Bytes} {db db' : Db} {x : Reads} {op : Op}

def Held (ds : List DomainRoute) (key : Nat × Bytes × Bytes) : Prop := ∃ d ∈ ds, d.key = key

def Db.Stored (db : Db) (pair : Bytes × Bytes) : Prop := ∃ r ∈ db.routes, r.pair = pair

def Service.counterpart (s : Service) (src dst : Bytes) : Option (Nat × Bytes × Bytes) :=
  if s.autonomy then (s.kc dst).map fun k => (k, dst, src) else (s.kc []).map fun k => (k, src, dst)

def Consistent (s : Service) (st : State) : Prop :=
  ∀ src dst, st.db.Stored (src, dst) ↔ ∃ key, s.counterpart src dst = some key ∧ Held st.domainRoutes key

theorem has_iff : has ds k src dst ↔ Held ds (k, src, dst) := by
  simp [has, Held]

theorem held_append {d : DomainRoute} : Held (ds ++ [d]) key ↔ Held ds key ∨ key = d.key := by
  simp only [Held, List.mem_append, List.mem_singleton]
  constructor
  · rintro ⟨e, he | rfl, hk⟩
    · exact .inl ⟨e, he, hk⟩
    · exact .inr hk.symm
  · rintro (⟨e, he, hk⟩ | rfl)
    · exact ⟨e, .inl he, hk⟩
    · exact ⟨d, .inr rfl, rfl⟩

theorem held_filter : Held (ds.filter fun d => !decide (d.key = (k, src, dst))) key ↔ Held ds key ∧ key ≠ (k, src, dst) := by
  simp only [Held, List.mem_filter, Bool.not_eq_true', decide_eq_false_iff_not]
  constructor
  · rintro ⟨d, ⟨hd, hne⟩, rfl⟩
    exact ⟨⟨d, hd, rfl⟩, hne⟩
  · rintro ⟨⟨d, hd, rfl⟩, hne⟩
    exact ⟨d, ⟨hd, hne⟩, rfl⟩

theorem filter_of_not_held (h : ¬ Held ds (k, src, dst)) : (ds.filter fun d => !decide (d.key = (k, src, dst))) = ds := by
  rw [List.filter_eq_self]
  intro d hd
  have hne : d.key ≠ (k, src, dst) := fun hk => h ⟨d, hd, hk⟩
  simp [hne]

/-- What the calls of one `createKusciaRoute` must not do: lose an effect, or fail once the route that was there
is gone. -/
def Tries.Keeps (t : Tries) (existing : Prop) : Prop :=
  (existing → t.query = .done → t.delete ≠ .lost ∧ (t.delete = .done → t.create = .done)) ∧ (¬ existing → t.create ≠ .lost)

structure Created (ds ds' : List DomainRoute) (key : Nat × Bytes × Bytes) : Prop where
  held : ∀ key', Held ds' key' ↔ Held ds key' ∨ key' = key
  new : ¬ Held ds key → ∃ d : DomainRoute, d.key = key ∧ ds' = ds ++ [d]

theorem createKusciaRoute_cases {a : Bytes} (hk : s.kc channel = some k) (ht : t.Keeps (Held ds (k, src, dst))) :
    ((∃ e, (s.createKusciaRoute t src dst a channel ds).1 = .error e) ∧ (s.createKusciaRoute t src dst a channel ds).2 = ds) ∨
    ((s.createKusciaRoute t src dst a channel ds).1 = .ok () ∧ Created ds (s.createKusciaRoute t src dst a channel ds).2 (k, src, dst)) := by
  obtain ⟨hold, hnew⟩ := ht
  simp only [Service.createKusciaRoute, hk]
  cases s.endpoint a with
  | none => exact .inl ⟨⟨_, rfl⟩, rfl⟩
  | some ep =>
    by_cases hh : Held ds (k, src, dst)
    · have hhas : has ds k src dst = true := has_iff.2 hh
      -- a route that is there is found and replaced, or else Kuscia refuses the new one
      rcases ht : t with ⟨_ | _ | _ | _, _ | _ | _ | _, _ | _ | _ | _⟩ <;>
        simp [ht, hh] at hold <;>
        simp [DomainRouteExists, DeleteDomainRoute, CreateDomainRoute, Answer.takesEffect, hhas, has_iff, held_filter]
      refine ⟨fun key' => ?_, fun hn => absurd hh hn⟩
      rw [held_append, held_filter]
      show (Held ds key' ∧ key' ≠ (k, src, dst)) ∨ key' = (k, src, dst) ↔ _
      by_cases he : key' = (k, src, dst) <;> simp [he]
    · have hhas : has ds k src dst = false := by simpa using fun h => hh (has_iff.1 h)
      have hcreated : Created ds (ds ++ [⟨k, src, dst, ep⟩]) (k, src, dst) := ⟨fun _ => held_append, fun _ => ⟨_, rfl, rfl⟩⟩
      have hnew := hnew hh
      rcases ht : t with ⟨_ | _ | _ | _, d, _ | _ | _ | _⟩ <;>
        simp [ht] at hnew <;>
        simp [DomainRouteExists, CreateDomainRoute, Answer.takesEffect, hhas, hcreated]

theorem stored_iff {pair : Bytes × Bytes} : db.Stored pair ↔ pair ∈ db.routes.map (·.pair) := by
  simp [Db.Stored]

theorem stored_create {routeId srcAddr dstAddr : Bytes} (h : db.create routeId src dst srcAddr dstAddr = some db') (pair : Bytes × Bytes) :
    db'.Stored pair ↔ db.Stored pair ∨ pair = (src, dst) := by
  unfold Db.create at h
  split_ifs at h
  obtain rfl := Option.some.inj h
  simp [stored_iff, NodeRouteDO.pair]

theorem stored_setAddresses {id : Nat} {srcAddr dstAddr : Bytes} {pair : Bytes × Bytes} :
    (db.setAddresses id srcAddr dstAddr).Stored pair ↔ db.Stored pair := by
  rw [stored_iff, stored_iff]
  show pair ∈ (Table.updateWhere _ _ db.routes).map _ ↔ _
  rw [Table.map_updateWhere]
  exact fun _ => rfl

theorem stored_deleteWhere {p : NodeRouteDO → Bool} {pair : Bytes × Bytes} :
    (db.deleteWhere p).Stored pair ↔ ∃ r ∈ db.routes, r.pair = pair ∧ p r = false := by
  simp only [Db.Stored, Db.deleteWhere, List.mem_filter, Bool.not_eq_true']
  constructor
  · rintro ⟨r, ⟨hr, hp⟩, hk⟩
    exact ⟨r, hr, hk, hp⟩
  · rintro ⟨r, hr, hk, hp⟩
    exact ⟨r, ⟨hr, hp⟩, hk⟩

theorem stored_of_findByPair (h : db.findByPair src dst = none) : ¬ db.Stored (src, dst) := by
  rintro ⟨r, hr, hp⟩
  exact List.find?_eq_none.1 h r hr (decide_eq_true hp)

theorem mem_of_findRoute {routeId : Bytes} {r : NodeRouteDO} (h : Service.findRoute db routeId = .ok r) : r ∈ db.routes := by
  unfold Service.findRoute at h
  cases hf : db.findRoute routeId with
  | none => simp [hf] at h
  | some r' =>
    simp only [hf, Option.map_some, Option.getD_some, Except.ok.injEq] at h
    exact h ▸ List.mem_of_find?_eq_some hf

theorem mem_of_updatable {req : UpdateNodeRouterRequest} {r : NodeRouteDO} (h : Service.updatable db x req = .ok r) : r ∈ db.routes := by
  simp only [Service.updatable] at h
  split_ifs at h
  · cases h
  · obtain ⟨route, hf, h⟩ := Except.ok_of_bind h
    obtain ⟨_, _, h⟩ := Except.ok_of_bind h
    obtain ⟨_, _, h⟩ := Except.ok_of_bind h
    exact Except.ok.inj h ▸ mem_of_findRoute hf

theorem mem_of_deletable {routeId : Bytes} {r : NodeRouteDO} (h : Service.deletable db x routeId = .ok r) : r ∈ db.routes := by
  simp only [Service.deletable] at h
  split_ifs at h
  · cases h
  · obtain ⟨route, hf, h⟩ := Except.ok_of_bind h
    obtain ⟨_, _, h⟩ := Except.ok_of_bind h
    obtain ⟨_, _, h⟩ := Except.ok_of_bind h
    exact Except.ok.inj h ▸ mem_of_findRoute hf

section Counterpart

variable (hk : s.kusciaClient.isSome)
include hk

theorem exists_kc (channel : Bytes) : ∃ k, s.kc channel = some k := by
  obtain ⟨k, hk⟩ := Option.isSome_iff_exists.1 hk
  unfold Service.kc
  cases (if channel = [] then none else s.pool channel) with
  | none => exact ⟨k, by simp [hk]⟩
  | some j => exact ⟨j, by simp⟩

theorem consistent_iff : Consistent s st ↔
    ∀ p q key, s.counterpart p q = some key → (st.db.Stored (p, q) ↔ Held st.domainRoutes key) := by
  constructor
  · intro h p q key hkey
    rw [h p q]
    constructor
    · rintro ⟨key', hkey', hh⟩
      rwa [← Option.some.inj (hkey'.symm.trans hkey)]
    · exact fun hh => ⟨key, hkey, hh⟩
  · intro h p q
    obtain ⟨k, hkey⟩ : ∃ key, s.counterpart p q = some key := by
      unfold Service.counterpart
      split_ifs
      · obtain ⟨j, hj⟩ := exists_kc hk q
        exact ⟨_, by rw [hj]; rfl⟩
      · obtain ⟨j, hj⟩ := exists_kc hk []
        exact ⟨_, by rw [hj]; rfl⟩
    rw [h p q k hkey]
    constructor
    · exact fun hh => ⟨k, hkey, hh⟩
    · rintro ⟨key', hkey', hh⟩
      rwa [← Option.some.inj (hkey'.symm.trans hkey)]

end Counterpart

theorem counterpart_of_row {r : NodeRouteDO} (hkc : s.kc (s.kusciaSrcDst r).2.2 = some k) :
    s.counterpart r.srcNodeId r.dstNodeId = some (k, (s.kusciaSrcDst r).1, (s.kusciaSrcDst r).2.1) := by
  unfold Service.kusciaSrcDst at hkc ⊢
  unfold Service.counterpart
  split_ifs at hkc ⊢ <;> simp [hkc]

theorem counterpart_inj {p q p' q' : Bytes} (h : s.counterpart p q = some key) (h' : s.counterpart p' q' = some key) :
    (p, q) = (p', q') := by
  unfold Service.counterpart at h h'
  split_ifs at h h' <;>
  · obtain ⟨_, _, rfl⟩ := Option.map_eq_some_iff.1 h
    obtain ⟨_, _, he⟩ := Option.map_eq_some_iff.1 h'
    simp_all

/-- The forward route of a `CreateRoute` can be made. -/
def Service.Succeeds (s : Service) (x : Reads) (req : CreateRouteRequest) (t : Tries) : Prop :=
  (s.endpoint (Service.addressOf x req.dstNetAddress req.dstNodeId)).isSome ∧ (t.query = .done ∨ t.query = .refused) ∧ t.create = .done

/-- No effect of a call to Kuscia is lost, no call fails after one that took a route away, and the route back of a
`CreateRoute` can be taken back. In AUTONOMY the two nodes have one Kuscia and a new route has both directions. -/
def Service.Clean (s : Service) (st : State) : Op → Prop
  | .createRoute x req reverse forward rollback =>
    (s.autonomy → s.kc req.srcNodeId = s.kc req.dstNodeId ∧ Service.createsReverse st.db req) ∧
    reverse.create ≠ .lost ∧ forward.create ≠ .lost ∧
    (Service.createsReverse st.db req → rollback.takesEffect ∨ s.Succeeds x req forward)
  | .update _ _ t => t.query = .done → t.delete ≠ .lost ∧ (t.delete = .done → t.create = .done)
  | .delete _ _ a => a ≠ .lost
  | .deletePair _ src dst a b => (s.autonomy → s.kc src = s.kc dst) ∧ a ≠ .lost ∧ (a = .done → b = .done)

def Result.Sound (s : Service) (st : State) (r : Result) : Prop :=
  (∃ e, r.1 = .error e) ∧ r.2 = st ∨ r.1 = .ok () ∧ Consistent s r.2

theorem sound_of_error {e : Err} : Result.Sound s st (.error e, st) := .inl ⟨⟨e, rfl⟩, rfl⟩

theorem sound_transaction {r : Except Err Unit × List DomainRoute}
    (h : (∃ e, r.1 = .error e) ∧ r.2 = st.domainRoutes ∨ r.1 = .ok () ∧ Consistent s ⟨db, r.2⟩) :
    (Service.transaction st db r).Sound s st := by
  obtain ⟨⟨e, he⟩, hds⟩ | ⟨hok, hcons⟩ := h
  · exact .inl ⟨⟨e, by simp [Service.transaction, he]⟩, by simp [Service.transaction, he, hds]⟩
  · exact .inr ⟨by simp [Service.transaction, hok], by simpa [Service.transaction, hok] using hcons⟩

theorem deleteInKuscia_cases (ds : List DomainRoute) (k : Nat) (src dst : Bytes) (ha : a ≠ .lost) :
    ((∃ e, (Service.deleteInKuscia (some k) src dst a ds).1 = .error e) ∧ (Service.deleteInKuscia (some k) src dst a ds).2 = ds ∧ a ≠ .done) ∨
    ((Service.deleteInKuscia (some k) src dst a ds).1 = .ok () ∧ a = .done ∧
      ∀ key, Held (Service.deleteInKuscia (some k) src dst a ds).2 key ↔ Held ds key ∧ key ≠ (k, src, dst)) := by
  cases a with
  | lost => exact absurd rfl ha
  | done => exact .inr ⟨rfl, rfl, fun _ => held_filter⟩
  | refused => exact .inl ⟨⟨_, rfl⟩, rfl, nofun⟩
  | failed => exact .inl ⟨⟨_, rfl⟩, rfl, nofun⟩

section Operations

variable (hk : s.kusciaClient.isSome) (h : Consistent s st)
include hk h

theorem update_sound {req : UpdateNodeRouterRequest} (hc : s.Clean st (.update x req t)) : (s.Update st x req t).Sound s st := by
  unfold Service.Update
  cases hu : Service.updatable st.db x req with
  | error e => exact sound_of_error
  | ok r =>
    obtain ⟨k, hkc⟩ := exists_kc hk (s.kusciaSrcDst r).2.2
    have hrow := (consistent_iff hk).1 h _ _ _ (counterpart_of_row hkc)
    have hheld := hrow.1 ⟨r, mem_of_updatable hu, rfl⟩
    refine sound_transaction ?_
    rcases createKusciaRoute_cases (a := if s.autonomy then (s.newAddresses x req r).1 else (s.newAddresses x req r).2) hkc
      (⟨fun _ => hc, fun hn => absurd hheld hn⟩ : t.Keeps _) with hfail | ⟨hok, hcreated⟩
    · exact .inl hfail
    · refine .inr ⟨hok, (consistent_iff hk).2 fun p q key hkey => ?_⟩
      show (Db.setAddresses _ _ _ _).Stored _ ↔ _
      rw [stored_setAddresses, (consistent_iff hk).1 h p q key hkey]
      refine ((hcreated.held key).trans ⟨?_, .inl⟩).symm
      rintro (hh | rfl)
      · exact hh
      · exact hheld

theorem delete_sound {routeId : Bytes} (hc : s.Clean st (.delete x routeId a)) : (s.Delete st x routeId a).Sound s st := by
  cases hd : Service.deletable st.db x routeId with
  | error e =>
    rw [show s.Delete st x routeId a = (.error e, st) by simp only [Service.Delete, hd]]
    exact sound_of_error
  | ok r =>
    have hr := mem_of_deletable hd
    obtain ⟨k, hkc⟩ := exists_kc hk (s.kusciaSrcDst r).2.2
    have hcp := counterpart_of_row hkc
    have hrun : s.Delete st x routeId a = Service.transaction st (st.db.deleteWhere fun r' => decide (r'.id = r.id))
        (Service.deleteInKuscia (some k) (s.kusciaSrcDst r).1 (s.kusciaSrcDst r).2.1 a st.domainRoutes) := by
      rw [← hkc]
      simp only [Service.Delete, hd]
    rw [hrun]
    refine sound_transaction ?_
    rcases deleteInKuscia_cases st.domainRoutes k _ _ hc with ⟨he, hds, _⟩ | ⟨hok, _, hheld⟩
    · exact .inl ⟨he, hds⟩
    · refine .inr ⟨hok, (consistent_iff hk).2 fun p q key hkey => ?_⟩
      show (Db.deleteWhere _ _).Stored _ ↔ Held (Service.deleteInKuscia _ _ _ _ _).2 key
      rw [hheld, ← (consistent_iff hk).1 h p q key hkey, stored_deleteWhere]
      constructor
      · rintro ⟨r', hr', hp, hid⟩
        refine ⟨⟨r', hr', hp⟩, ?_⟩
        rintro rfl
        have hpair : r'.pair = r.pair := hp.trans (counterpart_inj hkey hcp)
        rw [Table.eq_of_col_eq st.db.pairs hr' hr hpair] at hid
        simp at hid
      · rintro ⟨⟨r', hr', hp⟩, hne⟩
        refine ⟨r', hr', hp, ?_⟩
        rw [decide_eq_false_iff_not]
        intro hid
        have hrr := Table.eq_of_col_eq st.db.ids hr' hr hid
        subst hrr
        obtain ⟨rfl, rfl⟩ : r'.srcNodeId = p ∧ r'.dstNodeId = q := Prod.mk.inj hp
        exact hne (Option.some.inj (hkey.symm.trans hcp))

theorem deletePair_sound (hc : s.Clean st (.deletePair x src dst a b)) : (s.DeletePair st x src dst a b).Sound s st := by
  obtain ⟨hone, ha, hb⟩ := hc
  by_cases hfind : (st.db.findByPair src dst).isNone
  · rw [Service.DeletePair, if_pos hfind]
    exact sound_of_error
  rw [Service.DeletePair, if_neg hfind]
  cases hv : Service.validateNoRunningJobs x src dst with
  | error e => exact sound_of_error
  | ok _ =>
    obtain ⟨k, hkc⟩ := exists_kc hk (if s.autonomy then src else [])
    rw [hkc]
    refine sound_transaction ?_
    have hdb : ∀ p q, (st.db.deleteWhere fun r => decide (r.pair = (src, dst) ∨ r.pair = (dst, src))).Stored (p, q) ↔
        st.db.Stored (p, q) ∧ (p, q) ≠ (src, dst) ∧ (p, q) ≠ (dst, src) := by
      intro p q
      simp only [stored_deleteWhere, decide_eq_false_iff_not, not_or]
      constructor
      · rintro ⟨r, hr, hp, h₁, h₂⟩
        exact ⟨⟨r, hr, hp⟩, hp ▸ h₁, hp ▸ h₂⟩
      · rintro ⟨⟨r, hr, hp⟩, h₁, h₂⟩
        exact ⟨r, hr, hp, hp ▸ h₁, hp ▸ h₂⟩
    rcases deleteInKuscia_cases st.domainRoutes k src dst ha with ⟨⟨e, he⟩, hds, _⟩ | ⟨hok, hdone, hheld⟩
    · exact .inl (by simp [Service.deletePairInKuscia, he, hds])
    · have hrun : Service.deletePairInKuscia (some k) src dst a b st.domainRoutes =
          Service.deleteInKuscia (some k) dst src b (Service.deleteInKuscia (some k) src dst a st.domainRoutes).2 := by
        simp only [Service.deletePairInKuscia, hok]
      rw [hrun]
      have hb := hb hdone
      rcases deleteInKuscia_cases (Service.deleteInKuscia (some k) src dst a st.domainRoutes).2 k dst src
        (show b ≠ .lost by rw [hb]; nofun) with ⟨_, _, hn⟩ | ⟨hok', _, hheld'⟩
      · exact absurd hb hn
      · refine .inr ⟨hok', (consistent_iff hk).2 fun p q key hkey => ?_⟩
        show (Db.deleteWhere _ _).Stored _ ↔ Held (Service.deleteInKuscia _ _ _ _ _).2 key
        rw [hheld', hheld, hdb, (consistent_iff hk).1 h p q key hkey, and_assoc]
        refine and_congr_right fun _ => ?_
        -- the two keys are the counterparts of the two pairs
        unfold Service.counterpart at hkey
        split_ifs at hkey hkc with haut
        · have hone := hone haut
          obtain ⟨j, hj, rfl⟩ := Option.map_eq_some_iff.1 hkey
          simp only [ne_eq, Prod.mk.injEq, not_and]
          constructor
          · rintro ⟨h₁, h₂⟩
            exact ⟨fun _ hq hp => h₂ hp hq, fun _ hq hp => h₁ hp hq⟩
          · rintro ⟨h₁, h₂⟩
            refine ⟨fun hp hq => ?_, fun hp hq => ?_⟩
            · subst hp hq
              exact h₂ (Option.some.inj (hj.symm.trans (hone.symm.trans hkc))) rfl rfl
            · subst hp hq
              exact h₁ (Option.some.inj (hj.symm.trans hkc)) rfl rfl
        · rw [hkc] at hkey
          obtain rfl := Option.some.inj hkey
          simp

end Operations

theorem createInKuscia_cases {req : CreateRouteRequest} {reverse forward : Tries} {cr : Bool}
    (hkc : s.kc (if s.autonomy then req.srcNodeId else []) = some k) (hne : req.srcNodeId ≠ req.dstNodeId)
    (hf : ¬ Held ds (k, req.srcNodeId, req.dstNodeId)) (hr : cr → ¬ Held ds (k, req.dstNodeId, req.srcNodeId))
    (h₁ : reverse.create ≠ .lost) (h₂ : forward.create ≠ .lost) (h₃ : cr → a.takesEffect ∨ s.Succeeds x req forward) :
    ((∃ e, (s.createInKuscia x req cr reverse forward a ds).1 = .error e) ∧ (s.createInKuscia x req cr reverse forward a ds).2 = ds) ∨
    ((s.createInKuscia x req cr reverse forward a ds).1 = .ok () ∧
      ∀ key, Held (s.createInKuscia x req cr reverse forward a ds).2 key ↔
        Held ds key ∨ key = (k, req.srcNodeId, req.dstNodeId) ∨ cr ∧ key = (k, req.dstNodeId, req.srcNodeId)) := by
  have hkeeps : ∀ {ds key} {t : Tries}, ¬ Held ds key → t.create ≠ .lost → t.Keeps (Held ds key) :=
    fun hn ht => ⟨fun hh => absurd hh hn, fun _ => ht⟩
  cases cr with
  | false =>
    simp only [Service.createInKuscia, Bool.false_eq_true, if_false, false_and, or_false]
    rcases createKusciaRoute_cases (a := Service.addressOf x req.dstNetAddress req.dstNodeId) hkc (hkeeps hf h₂) with
      ⟨⟨e, he⟩, hds⟩ | ⟨hok, hcreated⟩
    · exact .inl (by simp [he, hds])
    · exact .inr (by simpa [hok] using hcreated.held)
  | true =>
    simp only [Service.createInKuscia, if_true, true_and]
    rcases createKusciaRoute_cases (a := Service.addressOf x req.srcNetAddress req.srcNodeId) hkc (hkeeps (hr rfl) h₁) with
      ⟨⟨e, he⟩, hds⟩ | ⟨hok, hcreated⟩
    · exact .inl (by simp [he, hds])
    · obtain ⟨d, hd, hds⟩ := hcreated.new (hr rfl)
      have hf' : ¬ Held (ds ++ [d]) (k, req.srcNodeId, req.dstNodeId) := by
        rw [held_append, hd]
        rintro (hh | hh)
        · exact hf hh
        · exact hne (congrArg (·.2.1) hh)
      rcases createKusciaRoute_cases (a := Service.addressOf x req.dstNetAddress req.dstNodeId) hkc (hkeeps hf' h₂) with
        ⟨⟨e, he⟩, hds'⟩ | ⟨hok', hcreated'⟩
      · -- the forward route was not made, so the route back has to be taken away
        have heff : a.takesEffect = true := by
          rcases h₃ rfl with ha | ⟨hep, hq, hcr⟩
          · exact ha
          · obtain ⟨ep, hep⟩ := Option.isSome_iff_exists.1 hep
            have hhas : has (ds ++ [d]) k req.srcNodeId req.dstNodeId = false := by simpa using fun h => hf' (has_iff.1 h)
            rcases hq with hq | hq <;>
              simp [Service.createKusciaRoute, hkc, hep, DomainRouteExists, CreateDomainRoute, hq, hcr, hhas] at he
        refine .inl ⟨⟨e, by simp [hok, hds, he]⟩, ?_⟩
        simp only [hok, hds, he, hds', hkc, Option.map_some, Option.getD_some, DeleteDomainRoute, heff, if_true]
        rw [List.filter_append, filter_of_not_held (hr rfl)]
        simp [hd]
      · refine .inr ⟨by simp [hok, hds, hok'], fun key => ?_⟩
        simp only [hok, hds, hok', hcreated'.held, held_append, hd]
        tauto

section Operations

variable (hk : s.kusciaClient.isSome) (h : Consistent s st)
include hk h

theorem createRoute_sound {req : CreateRouteRequest} {reverse forward : Tries}
    (hc : s.Clean st (.createRoute x req reverse forward a)) : (s.CreateRoute st x req reverse forward a).Sound s st := by
  obtain ⟨haut, h₁, h₂, h₃⟩ := hc
  obtain ⟨k, hkc⟩ := exists_kc hk (if s.autonomy then req.srcNodeId else [])
  simp only [Service.CreateRoute]
  by_cases hreq : req.srcNodeId = [] ∨ req.dstNodeId = []
  · rw [if_pos hreq]
    exact sound_of_error
  by_cases hne : req.srcNodeId = req.dstNodeId
  · rw [if_neg hreq, if_pos hne]
    exact sound_of_error
  by_cases hfind : (st.db.findByPair req.srcNodeId req.dstNodeId).isSome
  · rw [if_neg hreq, if_neg hne, if_pos hfind]
    exact sound_of_error
  rw [if_neg hreq, if_neg hne, if_neg hfind]
  cases hrows : Service.createRows x req (Service.createsReverse st.db req) st.db with
  | none => exact sound_of_error
  | some db =>
    have hnone : s.kusciaClient.isNone = false := by
      obtain ⟨j, hj⟩ := Option.isSome_iff_exists.1 hk
      rw [hj]
      rfl
    simp only [hnone, Bool.false_eq_true, if_false]
    have hpair : ¬ st.db.Stored (req.srcNodeId, req.dstNodeId) := stored_of_findByPair (by simpa using hfind)
    have hback : Service.createsReverse st.db req → ¬ st.db.Stored (req.dstNodeId, req.srcNodeId) := by
      intro hcr
      simp only [Service.createsReverse, Bool.and_eq_true, Option.isNone_iff_eq_none] at hcr
      exact stored_of_findByPair hcr.2
    have hdb : ∀ pair, db.Stored pair ↔ st.db.Stored pair ∨ pair = (req.srcNodeId, req.dstNodeId) ∨
        Service.createsReverse st.db req ∧ pair = (req.dstNodeId, req.srcNodeId) := by
      intro pair
      simp only [Service.createRows] at hrows
      obtain ⟨mid, hmid, hrows⟩ := Option.bind_eq_some_iff.1 hrows
      cases hcr : Service.createsReverse st.db req with
      | false =>
        rw [hcr] at hrows
        obtain rfl := Option.some.inj hrows
        simp [stored_create hmid]
      | true =>
        rw [hcr] at hrows
        rw [stored_create hrows, stored_create hmid]
        simp [or_assoc]
    -- the counterparts of the two pairs are the two routes
    have hcp : ∀ p q key, s.counterpart p q = some key →
        ((key = (k, req.srcNodeId, req.dstNodeId) ∨ Service.createsReverse st.db req ∧ key = (k, req.dstNodeId, req.srcNodeId)) ↔
        ((p, q) = (req.srcNodeId, req.dstNodeId) ∨ Service.createsReverse st.db req ∧ (p, q) = (req.dstNodeId, req.srcNodeId))) := by
      intro p q key hkey
      unfold Service.counterpart at hkey
      by_cases hau : s.autonomy
      · obtain ⟨hone, hcr⟩ := haut hau
        rw [if_pos hau] at hkey hkc
        obtain ⟨j, hj, rfl⟩ := Option.map_eq_some_iff.1 hkey
        simp only [Prod.mk.injEq, hcr, true_and]
        constructor
        · rintro (⟨_, rfl, rfl⟩ | ⟨_, rfl, rfl⟩)
          · exact .inr ⟨rfl, rfl⟩
          · exact .inl ⟨rfl, rfl⟩
        · rintro (⟨rfl, rfl⟩ | ⟨rfl, rfl⟩)
          · exact .inr ⟨Option.some.inj (hj.symm.trans (hone.symm.trans hkc)), rfl, rfl⟩
          · exact .inl ⟨Option.some.inj (hj.symm.trans hkc), rfl, rfl⟩
      · rw [if_neg hau] at hkey hkc
        rw [hkc] at hkey
        obtain rfl := Option.some.inj hkey
        simp
    have hcons := (consistent_iff hk).1 h
    have hold : ∀ key, key = (k, req.srcNodeId, req.dstNodeId) ∨ Service.createsReverse st.db req ∧ key = (k, req.dstNodeId, req.srcNodeId) →
        ¬ Held st.domainRoutes key := by
      intro key hkey hh
      obtain ⟨p, q, hpq⟩ : ∃ p q, s.counterpart p q = some key := by
        by_cases hau : s.autonomy
        · obtain ⟨hone, _⟩ := haut hau
          rw [if_pos hau] at hkc
          rcases hkey with rfl | ⟨_, rfl⟩
          · exact ⟨req.dstNodeId, req.srcNodeId, by simp [Service.counterpart, hau, hkc]⟩
          · exact ⟨req.srcNodeId, req.dstNodeId, by simp [Service.counterpart, hau, ← hone, hkc]⟩
        · rw [if_neg hau] at hkc
          rcases hkey with rfl | ⟨_, rfl⟩
          · exact ⟨req.srcNodeId, req.dstNodeId, by simp [Service.counterpart, hau, hkc]⟩
          · exact ⟨req.dstNodeId, req.srcNodeId, by simp [Service.counterpart, hau, hkc]⟩
      have hst := (hcons p q key hpq).2 hh
      rcases (hcp p q key hpq).1 hkey with he | ⟨hcr, he⟩
      · exact hpair (he ▸ hst)
      · exact hback hcr (he ▸ hst)
    refine sound_transaction ?_
    rcases createInKuscia_cases hkc hne (hold _ (.inl rfl)) (fun hcr => hold _ (.inr ⟨hcr, rfl⟩)) h₁ h₂ h₃ with hfail | ⟨hok, hheld⟩
    · exact .inl hfail
    · refine .inr ⟨hok, (consistent_iff hk).2 fun p q key hkey => ?_⟩
      show db.Stored _ ↔ Held (Service.createInKuscia _ _ _ _ _ _ _ _).2 key
      rw [hheld, hdb, hcp p q key hkey, hcons p q key hkey]

theorem exec_sound (op : Op) (hc : s.Clean st op) : (s.exec st op).Sound s st := by
  cases op with
  | createRoute => exact createRoute_sound hk h hc
  | update => exact update_sound hk h hc
  | delete => exact delete_sound hk h hc
  | deletePair => exact deletePair_sound hk h hc

/-- In a run of clean operations rows and domain routes stay in step, and the operations that fail change nothing. -/
theorem consistent_of_run {ops : List Op} (hops : Lts.RunAll s.step s.Clean st ops) {pre post : List Op} (he : ops = pre ++ op :: post)
    (hr : Lts.run s.step st pre = some st') :
    Consistent s st' ∧ Consistent s (s.exec st' op).2 ∧ ∀ e, (s.exec st' op).1 = .error e → (s.exec st' op).2 = st' := by
  subst he
  obtain ⟨hpre, hop, _⟩ := hops.append hr
  have hst' : Consistent s st' := by
    refine Lts.run_invariant (fun st op st' hi hc hs => ?_) h hpre hr
    obtain rfl := Option.some.inj hs
    rcases exec_sound hk hi op hc with ⟨_, heq⟩ | ⟨_, hcons⟩
    · rw [heq]
      exact hi
    · exact hcons
  refine ⟨hst', ?_⟩
  rcases exec_sound hk hst' op hop with ⟨_, heq⟩ | ⟨hok, hcons⟩
  · refine ⟨?_, fun _ _ => heq⟩
    rw [heq]
    exact hst'
  · exact ⟨hcons, fun e hee => by rw [hok] at hee; cases hee⟩

end Operations

def center : Service where
  autonomy := false
  pool := fun _ => none
  kusciaClient := some 0
  endpoint := fun addr => if addr = str "10.0.0.2:1080" then some ⟨str "10.0.0.2", 1080, false⟩ else none

def quiet : Reads := ⟨none, fun _ => none, fun _ _ => .ok false⟩

def aliceBob : NodeRouteDO := ⟨1, str "alice__bob", str "alice", str "bob", str "10.0.0.1:1080", str "10.0.0.2:1080"⟩

def paired : State where
  db := ⟨[aliceBob], 2, by decide, by decide, by decide⟩
  domainRoutes := [⟨0, str "alice", str "bob", str "10.0.0.2", 1080, false⟩]

theorem consistent_paired : Consistent center paired := by
  intro p q
  have hst : paired.db.Stored (p, q) ↔ (p, q) = (str "alice", str "bob") := by
    simp [Db.Stored, paired, aliceBob, NodeRouteDO.pair, eq_comm]
  have hcp : center.counterpart p q = some (0, p, q) := rfl
  rw [hst, hcp]
  simp [Held, paired, DomainRoute.key, eq_comm]

def rebuild (t : Tries) : Op := .update quiet ⟨str "alice__bob", [], [], [], []⟩ t

/-- The route is deleted in Kuscia and cannot be made again: the call fails, and only the row is left. -/
theorem update_loses_route :
    Consistent center paired ∧ (∃ e, (center.exec paired (rebuild ⟨.done, .done, .failed⟩)).1 = .error e) ∧
    (center.exec paired (rebuild ⟨.done, .done, .failed⟩)).2 ≠ paired ∧
    ¬ Consistent center (center.exec paired (rebuild ⟨.done, .done, .failed⟩)).2 := by
  have hds : (center.exec paired (rebuild ⟨.done, .done, .failed⟩)).2.domainRoutes = [] := by decide +kernel
  have hdb : (center.exec paired (rebuild ⟨.done, .done, .failed⟩)).2.db.routes = [aliceBob] := by decide +kernel
  refine ⟨consistent_paired, ⟨_, rfl⟩, ?_, ?_⟩
  · intro h
    rw [h] at hds
    cases hds
  · intro h
    obtain ⟨key, _, d, hd, _⟩ := (h (str "alice") (str "bob")).1 ⟨aliceBob, by rw [hdb]; exact List.mem_singleton_self _, rfl⟩
    rw [hds] at hd
    cases hd

/-- The route is made again, and a delete that Kuscia does not answer changes nothing. -/
theorem consistent_of_rebuild :
    Consistent center (center.exec paired (rebuild ⟨.done, .done, .done⟩)).2 ∧
    ∀ e, (center.exec (center.exec paired (rebuild ⟨.done, .done, .done⟩)).2 (.delete quiet (str "alice__bob") .failed)).1 = .error e →
      (center.exec (center.exec paired (rebuild ⟨.done, .done, .done⟩)).2 (.delete quiet (str "alice__bob") .failed)).2 =
        (center.exec paired (rebuild ⟨.done, .done, .done⟩)).2 := by
  have hops : Lts.RunAll center.step center.Clean paired [rebuild ⟨.done, .done, .done⟩, .delete quiet (str "alice__bob") .failed] :=
    ⟨fun _ => ⟨nofun, fun _ => rfl⟩, fun _ _ => ⟨nofun, fun _ _ => trivial⟩⟩
  have hrun := consistent_of_run rfl consistent_paired hops
    (rfl : _ = [rebuild ⟨.done, .done, .done⟩] ++ .delete quiet (str "alice__bob") .failed :: []) rfl
  exact ⟨hrun.1, hrun.2.2⟩

end Route
