import Privahub.Http.Router

/-!
# Completeness of the audit trail

`answer_audited`: on the main port, a selected request of a registered route which the path filters in
front of `AuditTrail` let through is recorded once unless its handling ends in a panic, whatever its
guards and its handler do; the event is a success only with a status below 400 and, for a JSON response
that begins with the usual envelope, the code 0.
-/

namespace Http

open Chain

variable {u : CaseTables} {cfg : RouterConfig} {r : Route} {c c₀ : Ctx} {hs : List (Handler Ctx)}

/-- `{"status":{"code":n` with white space around the tokens. -/
def envelopeText (w : Fin 7 → Bytes) (n : Int) : Bytes :=
  w 0 ++ 123 :: (w 1 ++ (str "\"status\"" ++ (w 2 ++ 58 :: (w 3 ++ 123 :: (w 4 ++ (str "\"code\"" ++
    (w 5 ++ 58 :: (w 6 ++ Bytes.itoa n))))))))

/-- A body that begins with the envelope of code `n`, which lies within the bytes that are captured. -/
def Envelope (n : Int) (b : Bytes) : Prop :=
  ∃ w rest, (∀ i, ∀ a ∈ w i, Json.isSpace a = true) ∧ (∀ a ∈ rest.head?, Bytes.isDigit a = false) ∧
    b = envelopeText w n ++ rest ∧ (envelopeText w n).length ≤ 512 ∧ -2 ^ 63 ≤ n ∧ n < 2 ^ 63

theorem space_facts : ∀ n < 256, Json.isSpace (UInt8.ofNat n) = true →
    reSpace (UInt8.ofNat n) = true ∧ reNotBrace (UInt8.ofNat n) = true ∧ UInt8.ofNat n ≠ 34 ∧ UInt8.ofNat n ≠ 45 ∧
      Bytes.isDigit (UInt8.ofNat n) = false := by
  decide +kernel

theorem isSpace_facts {b : UInt8} (h : Json.isSpace b = true) :
    reSpace b = true ∧ reNotBrace b = true ∧ b ≠ 34 ∧ b ≠ 45 ∧ Bytes.isDigit b = false := by
  have hb : UInt8.ofNat b.toNat = b := by simp
  simpa only [hb] using space_facts b.toNat b.toNat_lt (by rwa [hb])

section Pattern

open Regexp

variable {w rest x : Bytes} {k : Bytes → Option Bytes} {ps : List Piece}

theorem run_spaces (hw : ∀ a ∈ w, Json.isSpace a = true) (hr : ∀ a ∈ rest.head?, reSpace a = false)
    (h : run ps k rest = some x) : run (.star reSpace true :: ps) k (w ++ rest) = some x :=
  starRun_greedy (fun a ha => (isSpace_facts (hw a ha)).1) hr h

theorem group_digits {n : Nat} (hr : ∀ a ∈ rest.head?, Bytes.isDigit a = false) :
    ∀ k : Bytes → Option Bytes, ∀ y, k rest = some y →
      run [.one Bytes.isDigit, .star Bytes.isDigit true] k (Bytes.digits n ++ rest) = some y := by
  intro k y hk
  have hd : ∀ a ∈ Bytes.digits n, Bytes.isDigit a = true := fun a ha => Bytes.isDigit_of_mem_digits ha
  cases hn : Bytes.digits n with
  | nil => exact absurd hn (Bytes.digits_ne_nil n)
  | cons a ds =>
    rw [hn] at hd
    rw [List.cons_append, run]
    simp only [hd a (List.mem_cons_self ..), if_true]
    exact starRun_greedy (fun b hb => hd b (List.mem_cons_of_mem _ hb)) hr hk

theorem group_number (n : Int) (hr : ∀ a ∈ rest.head?, Bytes.isDigit a = false) :
    group reNumber (Bytes.itoa n ++ rest) = some (Bytes.itoa n) := by
  refine group_eq fun k y hk => ?_
  cases n with
  | ofNat n =>
    have hrun := group_digits (n := n) hr k y hk
    rw [Bytes.itoa]
    cases hn : Bytes.digits n with
    | nil => exact absurd hn (Bytes.digits_ne_nil n)
    | cons a ds =>
      have ha : Bytes.isDigit a = true := Bytes.isDigit_of_mem_digits (n := n) (hn ▸ List.mem_cons_self ..)
      have h45 : a ≠ 45 := by rintro rfl; exact absurd ha (by decide)
      rw [hn] at hrun
      rw [reNumber, List.cons_append, run, if_neg h45]
      exact hrun
  | negSucc n =>
    rw [Bytes.itoa, reNumber, List.cons_append, run, if_pos rfl, group_digits hr k y hk]
    rfl

theorem head_itoa {n : Int} {a : UInt8} (h : a ∈ (Bytes.itoa n ++ rest).head?) : reSpace a = false := by
  have hd : ∀ m, ∀ b ∈ Bytes.digits m, reSpace b = false := fun m b hb => by
    have := Bytes.isDigit_of_mem_digits hb
    simp only [Bytes.isDigit, reSpace, Bool.and_eq_true, decide_eq_true_eq] at this ⊢
    by_contra hs
    rcases this with ⟨h1, h2⟩
    simp only [Bool.or_eq_true, beq_iff_eq, Bool.not_eq_false] at hs
    rcases hs with (((rfl | rfl) | rfl) | rfl) | rfl <;> exact absurd h1 (by decide)
  cases n with
  | ofNat n =>
    obtain ⟨b, ds, hb⟩ := List.exists_cons_of_ne_nil (Bytes.digits_ne_nil n)
    rw [Bytes.itoa, hb] at h
    cases Option.mem_def.1 h
    exact hd n _ (hb ▸ List.mem_cons_self ..)
  | negSucc n => cases Option.mem_def.1 h; rfl

theorem statusCodeRe_envelope {w : Fin 7 → Bytes} (n : Int) (hw : ∀ i, ∀ a ∈ w i, Json.isSpace a = true)
    (hr : ∀ a ∈ rest.head?, Bytes.isDigit a = false) : statusCodeRe (envelopeText w n ++ rest) = some (Bytes.itoa n) := by
  have hno : ∀ i, ∀ a ∈ w i, a ≠ 34 := fun i a ha => (isSpace_facts (hw i a ha)).2.2.1
  rw [statusCodeRe, envelopeText]
  simp only [List.append_assoc, List.cons_append]
  -- The pattern begins at the first quotation mark.
  refine find_skip (b := 34) (hno 0) ?_
  refine find_skip (b := 34) (w := [123]) (by decide) ?_
  refine find_skip (b := 34) (hno 1) (find_here ?_)
  rw [matchHere]
  refine (run_literal (k := group reNumber) (str "\"status\"") _).trans ?_
  refine run_spaces (hw 2) (by rintro _ ⟨⟩; rfl) ?_
  rw [run, if_pos rfl]
  refine run_spaces (hw 3) (by rintro _ ⟨⟩; rfl) ?_
  rw [run, if_pos rfl, run]
  refine starRun_lazy (fun a ha => (isSpace_facts (hw 4 a ha)).2.1) (fun a ha t => run_byte_ne (hno 4 a ha) _ t) ?_
  refine (run_literal (k := group reNumber) (str "\"code\"") _).trans ?_
  refine run_spaces (hw 5) (by rintro _ ⟨⟩; rfl) ?_
  rw [run, if_pos rfl]
  exact run_spaces (hw 6) (fun a ha => head_itoa ha) (group_number n hr)

end Pattern

theorem Envelope.code {n : Int} {b ct : Bytes} (h : Envelope n b) (hj : containsStr (toLowerAscii ct) (str "json") = true) :
    codeOf ct (b.take 512) = some n := by
  obtain ⟨w, rest, hw, hr, rfl, hl, h1, h2⟩ := h
  have hr' : ∀ a ∈ (rest.take (512 - (envelopeText w n).length)).head?, Bytes.isDigit a = false := by
    intro a ha
    rw [List.head?_take] at ha
    split_ifs at ha
    · cases ha
    · exact hr a ha
  rw [codeOf, hj, List.take_append, List.take_of_length_le hl, statusCodeRe_envelope n hw hr']
  exact Json.parseInt64_itoa h1 h2

theorem auditResult_success {status : Int} {code : Option Int} (h : (auditResult status code).1 = resultSuccess) :
    status < 400 ∧ ∀ n, code = some n → n = 0 := by
  have hd : resultDenied ≠ resultSuccess := by decide
  have hf : resultFailure ≠ resultSuccess := by decide
  unfold auditResult at h
  split_ifs at h with h1 h2
  · exact absurd h hd
  · exact absurd h hf
  · refine ⟨by omega, ?_⟩
    rintro n rfl
    by_contra hn
    simp only [if_neg hn] at h
    split_ifs at h
    · exact absurd h hd
    · exact absurd h hf

structure Stable (P : Ctx → Prop) : Prop where
  effect : ∀ c e, P c → P (Effect.apply c e)
  req : ∀ c req, P c → P { c with req := req }
  handled : ∀ c req, P c → P { c with handled := some req }

variable {P : Ctx → Prop}

theorem Stable.effects (hP : Stable P) (es : List Effect) (h : P c) : P (applyAll c es) := by
  induction es generalizing c with
  | nil => exact h
  | cons e es ih => exact ih (hP.effect c e h)

theorem Stable.behaviour (hP : Stable P) (b : Behaviour) (h : P c) : P (b.run c).state := by
  unfold Behaviour.run
  split_ifs <;> exact hP.effects _ h

theorem Stable.keeps_bodyLimit (hP : Stable P) (n : Int) (overrides : List (Bytes × Int)) :
    Keeps P (BodyLimitWithOverrides n overrides) := by
  intro c h
  simp only [End.state]
  split_ifs
  · exact h
  · exact hP.effects _ h
  · exact hP.req _ _ h

theorem Stable.keeps_caseKeysRequest (hP : Stable P) : Keeps P (CaseKeysRequest cfg.floats u cfg.mapOrder cfg.message) := by
  intro c h
  cases hc : caseKeys cfg.floats u cfg.mapOrder c.req <;> simp only [hc, End.state]
  · exact hP.req _ _ h
  · exact hP.effects _ h
  · exact hP.effects _ h

theorem Stable.audited (hP : Stable P) (h : P c) : P (serve Ctx.aborted (cfg.audited u r) c).state := by
  refine serve_keeps (P := P) ?_ c h
  intro x hx
  simp only [RouterConfig.audited, List.cons_append, List.nil_append, List.mem_cons, List.mem_append, List.mem_map,
    List.not_mem_nil, or_false] at hx
  rcases hx with rfl | rfl | rfl | ⟨b, -, rfl⟩ | rfl
  · exact fun c h => hP.effects _ h
  · exact hP.keeps_bodyLimit _ _
  · exact hP.keeps_caseKeysRequest
  · exact fun c h => hP.behaviour b h
  · exact fun c h => hP.behaviour _ (hP.handled c _ h)

theorem stable_trail (t : List Audit.Event) : Stable fun c => c.trail = t where
  effect c e h := by
    cases e with
    | contentType v => unfold Effect.apply; split_ifs <;> exact h
    | _ => exact h
  req _ _ h := h
  handled _ _ h := h

theorem stable_inside : Stable (Inside c₀) where
  effect _ e h := h.effect e
  req _ _ h := ⟨h.fullPath, h.trail, h.recovered, h.captured⟩
  handled _ _ h := ⟨h.fullPath, h.trail, h.recovered, h.captured⟩

def Effect.IsHeader : Effect → Prop
  | .header _ _ => True
  | _ => False

theorem applyAll_headers {es : List Effect} (h : ∀ e ∈ es, e.IsHeader) : ∃ hd, applyAll c es = { c with header := hd } := by
  induction es generalizing c with
  | nil => exact ⟨c.header, rfl⟩
  | cons e es ih =>
    have he := h e (List.mem_cons_self ..)
    cases e with
    | header k v =>
      obtain ⟨hd, hh⟩ := ih (c := (Effect.header k v).apply c) fun e he => h e (List.mem_cons_of_mem _ he)
      exact ⟨hd, hh⟩
    | _ => exact he.elim

/-- A handler that lets `c` through having set headers at most. -/
def Passes (x : Handler Ctx) (c : Ctx) : Prop :=
  ∀ hs : List (Handler Ctx), ∃ hd, serve Ctx.aborted (x :: hs) c = serve Ctx.aborted hs { c with header := hd }

theorem passes_effects {f : Ctx → List Effect} (ha : c.aborted = false) (h : ∀ e ∈ f c, e.IsHeader) : Passes (effects f) c := by
  intro hs
  obtain ⟨hd, hh⟩ := applyAll_headers (c := c) h
  refine ⟨hd, ?_⟩
  rw [effects, serve]
  simp only [hh, ha, Bool.false_eq_true, if_false]

theorem serve_passes {xs : List (Handler Ctx)} (h : ∀ x ∈ xs, ∀ hd, Passes x { c with header := hd }) (hs : List (Handler Ctx)) :
    ∃ hd, serve Ctx.aborted (xs ++ hs) c = serve Ctx.aborted hs { c with header := hd } := by
  suffices ∀ hd, ∃ hd', serve Ctx.aborted (xs ++ hs) { c with header := hd } = serve Ctx.aborted hs { c with header := hd' } from
    this c.header
  intro hd
  induction xs generalizing hd with
  | nil => exact ⟨hd, rfl⟩
  | cons x xs ih =>
    obtain ⟨hd', hx⟩ := h x (List.mem_cons_self ..) hd (xs ++ hs)
    obtain ⟨hd'', hxs⟩ := ih (fun y hy => h y (List.mem_cons_of_mem _ hy)) hd'
    exact ⟨hd'', hx.trans hxs⟩

/-- The path filters and the edge forwarding let the path through to `AuditTrail`. -/
def RouterConfig.passes (cfg : RouterConfig) (path : Bytes) : Prop :=
  trimRightSlash path ∉ pathSet cfg.innerPortPaths ∧ (∀ e ∈ cfg.edge, e.passes path) ∧
    trimRightSlash path ∉ pathSet cfg.disabledRoutes

theorem passes_blockInnerPaths {paths : List Bytes} (ha : c.aborted = false) (h : trimRightSlash c.req.path ∉ pathSet paths) :
    Passes (BlockInnerPaths paths) c := by
  refine passes_effects ha ?_
  rw [if_neg h]
  exact fun e he => absurd he (List.not_mem_nil)

theorem passes_edgeForward {e : EdgeForwardConfig} (ha : c.aborted = false) (h : e.passes c.req.path) : Passes (EdgeForward e) c := by
  refine passes_effects ha ?_
  simp only [if_neg h.1]
  rw [if_neg fun hp => hp.2 (h.2 hp.1)]
  exact fun e he => absurd he (List.not_mem_nil)

theorem passes_cors {allowed : List Bytes} (ha : c.aborted = false) (h : c.req.method ≠ str "OPTIONS") : Passes (CORS allowed) c := by
  refine passes_effects ha ?_
  simp only [if_neg h, List.append_nil]
  split_ifs <;> simp [Effect.IsHeader]

theorem passes_securityHeaders {csp : Bytes} {hsts : Bool} (ha : c.aborted = false) : Passes (SecurityHeaders csp hsts) c := by
  refine passes_effects ha ?_
  split_ifs <;> simp [Effect.IsHeader]

theorem passes_extraHeaders {headers : List (Bytes × Bytes)} (ha : c.aborted = false) : Passes (ExtraHeaders headers) c := by
  refine passes_effects ha ?_
  intro e he
  obtain ⟨_, -, rfl⟩ := List.mem_map.1 he
  trivial

theorem passes_metrics : Passes Metrics c := fun _ => ⟨c.header, rfl⟩

theorem passes_traceID (fresh : Bytes) (ha : c.aborted = false) : Passes (TraceID fresh) c := by
  refine passes_effects ha ?_
  simp [Effect.IsHeader]

theorem front_passes (ha : c.aborted = false) (ho : c.req.method ≠ str "OPTIONS") (hp : cfg.passes c.req.path)
    (hs : List (Handler Ctx)) :
    ∃ hd, serve Ctx.aborted (cfg.front ++ hs) c = serve Ctx.aborted hs { c with header := hd } := by
  refine serve_passes ?_ hs
  intro x hx hd
  simp only [RouterConfig.front, List.cons_append, List.nil_append, List.mem_cons, List.mem_append, Option.mem_toList,
    Option.map_eq_some_iff, List.not_mem_nil, or_false] at hx
  rcases hx with rfl | rfl | rfl | rfl | rfl | ⟨e, he, rfl⟩ | rfl
  · exact passes_metrics
  · exact passes_cors ha ho
  · exact passes_securityHeaders ha
  · exact passes_extraHeaders ha
  · exact passes_blockInnerPaths ha hp.1
  · exact passes_edgeForward ha (hp.2.1 e he)
  · exact passes_blockInnerPaths ha hp.2.2

theorem auditTrail_returned {req : Bytes → Bytes} {start : Int} {d : Ctx}
    (hs : shouldAudit c.req.method c.req.path = true) (ho : c.req.method ≠ str "OPTIONS") (hf : c.fullPath ≠ []) (ht : c.trail = [])
    (h : serve Ctx.aborted (AuditTrail u req start :: cfg.audited u r) c = .returned d) :
    ∃ e, d.trail = [e] ∧ (e.result = resultSuccess → d.status < 400 ∧
      (containsStr (toLowerAscii (d.header contentTypeKey)) (str "json") = true →
        ∀ n b, d.written = c.written ++ b → Envelope n b → n = 0)) := by
  have hin : Inside { c with head := some [] } (serve Ctx.aborted (cfg.audited u r) { c with head := some [] }).state :=
    stable_inside.audited (.refl rfl)
  rw [AuditTrail, serve] at h
  simp only [hs, Bool.not_true, Bool.false_eq_true, or_false, if_neg ho] at h
  cases hd : serve Ctx.aborted (cfg.audited u r) { c with head := some [] } with
  | panicked d' => rw [hd] at h; cases h
  | returned d' =>
    rw [hd] at h hin
    obtain rfl := End.returned.inj h
    obtain ⟨h1, h2, -, b', h4, h5⟩ := hin
    have hfp : d'.fullPath ≠ [] := h1.symm ▸ hf
    have hrec : ¬ (d'.fullPath = [] ∧ d'.status = 404) := fun hn => hfp hn.1
    rw [record, if_neg hrec, if_neg hfp]
    refine ⟨auditEvent req start (peekBodyIDs u c.req) d'.fullPath d', ?_, fun hres => ?_⟩
    · show d'.trail ++ [_] = _
      rw [show d'.trail = [] from h2.trans ht]
      rfl
    obtain ⟨hst, hcode⟩ := auditResult_success hres
    refine ⟨hst, fun hj n b hw he => hcode n ?_⟩
    have hb : b' = b := List.append_cancel_left (h4.symm.trans hw)
    rw [show d'.head = some (b.take 512) from hb ▸ h5]
    exact he.code hj

theorem recovered_recoverWith : (recoverWith c).recovered = true := by
  simp only [recoverWith, abortWithStatusJSON, applyAll, List.foldl_cons, List.foldl_nil, Effect.apply]
  split_ifs <;> rfl

/-- `Inside` for a whole request of the main port. -/
theorem answer_audited (cfg : RouterConfig) (r : Route) (req : Request) (fullPath clientIP : Bytes)
    (hs : shouldAudit req.method req.path = true) (ho : req.method ≠ str "OPTIONS") (hf : fullPath ≠ []) (hp : cfg.passes req.path)
    (hr : (answer (NewRouter u cfg r) req fullPath clientIP).recovered = false) :
    ∃ e, (answer (NewRouter u cfg r) req fullPath clientIP).trail = [e] ∧ (e.result = resultSuccess →
      (answer (NewRouter u cfg r) req fullPath clientIP).status < 400 ∧
      (containsStr (toLowerAscii ((answer (NewRouter u cfg r) req fullPath clientIP).header contentTypeKey)) (str "json") = true →
        ∀ n, Envelope n (answer (NewRouter u cfg r) req fullPath clientIP).written → n = 0)) := by
  set c := Ctx.start req fullPath clientIP with hc
  obtain ⟨hd, htrace⟩ := passes_traceID (c := c) cfg.freshTrace rfl
    (Recovery :: (cfg.front ++ ([AuditTrail u cfg.redactQuery cfg.start] ++ cfg.audited u r)))
  obtain ⟨hd', hfront⟩ := front_passes (c := { c with header := hd }) rfl ho hp
    ([AuditTrail u cfg.redactQuery cfg.start] ++ cfg.audited u r)
  have hans : answer (NewRouter u cfg r) req fullPath clientIP =
      (serve Ctx.aborted (Recovery :: (cfg.front ++ ([AuditTrail u cfg.redactQuery cfg.start] ++ cfg.audited u r)))
        { c with header := hd }).state := by
    rw [← htrace]
    simp only [answer, NewRouter, List.append_assoc, ← hc]
    rfl
  rw [hans] at hr ⊢
  rw [Recovery, serve, hfront] at hr ⊢
  cases he : serve Ctx.aborted ([AuditTrail u cfg.redactQuery cfg.start] ++ cfg.audited u r) { c with header := hd' } with
  | panicked d => rw [he] at hr; exact absurd (recovered_recoverWith.symm.trans hr) (by decide)
  | returned d =>
    obtain ⟨e, h1, h2⟩ := auditTrail_returned (c := { c with header := hd' }) hs ho hf rfl he
    refine ⟨e, h1, fun hres => ⟨(h2 hres).1, fun hj n hn => (h2 hres).2 hj n d.written rfl hn⟩⟩

def succeed : Behaviour where
  effects _ := [.status 200, .contentType (str "application/json; charset=utf-8"), .write (statusBody 0 (str "success"))]
  panics _ := false

def plainRoute : Route := ⟨[], [], succeed⟩

def plainPost (path : Bytes) : Request :=
  { method := str "POST", path, rawQuery := [], header := fun _ => [], body := none, contentLength := 0 }

def edgeConfig : RouterConfig where
  freshTrace := str "t"
  corsAllowedOrigins := []
  csp := str "default-src 'self'"
  hsts := false
  extraResponseHeaders := []
  innerPortPaths := [str "/sync"]
  edge := some
    { forward := [str "/api/v1alpha1/approval/create"]
      includes := [str "/api/v1alpha1/node/get", str "/api/v1alpha1/node/update"]
      login := fun _ => true
      denied := fun _ => []
      proxy := succeed.effects }
  disabledRoutes := []
  redactQuery := id
  start := 0
  rateLimited _ := false
  maxBodySize := 33554432
  uploadLimits := []
  floats := .integers
  mapOrder := ⟨id, fun _ => .refl _⟩
  message := id

def nodeUpdate : Bytes := str "/api/v1alpha1/node/update"

theorem nodeUpdate_audited :
    ∃ e, (answer (NewRouter .asciiCase edgeConfig plainRoute) (plainPost nodeUpdate) nodeUpdate []).trail = [e] ∧
      (e.result = resultSuccess →
        (answer (NewRouter .asciiCase edgeConfig plainRoute) (plainPost nodeUpdate) nodeUpdate []).status < 400 ∧
        (containsStr (toLowerAscii ((answer (NewRouter .asciiCase edgeConfig plainRoute) (plainPost nodeUpdate) nodeUpdate []).header
          contentTypeKey)) (str "json") = true →
          ∀ n, Envelope n (answer (NewRouter .asciiCase edgeConfig plainRoute) (plainPost nodeUpdate) nodeUpdate []).written → n = 0)) := by
  refine answer_audited edgeConfig plainRoute (plainPost nodeUpdate) nodeUpdate [] (by decide +kernel) (by decide +kernel)
    (by decide +kernel) ⟨by decide +kernel, ?_, by decide +kernel⟩ (by decide +kernel)
  rintro e ⟨⟩
  exact ⟨by decide +kernel, fun _ => by decide +kernel⟩

/-- Neither a forwarded request nor one of the inner port is recorded. -/
theorem forwarded_inner_unrecorded :
    (shouldAudit (str "POST") (str "/api/v1alpha1/approval/create") = true ∧
      (answer (NewRouter .asciiCase edgeConfig plainRoute) (plainPost (str "/api/v1alpha1/approval/create"))
        (str "/api/v1alpha1/approval/create") []).written = statusBody 0 (str "success") ∧
      (answer (NewRouter .asciiCase edgeConfig plainRoute) (plainPost (str "/api/v1alpha1/approval/create"))
        (str "/api/v1alpha1/approval/create") []).trail.length = 0) ∧
    shouldAudit (str "POST") (str "/api/v1alpha1/data/sync") = true ∧
      (answer (NewInnerRouter edgeConfig plainRoute) (plainPost (str "/api/v1alpha1/data/sync"))
        (str "/api/v1alpha1/data/sync") []).handled.isSome = true ∧
      (answer (NewInnerRouter edgeConfig plainRoute) (plainPost (str "/api/v1alpha1/data/sync"))
        (str "/api/v1alpha1/data/sync") []).trail.length = 0 := by
  decide +kernel

end Http
