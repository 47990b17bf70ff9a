import Privahub.Http.AuditComplete
import Privahub.Http.Spellings

/-!
# The audited ids are the ids that are used

`audited_ids_used`: where the audit reader sees the body at all and one of the keys that bind to an id field
is spelled in one of its two spellings, the event holds what the handler binds. The reader looks at
the raw body and the handler at the expanded one; what ties them is that a body is passed on only if
the keys of one canonical name have one value (`checkJSONKeys_iff`), and that every key of the expanded
body has the canonical name and the value of a key of the raw one (`member_of_expanded`).
-/

namespace Http

open Json

variable {fl : Floats} {u : CaseTables} {o : MapOrder}

/-- What `encoding/json` leaves in the string field of tag `t`, `none` for a value of another type. -/
def bindString (u : CaseTables) (tags : List Bytes) (t : Bytes) (ms : List (Bytes × Json)) : Option Bytes :=
  ms.foldl (fun acc m =>
    if matchTag u tags (unquote m.1) = some t then
      match m.2 with
      | .str lit => acc.map fun _ => unquote lit
      | .null => acc
      | _ => none
    else acc) (some [])

/-- What binding the body of a request leaves in that field. -/
def bindBody (u : CaseTables) (tags : List Bytes) (t : Bytes) (req : Request) : Option Bytes :=
  match req.body.bind fun b => parse b.content with
  | some (.obj ms) => bindString u tags t ms
  | _ => none

theorem member_of_bindString {tags : List Bytes} {t v : Bytes} {ms : List (Bytes × Json)} (h : bindString u tags t ms = some v)
    (hne : v ≠ []) : ∃ m ∈ ms, matchTag u tags (unquote m.1) = some t ∧ ∃ lit, m.2 = .str lit ∧ v = unquote lit := by
  induction ms using List.reverseRecOn generalizing v with
  | nil => exact absurd (Option.some.inj h).symm hne
  | append_singleton ms m ih =>
    have hlift : (∃ m ∈ ms, matchTag u tags (unquote m.1) = some t ∧ ∃ lit, m.2 = .str lit ∧ v = unquote lit) →
        ∃ m' ∈ ms ++ [m], matchTag u tags (unquote m'.1) = some t ∧ ∃ lit, m'.2 = .str lit ∧ v = unquote lit := by
      rintro ⟨m', hm', hrest⟩
      exact ⟨m', List.mem_append_left _ hm', hrest⟩
    rw [bindString, List.foldl_append, List.foldl_cons, List.foldl_nil, ← bindString] at h
    by_cases hm : matchTag u tags (unquote m.1) = some t
    · rw [if_pos hm] at h
      cases hv : m.2 with
      | str lit =>
        rw [hv] at h
        obtain ⟨w, -, rfl⟩ := Option.map_eq_some_iff.1 h
        exact ⟨m, by simp, hm, lit, hv, rfl⟩
      | null => rw [hv] at h; exact hlift (ih h hne)
      | _ => rw [hv] at h; cases h
    · rw [if_neg hm] at h
      exact hlift (ih h hne)

theorem canonical_repair (k : Bytes) : CanonicalJSONKey u (repair k) = CanonicalJSONKey u k := by
  rw [CanonicalJSONKey, runes_repair, ← CanonicalJSONKey]

theorem mem_decodeMembers {ms l : List (Bytes × Json)} (h : decodeMembers fl ms = some l) {m : Bytes × Json} (hm : m ∈ l) :
    ∃ m₀ ∈ ms, m.1 = unquote m₀.1 ∧ decodeAny fl m₀.2 = some m.2 := by
  induction ms generalizing l with
  | nil => obtain rfl := Option.some.inj h; exact absurd hm List.not_mem_nil
  | cons e ms ih =>
    obtain ⟨k, v⟩ := e
    simp only [decodeMembers, Option.bind_eq_some_iff, Option.map_eq_some_iff] at h
    obtain ⟨w, hw, l', hl', rfl⟩ := h
    rcases List.mem_cons.1 hm with rfl | hm
    · exact ⟨(k, v), List.mem_cons_self .., rfl, hw⟩
    · obtain ⟨m₀, hm₀, hrest⟩ := ih hl' hm
      exact ⟨m₀, List.mem_cons_of_mem _ hm₀, hrest⟩

theorem of_mem_twins {e m : Bytes × Json} (h : m ∈ twins u e) : m.2 = e.2 ∧ CanonicalJSONKey u m.1 = CanonicalJSONKey u e.1 := by
  rcases List.mem_append.1 h with h | h <;> split_ifs at h with hc
  · exact List.mem_singleton.1 h ▸ ⟨rfl, hc.2⟩
  · exact absurd h List.not_mem_nil
  · exact List.mem_singleton.1 h ▸ ⟨rfl, hc.2⟩
  · exact absurd h List.not_mem_nil

def expanded (u : CaseTables) (o : MapOrder) (ms : List (Bytes × Json)) : List (Bytes × Json) :=
  ((o.order (expandMembers u o ms)).flatMap (twins u)).foldl addTwin (expandMembers u o ms)

theorem of_mem_expanded {ms : List (Bytes × Json)} {m : Bytes × Json} (h : m ∈ expanded u o ms) :
    ∃ m₀ ∈ ms, m.2 = expandKeys u o m₀.2 ∧ CanonicalJSONKey u m.1 = CanonicalJSONKey u m₀.1 := by
  have hmem : ∀ e ∈ expandMembers u o ms, ∃ m₀ ∈ ms, e.2 = expandKeys u o m₀.2 ∧ e.1 = m₀.1 := fun e he => by
    rw [expandMembers_eq] at he
    obtain ⟨m₀, hm₀, rfl⟩ := List.mem_map.1 he
    exact ⟨m₀, hm₀, rfl, rfl⟩
  rcases mem_of_mem_foldl_addTwin h with hm | hm
  · obtain ⟨m₀, hm₀, hv, hk⟩ := hmem m hm
    exact ⟨m₀, hm₀, hv, by rw [hk]⟩
  · obtain ⟨e, he, hm⟩ := List.mem_flatMap.1 hm
    obtain ⟨m₀, hm₀, hv, hk⟩ := hmem e ((o.perm _).mem_iff.1 he)
    exact ⟨m₀, hm₀, (of_mem_twins hm).1.trans hv, (of_mem_twins hm).2.trans (by rw [hk])⟩

theorem mem_encode_obj {ms ws : List (Bytes × Json)} (h : encode (.obj ms) = .obj ws) {w : Bytes × Json} (hw : w ∈ ws) :
    ∃ m ∈ ms, w.1 = escape m.1 ∧ w.2 = encode m.2 := by
  rw [encode, Json.obj.injEq] at h
  rw [← h] at hw
  obtain ⟨e, he, rfl⟩ := List.mem_map.1 hw
  have he := (List.perm_insertionSort _ _).mem_iff.1 he
  rw [encodeMembers_eq] at he
  obtain ⟨m, hm, rfl⟩ := List.mem_map.1 he
  exact ⟨m, hm, rfl, rfl⟩

theorem wf_expanded {v w : Json} (h : decodeAny fl v = some w) : Wf (encode (expandKeys u o w)) := by
  refine wf_encode _ fun lit hl => numLit_of_decodeAny h lit ?_
  rw [expandKeys_eq] at hl
  exact numbers_addSpellings w lit hl

theorem str_of_encode {v : Json} {lit : Bytes} (h : encode (expandKeys u o v) = .str lit) : ∃ s, v = .str s ∧ lit = escape s := by
  cases v with
  | str s => exact ⟨s, rfl, (Json.str.inj h).symm⟩
  | _ => cases h

theorem str_of_decodeAny {v : Json} {s : Bytes} (h : decodeAny fl v = some (.str s)) : ∃ lit, v = .str lit ∧ s = unquote lit := by
  cases v with
  | str lit => exact ⟨lit, rfl, (Json.str.inj (Option.some.inj h)).symm⟩
  | _ => simp [decodeAny] at h

theorem mem_intercalate_of_mem {α : Type} {sep l : List α} {ls : List (List α)} {x : α} (hl : l ∈ ls) (hx : x ∈ l) :
    x ∈ List.intercalate sep ls := by
  induction ls with
  | nil => exact absurd hl List.not_mem_nil
  | cons l' ls ih =>
    cases ls with
    | nil =>
      obtain rfl := List.mem_singleton.1 hl
      simpa using hx
    | cons l'' ls =>
      rw [List.intercalate_cons_cons]
      rcases List.mem_cons.1 hl with rfl | hl
      · simp [hx]
      · exact List.mem_append_right _ (ih hl)

theorem strLit_of_member {body : Bytes} {ms : List (Bytes × Json)} (hp : parse body = some (.obj ms)) {m : Bytes × Json} (hm : m ∈ ms)
    {lit : Bytes} (hv : m.2 = .str lit) : StrLit lit := by
  refine strLit_of_tokens (parse_sound hp) lit ?_
  have hmem : memberToks m ∈ toksMembers ms := by rw [toksMembers_eq]; exact List.mem_map_of_mem hm
  have hin : Token.str lit ∈ memberToks m := by simp [memberToks, hv, toks]
  rw [toks]
  refine List.mem_append_left _ (List.mem_cons_of_mem _ ?_)
  exact mem_intercalate_of_mem hmem hin

theorem member_of_expanded {body : Bytes} {ms ws : List (Bytes × Json)} (hp : parse body = some (.obj ms))
    (hw : parse (expandBody fl u o body) = some (.obj ws)) {w : Bytes × Json} (hmem : w ∈ ws) {lit : Bytes} (hlit : w.2 = .str lit) :
    ∃ m ∈ ms, CanonicalJSONKey u (unquote m.1) = CanonicalJSONKey u (unquote w.1) ∧
      ∃ lit₀, m.2 = .str lit₀ ∧ unquote lit₀ = unquote lit := by
  have hsame : parse body = some (.obj ws) → ∃ m ∈ ms, CanonicalJSONKey u (unquote m.1) = CanonicalJSONKey u (unquote w.1) ∧
      ∃ lit₀, m.2 = .str lit₀ ∧ unquote lit₀ = unquote lit := fun h => by
    obtain rfl := Json.obj.inj (Option.some.inj (hp.symm.trans h))
    exact ⟨w, hmem, rfl, lit, hlit, rfl⟩
  unfold expandBody at hw
  split_ifs at hw
  · rw [hp, Option.bind_some] at hw
    cases hd : decodeAny fl (.obj ms) with
    | none => rw [hd] at hw; exact hsame hw
    | some d =>
      rw [hd] at hw
      have htoks := (tokens_render _ (wf_expanded hd)).symm.trans (parse_sound hw)
      have henc : encode (expandKeys u o d) = .obj ws := toks_injective (Option.some.inj htoks)
      obtain ⟨l, hl, rfl⟩ := Option.map_eq_some_iff.1 hd
      obtain ⟨m, hm, hk, hv⟩ := mem_encode_obj henc hmem
      obtain ⟨m₁, hm₁, hv₁, hc₁⟩ := of_mem_expanded hm
      have hm₁ := (mem_of_mem_foldl_mapPut hm₁).resolve_left List.not_mem_nil
      obtain ⟨m₀, hm₀, hk₀, hv₀⟩ := mem_decodeMembers hl hm₁
      obtain ⟨s, hs, hlit'⟩ := str_of_encode (by rw [← hv₁, ← hv, hlit])
      rw [hs] at hv₀
      obtain ⟨lit₀, hlit₀, hs₀⟩ := str_of_decodeAny hv₀
      refine ⟨m₀, hm₀, ?_, lit₀, hlit₀, ?_⟩
      · rw [hk, unquote_escape, canonical_repair, hc₁, hk₀]
      · have hvalid := validString_unquote (strLit_of_member hp hm₀ hlit₀)
        rw [hlit', unquote_escape, hs₀, repair_eq_self hvalid]
  · exact hsame hw

theorem lookup_of_not_mem {a : List (Bytes × Bytes)} {k : Bytes} (h : ∀ e ∈ a, e.1 ≠ k) (b : List (Bytes × Bytes)) :
    lookup (a ++ b) k = lookup b k := by
  have hnone : a.find? (fun e => decide (e.1 = k)) = none := List.find?_eq_none.2 fun e he => by simpa using h e he
  rw [lookup, lookup, List.find?_append, hnone, Option.none_or]

theorem lookup_append_of_not_mem (a : List (Bytes × Bytes)) {b : List (Bytes × Bytes)} {k : Bytes} (h : ∀ e ∈ b, e.1 ≠ k) :
    lookup (a ++ b) k = lookup a k := by
  have hnone : b.find? (fun e => decide (e.1 = k)) = none := List.find?_eq_none.2 fun e he => by simpa using h e he
  rw [lookup, lookup, List.find?_append, hnone, Option.or_none]

theorem lookup_filter {a : List (Bytes × Bytes)} {k k' : Bytes} (h : k ≠ k') :
    lookup (a.filter fun e => decide (e.1 ≠ k')) k = lookup a k := by
  rw [lookup, lookup, List.find?_filter]
  congr 3
  funext e
  by_cases he : e.1 = k
  · simp [he, h]
  · simp [he]

theorem lookup_ids {g : Bytes → Bytes} {fs : List Bytes} {f : Bytes} (hf : f ∈ fs) :
    lookup (fs.filterMap fun f => if g f ≠ [] then some (f, g f) else none) f = g f := by
  induction fs with
  | nil => exact absurd hf List.not_mem_nil
  | cons f' fs ih =>
    by_cases hff : f' = f
    · subst hff
      by_cases hg : g f' = []
      · -- an empty id is left out wherever its field stands
        have hnone : ∀ e ∈ (f' :: fs).filterMap (fun f => if g f ≠ [] then some (f, g f) else none), e.1 ≠ f' := by
          intro e he
          obtain ⟨f, -, hfe⟩ := List.mem_filterMap.1 he
          split_ifs at hfe with hne
          obtain rfl := Option.some.inj hfe
          rintro rfl
          exact hne hg
        have := lookup_of_not_mem hnone []
        rw [List.append_nil] at this
        rw [this, hg]; rfl
      · simp [hg, lookup]
    · have hf := (List.mem_cons.1 hf).resolve_left (Ne.symm hff)
      rw [List.filterMap_cons]
      split_ifs
      · simpa [lookup, hff] using ih hf
      · exact ih hf

theorem ne_of_mem_auditIDFields {f : Bytes} (hf : f ∈ auditIDFields) :
    f ≠ str "name" ∧ f ≠ str "status" ∧ f ≠ str "claimedUser" ∧ f ≠ str "query" ∧ f ≠ str "code" := by
  have hall : ∀ f ∈ auditIDFields,
      f ≠ str "name" ∧ f ≠ str "status" ∧ f ≠ str "claimedUser" ∧ f ≠ str "query" ∧ f ≠ str "code" := by decide +kernel
  exact hall f hf

theorem lookup_extra {redact : Bytes → Bytes} {start : Int} {ids : List (Bytes × Bytes)} {route : Bytes} {c : Ctx} {f : Bytes}
    (hf : f ∈ auditIDFields) : lookup (auditEvent redact start ids route c).extra f = lookup ids f := by
  obtain ⟨h1, h2, h3, h4, h5⟩ := ne_of_mem_auditIDFields hf
  simp only [auditEvent]
  rw [lookup_append_of_not_mem, lookup_append_of_not_mem, List.append_assoc, lookup_of_not_mem, lookup_of_not_mem, lookup_filter h1]
  · split_ifs <;> simp [h3.symm]
  · simp [h2.symm]
  · split_ifs <;> simp [h4.symm]
  · cases codeOf (c.header contentTypeKey) (c.head.getD []) <;> simp [h5.symm]

theorem lookup_peekBodyIDs {req : Request} {ms : List (Bytes × Json)} {f : Bytes} (hf : f ∈ auditIDFields)
    (h : peekObject req = some ms) : lookup (peekBodyIDs u req) f = getID u ms f := by
  rw [peekBodyIDs, h]
  simp only
  split_ifs
  · rw [lookup_append_of_not_mem, lookup_ids hf]
    intro e he
    rw [Option.mem_toList, Option.map_eq_some_iff] at he
    obtain ⟨-, -, rfl⟩ := he
    exact (ne_of_mem_auditIDFields hf).1.symm
  · exact lookup_ids hf

theorem peekObject_eq {req : Request} {b : Body} {ms : List (Bytes × Json)} (hb : req.body = some b)
    (hct : req.header contentTypeKey = [] ∨ containsStr (toLowerAscii (req.header contentTypeKey)) (str "json") = true)
    (hc : b.complete = true) (hp : parse b.content = some (.obj ms)) : peekObject req = some ms := by
  have ht := parse_trimSpace hp
  have hhead : (Utf8.trimSpace b.content).head? = some 123 := head_of_object (parse_sound hp)
  have hno : ¬ (req.header contentTypeKey ≠ [] ∧ (!containsStr (toLowerAscii (req.header contentTypeKey)) (str "json")) = true) := by
    rintro ⟨h1, h2⟩
    rcases hct with h | h
    · exact h1 h
    · rw [h] at h2; cases h2
  simp only [peekObject, hb, if_neg hno, hc, hhead, ht, Bool.not_true, Bool.false_eq_true, if_false, ne_eq, not_true_eq_false]

theorem lastValue_some {ms : List (Bytes × Json)} {k : Bytes} {v : Json} (h : lastValue ms k = some v) : ∃ m ∈ ms, unquote m.1 = k ∧ m.2 = v := by
  obtain ⟨m, hm, rfl⟩ := Option.map_eq_some_iff.1 h
  exact ⟨m, List.mem_reverse.1 (List.mem_of_find?_eq_some hm), by simpa using List.find?_some hm, rfl⟩

theorem lastValue_none {ms : List (Bytes × Json)} {k : Bytes} (h : lastValue ms k = none) : ∀ m ∈ ms, unquote m.1 ≠ k := by
  intro m hm
  have := List.find?_eq_none.1 (Option.map_eq_none_iff.1 h) m (List.mem_reverse.2 hm)
  simpa using this

/-- If all keys of the field's canonical name hold one string and one of them is spelled as the reader looks for it, it reads that string. -/
theorem getID_eq {ms : List (Bytes × Json)} {f lit : Bytes}
    (hall : ∀ m ∈ ms, CanonicalJSONKey u (unquote m.1) = CanonicalJSONKey u f → m.2 = .str lit) {m : Bytes × Json} (hm : m ∈ ms)
    (hc : CanonicalJSONKey u (unquote m.1) = CanonicalJSONKey u f) (hk : unquote m.1 = f ∨ unquote m.1 = toSnakeCase u f) :
    getID u ms f = Utf8.trimSpace (unquote lit) := by
  cases hl : lastValue ms f with
  | some v =>
    obtain ⟨m', hm', hk', rfl⟩ := lastValue_some hl
    simp [getID, hl, hall m' hm' (by rw [hk']), idText]
  | none =>
    have hk : unquote m.1 = toSnakeCase u f := hk.resolve_left (lastValue_none hl m hm)
    cases hs : lastValue ms (toSnakeCase u f) with
    | some v =>
      obtain ⟨m', hm', hk', rfl⟩ := lastValue_some hs
      simp [getID, hl, hs, hall m' hm' (by rw [hk', ← hk, hc]), idText]
    | none => exact absurd hk (lastValue_none hs m hm)

open Chain

variable {cfg : RouterConfig} {r : Route} {req req' : Request} {c d : Ctx} {hs : List (Handler Ctx)}

structure Untouched (req : Request) (c : Ctx) : Prop where
  req : c.req = req
  trail : c.trail = []
  handled : c.handled = none

theorem applyAll_keeps (c : Ctx) (es : List Effect) : (applyAll c es).req = c.req ∧ (applyAll c es).handled = c.handled := by
  induction es generalizing c with
  | nil => exact ⟨rfl, rfl⟩
  | cons e es ih =>
    have he : (e.apply c).req = c.req ∧ (e.apply c).handled = c.handled := by
      cases e with
      | contentType v => unfold Effect.apply; split_ifs <;> exact ⟨rfl, rfl⟩
      | _ => exact ⟨rfl, rfl⟩
    exact ⟨(ih _).1.trans he.1, (ih _).2.trans he.2⟩

theorem aborted_json (c : Ctx) (n : Int) (body : Bytes) : (applyAll c (abortWithStatusJSON n body)).aborted = true := by
  simp only [abortWithStatusJSON, applyAll, List.foldl_cons, List.foldl_nil, Effect.apply]
  split_ifs <;> rfl

theorem aborted_reject (c : Ctx) (message : Bytes → Bytes) (err : Option CheckError) :
    (applyAll c (rejectBody message err)).aborted = true := by
  unfold rejectBody
  split <;> exact aborted_json c _ _

theorem Untouched.effects (h : Untouched req c) (es : List Effect) : Untouched req (applyAll c es) := by
  have hk := applyAll_keeps c es
  exact ⟨hk.1.trans h.req, (stable_trail []).effects es h.trail, hk.2.trans h.handled⟩

theorem serve_effects (f : Ctx → List Effect) (hs : List (Handler Ctx)) (h : Untouched req c) :
    ∃ d, Untouched req d ∧ (serve Ctx.aborted (effects f :: hs) c = serve Ctx.aborted hs d ∨
      serve Ctx.aborted (effects f :: hs) c = .returned d) := by
  refine ⟨applyAll c (f c), h.effects _, ?_⟩
  rw [Http.effects, serve]
  by_cases ha : (applyAll c (f c)).aborted = true
  · exact .inr (by simp only [ha, if_true])
  · exact .inl (by simp only [ha]; rfl)

theorem serve_untouched {xs : List (Handler Ctx)} (hx : ∀ x ∈ xs, x = Metrics ∨ ∃ f, x = effects f) (hs : List (Handler Ctx))
    (h : Untouched req c) : ∃ d, Untouched req d ∧
      (serve Ctx.aborted (xs ++ hs) c = serve Ctx.aborted hs d ∨ serve Ctx.aborted (xs ++ hs) c = .returned d) := by
  induction xs generalizing c with
  | nil => exact ⟨c, h, .inl rfl⟩
  | cons x xs ih =>
    have ih := fun d hd => ih (c := d) (fun y hy => hx y (List.mem_cons_of_mem _ hy)) hd
    rcases hx x (List.mem_cons_self ..) with rfl | ⟨f, rfl⟩
    · exact ih c h
    · obtain ⟨d, hd, he | he⟩ := serve_effects f (xs ++ hs) h
      · obtain ⟨d', hd', he'⟩ := ih d hd
        exact ⟨d', hd', he'.imp he.trans he.trans⟩
      · exact ⟨d, hd, .inr he⟩

/-- What `Recovery` makes of the end of the chain. -/
def recovered : End Ctx → Ctx
  | .returned d => d
  | .panicked d => recoverWith d

theorem answer_cases (cfg : RouterConfig) (r : Route) (req : Request) (fullPath clientIP : Bytes) :
    ∃ d, Untouched req d ∧ (answer (NewRouter u cfg r) req fullPath clientIP = d ∨
      answer (NewRouter u cfg r) req fullPath clientIP =
        recovered (serve Ctx.aborted (AuditTrail u cfg.redactQuery cfg.start :: cfg.audited u r) d)) := by
  have hstart : Untouched req (Ctx.start req fullPath clientIP) := ⟨rfl, rfl, rfl⟩
  have hfront : ∀ x ∈ cfg.front, x = Metrics ∨ ∃ f, x = effects f := by
    intro x hx
    simp only [RouterConfig.front, List.cons_append, List.nil_append, List.mem_cons, List.mem_append, Option.mem_toList,
      Option.map_eq_some_iff, List.not_mem_nil, or_false] at hx
    rcases hx with rfl | rfl | rfl | rfl | rfl | ⟨e, -, rfl⟩ | rfl
    · exact .inl rfl
    all_goals exact .inr ⟨_, rfl⟩
  have hans : answer (NewRouter u cfg r) req fullPath clientIP =
      (serve Ctx.aborted (TraceID cfg.freshTrace :: (Recovery :: (cfg.front ++ (AuditTrail u cfg.redactQuery cfg.start :: cfg.audited u r))))
        (Ctx.start req fullPath clientIP)).state := by
    simp only [answer, NewRouter, List.append_assoc]
    rfl
  rw [hans]
  obtain ⟨d, hd, he | he⟩ := serve_effects _ (Recovery :: (cfg.front ++ (AuditTrail u cfg.redactQuery cfg.start :: cfg.audited u r))) hstart
  · rw [TraceID, he, Recovery, serve]
    obtain ⟨d', hd', he' | he'⟩ := serve_untouched hfront (AuditTrail u cfg.redactQuery cfg.start :: cfg.audited u r) hd
    · refine ⟨d', hd', .inr ?_⟩
      rw [he']
      cases serve Ctx.aborted (AuditTrail u cfg.redactQuery cfg.start :: cfg.audited u r) d' <;> rfl
    · exact ⟨d', hd', .inl (by rw [he']; rfl)⟩
  · exact ⟨d, hd, .inl (by rw [TraceID, he]; rfl)⟩

theorem event_of_mem_trail {fullPath clientIP : Bytes} {e : Audit.Event}
    (he : e ∈ (answer (NewRouter u cfg r) req fullPath clientIP).trail) :
    ∃ route c, e = auditEvent cfg.redactQuery cfg.start (peekBodyIDs u req) route c := by
  obtain ⟨d, hd, hans | hans⟩ := answer_cases (u := u) cfg r req fullPath clientIP
  · rw [hans, hd.trail] at he
    exact absurd he List.not_mem_nil
  rw [hans, AuditTrail, serve] at he
  have hnext : ∀ d' : Ctx, d'.trail = [] → (serve Ctx.aborted (cfg.audited u r) d').state.trail = [] :=
    fun d' h => (stable_trail []).audited h
  have hrec : ∀ d' : Ctx, d'.trail = [] → (recoverWith d').trail = [] := fun d' h => (stable_trail []).effects _ h
  split_ifs at he with hsel
  · have ht := hnext d hd.trail
    cases hs : serve Ctx.aborted (cfg.audited u r) d with
    | returned d' => rw [hs] at he ht; exact absurd he (by rw [recovered, show d'.trail = [] from ht]; exact List.not_mem_nil)
    | panicked d' => rw [hs] at he ht; exact absurd he (by rw [recovered, hrec d' ht]; exact List.not_mem_nil)
  · have ht := hnext { d with head := some [] } hd.trail
    cases hs : serve Ctx.aborted (cfg.audited u r) { d with head := some [] } with
    | panicked d' => rw [hs] at he ht; exact absurd he (by rw [recovered, hrec d' ht]; exact List.not_mem_nil)
    | returned d' =>
      rw [hs] at he ht
      have ht : d'.trail = [] := ht
      simp only [recovered, record, ht, List.nil_append, hd.req] at he
      split_ifs at he
      · exact absurd he (by simp)
      all_goals exact ⟨_, _, List.mem_singleton.1 he⟩

def served (r : Route) : List (Handler Ctx) := r.guards.map guard ++ [handler r.handler]

theorem served_handled (hc : c.handled = none) (hh : (serve Ctx.aborted (served r) c).state.handled = some req') : c.req = req' := by
  have hrun : ∀ (b : Behaviour) (d : Ctx), d.req = c.req ∧ (d.handled = none ∨ d.handled = some c.req) →
      (b.run d).state.req = c.req ∧ ((b.run d).state.handled = none ∨ (b.run d).state.handled = some c.req) := by
    intro b d hd
    have heff := applyAll_keeps d (b.effects d)
    unfold Behaviour.run
    split_ifs <;> exact ⟨heff.1.trans hd.1, by simpa only [End.state, heff.2] using hd.2⟩
  have hkeep : (serve Ctx.aborted (served r) c).state.req = c.req ∧
      ((serve Ctx.aborted (served r) c).state.handled = none ∨ (serve Ctx.aborted (served r) c).state.handled = some c.req) := by
    refine serve_keeps (P := fun d : Ctx => d.req = c.req ∧ (d.handled = none ∨ d.handled = some c.req)) ?_ c ⟨rfl, .inl hc⟩
    intro x hx
    rcases List.mem_append.1 hx with hx | hx
    · obtain ⟨b, -, rfl⟩ := List.mem_map.1 hx
      exact fun d hd => hrun b d hd
    · obtain rfl := List.mem_singleton.1 hx
      exact fun d hd => hrun r.handler { d with handled := some d.req } ⟨hd.1, .inr (by rw [hd.1])⟩
  rcases hkeep.2 with hn | hn
  · exact absurd (hn.symm.trans hh) (by simp)
  · exact Option.some.inj (hn.symm.trans hh)

theorem caseKeysRequest_handled (hc : c.handled = none)
    (hh : (serve Ctx.aborted (CaseKeysRequest cfg.floats u cfg.mapOrder cfg.message :: served r) c).state.handled = some req') :
    caseKeys cfg.floats u cfg.mapOrder c.req = .next req' := by
  have habort : ∀ es : List Effect, (applyAll c es).aborted = true →
      (if (applyAll c es).aborted = true then End.returned (applyAll c es)
        else serve Ctx.aborted (served r) (applyAll c es)).state.handled ≠ some req' := by
    intro es ha
    rw [if_pos ha]
    show (applyAll c es).handled ≠ some req'
    rw [(applyAll_keeps c es).2, hc]
    simp
  rw [CaseKeysRequest, serve] at hh
  cases hk : caseKeys cfg.floats u cfg.mapOrder c.req with
  | next q =>
    rw [hk] at hh
    simp only at hh
    split_ifs at hh
    · exact absurd (hc.symm.trans hh) (by simp)
    · exact congrArg _ (served_handled (c := { c with req := q }) hc hh)
  | tooLarge => rw [hk] at hh; exact absurd hh (habort _ (aborted_json c 413 _))
  | reject err => rw [hk] at hh; exact absurd hh (habort _ (aborted_reject c _ err))

theorem audited_handled (h : Untouched req c) (hh : (serve Ctx.aborted (cfg.audited u r) c).state.handled = some req') :
    ∃ reqL, (reqL = req ∨ ∃ n, reqL = { req with body := some (maxBytesReader n req.body) }) ∧
      caseKeys cfg.floats u cfg.mapOrder reqL = .next req' := by
  have hsplit : cfg.audited u r = RateLimiter cfg.rateLimited :: (BodyLimitWithOverrides cfg.maxBodySize cfg.uploadLimits ::
      (CaseKeysRequest cfg.floats u cfg.mapOrder cfg.message :: served r)) := by
    simp [RouterConfig.audited, served]
  rw [hsplit] at hh
  obtain ⟨d, hd, he | he⟩ : ∃ d, Untouched req d ∧ (_ ∨ _) := serve_effects _ (BodyLimitWithOverrides cfg.maxBodySize cfg.uploadLimits ::
      (CaseKeysRequest cfg.floats u cfg.mapOrder cfg.message :: served r)) h
  · rw [RateLimiter, he, BodyLimitWithOverrides, serve] at hh
    obtain rfl := hd.req
    simp only at hh
    split_ifs at hh with h1 h2 h3 h4 h5
    · exact absurd (hd.handled.symm.trans hh) (by simp)
    · exact ⟨_, .inl rfl, caseKeysRequest_handled hd.handled hh⟩
    · exact absurd ((applyAll_keeps d _).2.symm.trans hh) (by simp [hd.handled])
    · exact absurd (aborted_json d 413 _) h4
    · exact absurd (hd.handled.symm.trans hh) (by simp)
    · exact ⟨_, .inr ⟨_, rfl⟩, caseKeysRequest_handled (c := { d with req := _ }) hd.handled hh⟩
  · rw [RateLimiter, he] at hh
    exact absurd (hd.handled.symm.trans hh) (by simp)

theorem handled_of_answer {fullPath clientIP : Bytes} (hh : (answer (NewRouter u cfg r) req fullPath clientIP).handled = some req') :
    ∃ reqL, (reqL = req ∨ ∃ n, reqL = { req with body := some (maxBytesReader n req.body) }) ∧
      caseKeys cfg.floats u cfg.mapOrder reqL = .next req' := by
  obtain ⟨d, hd, hans | hans⟩ := answer_cases (u := u) cfg r req fullPath clientIP
  · exact absurd (hd.handled.symm.trans (hans ▸ hh)) (by simp)
  rw [hans, AuditTrail, serve] at hh
  have hend : ∀ e : End Ctx, (recovered e).handled = e.state.handled := fun e => by
    cases e with
    | returned d => rfl
    | panicked d => exact (applyAll_keeps { d with recovered := true } _).2
  rw [hend] at hh
  split_ifs at hh with hsel
  · exact audited_handled hd hh
  · have hu : Untouched req { d with head := some [] } := ⟨hd.req, hd.trail, hd.handled⟩
    refine audited_handled (r := r) hu ?_
    rw [← hh]
    cases serve Ctx.aborted (cfg.audited u r) { d with head := some [] } with
    | panicked d' => rfl
    | returned d' =>
      simp only [End.state, record]
      split_ifs <;> rfl

variable {b : Body} {ms : List (Bytes × Json)}

theorem caseKeys_next (hb : req.body = some b) (hform : isFormContentType (req.header contentTypeKey) = false)
    (hlen : req.contentLength ≠ 0) (hp : parse b.content = some (.obj ms)) (h : caseKeys fl u o req = .next req') :
    b.ending = .eof ∧ OneValue u ms ∧ req'.body = some ⟨expandBody fl u o b.content, .eof⟩ := by
  have hhead : (Utf8.trimSpace b.content).head? = some 123 := head_of_object (parse_sound hp)
  have hjson : ¬ (Utf8.trimSpace b.content = [] ∨
      ((!isJSONContentType (req.header contentTypeKey)) = true ∧ (!looksLikeJSON b.content) = true)) := by
    rintro (hn | ⟨-, hn⟩)
    · rw [hn] at hhead; cases hhead
    · rw [looksLikeJSON, hhead] at hn; cases hn
  rw [caseKeys, hform, hb] at h
  simp only [Bool.false_eq_true, if_false, if_neg hlen] at h
  cases he : b.ending with
  | eof =>
    simp only [he, if_neg hjson] at h
    cases hk : CheckJSONKeys u b.content with
    | error e => rw [hk] at h; cases h
    | ok _ =>
      rw [hk] at h
      obtain rfl := CaseKeysResult.next.inj h
      exact ⟨rfl, ((checkJSONKeys_iff hp).1 hk).1, rfl⟩
  | _ => simp only [he] at h; cases h

theorem caseKeys_limited {n : Nat} (hb : req.body = some b) (hform : isFormContentType (req.header contentTypeKey) = false)
    (hlen : req.contentLength ≠ 0) (h : caseKeys fl u o { req with body := some (maxBytesReader n req.body) } = .next req') :
    maxBytesReader n req.body = b := by
  rw [hb, maxBytesReader]
  split_ifs with hn
  · rfl
  · rw [caseKeys, hform, hb] at h
    simp only [Bool.false_eq_true, if_false, if_neg hlen, maxBytesReader, if_neg hn] at h
    cases h

/-- The raw body is an object read by the audit reader (`hsize`, `hct`) and by `CaseKeysRequest` (`hform`, `hlen`) and `m`,
one of its keys, has the canonical name of the field `f` in a spelling the audit reader knows. -/
theorem audited_ids_used (cfg : RouterConfig) (r : Route) (req req' : Request) (fullPath clientIP : Bytes) (b : Body)
    (ms : List (Bytes × Json)) (tags : List Bytes) (t f v : Bytes) (m : Bytes × Json) (e : Audit.Event)
    (hb : req.body = some b) (hsize : b.content.length ≤ auditBodyPeek)
    (hct : req.header contentTypeKey = [] ∨ containsStr (toLowerAscii (req.header contentTypeKey)) (str "json") = true)
    (hform : isFormContentType (req.header contentTypeKey) = false) (hlen : req.contentLength ≠ 0)
    (hp : parse b.content = some (.obj ms)) (hf : f ∈ auditIDFields) (hm : m ∈ ms)
    (hmc : CanonicalJSONKey u (unquote m.1) = CanonicalJSONKey u f) (hk : unquote m.1 = f ∨ unquote m.1 = toSnakeCase u f)
    (hh : (answer (NewRouter u cfg r) req fullPath clientIP).handled = some req')
    (htf : CanonicalJSONKey u t = CanonicalJSONKey u f) (hbind : bindBody u tags t req' = some v) (hne : v ≠ [])
    (he : e ∈ (answer (NewRouter u cfg r) req fullPath clientIP).trail) : lookup e.extra f = Utf8.trimSpace v := by
  obtain ⟨heof, hone, hexp⟩ : b.ending = .eof ∧ OneValue u ms ∧
      req'.body = some ⟨expandBody cfg.floats u cfg.mapOrder b.content, .eof⟩ := by
    obtain ⟨reqL, rfl | ⟨n, rfl⟩, hnext⟩ := handled_of_answer hh
    · exact caseKeys_next hb hform hlen hp hnext
    · rw [caseKeys_limited hb hform hlen hnext] at hnext
      exact caseKeys_next (show Request.body { req with body := some b } = some b from rfl) hform hlen hp hnext
  obtain ⟨ws, hw, hbind⟩ : ∃ ws, parse (expandBody cfg.floats u cfg.mapOrder b.content) = some (.obj ws) ∧ bindString u tags t ws = some v := by
    rw [bindBody, hexp, Option.bind_some] at hbind
    split at hbind
    · exact ⟨_, ‹_›, hbind⟩
    · cases hbind
  -- the bound string is that of a key of the raw body
  obtain ⟨w, hwm, hmatch, lit, hlit, rfl⟩ := member_of_bindString hbind hne
  obtain ⟨m₀, hm₀, hc₀, lit₀, hlit₀, hval⟩ := member_of_expanded hp hw hwm hlit
  have hall : ∀ x ∈ ms, CanonicalJSONKey u (unquote x.1) = CanonicalJSONKey u f → x.2 = .str lit₀ := by
    intro x hx hxc
    rw [← hlit₀]
    refine hone x hx m₀ hm₀ ?_
    rw [hxc, hc₀, canonical_of_match u hmatch, htf]
  -- and the audit reader finds it
  obtain ⟨route, c, rfl⟩ := event_of_mem_trail he
  have hcomplete : b.complete = true := by simp [Body.complete, hsize, heof]
  rw [lookup_extra hf, lookup_peekBodyIDs hf (peekObject_eq hb hct hcomplete hp), getID_eq hall hm hmc hk, hval]

def bodyPost (contentType path body : Bytes) : Request :=
  { method := str "POST", path, rawQuery := [], header := fun k => if k = contentTypeKey then contentType else []
    body := some ⟨body, .eof⟩, contentLength := body.length }

def updateWith (contentType body : Bytes) : Ctx :=
  answer (NewRouter .asciiCase edgeConfig plainRoute) (bodyPost contentType nodeUpdate body) nodeUpdate []

theorem nodeUpdate_nodeId :
    ∃ e ∈ (updateWith (str "application/json") (str "\x7b\"node_id\":\" n1\"\x7d")).trail, lookup e.extra (str "nodeId") = str "n1" := by
  set c := updateWith (str "application/json") (str "\x7b\"node_id\":\" n1\"\x7d")
  have hbound : c.handled.bind (bindBody .asciiCase [str "nodeId"] (str "nodeId")) = some (str " n1") := by decide +kernel
  obtain ⟨req', hh, hbind⟩ := Option.bind_eq_some_iff.1 hbound
  obtain ⟨e, he⟩ := List.exists_mem_of_length_pos (l := c.trail) (by decide +kernel)
  refine ⟨e, he, ?_⟩
  exact audited_ids_used edgeConfig plainRoute (bodyPost (str "application/json") nodeUpdate (str "\x7b\"node_id\":\" n1\"\x7d")) req' nodeUpdate []
    ⟨str "\x7b\"node_id\":\" n1\"\x7d", .eof⟩ [(str "node_id", .str (str " n1"))] [str "nodeId"] (str "nodeId") (str "nodeId") (str " n1")
    (str "node_id", .str (str " n1")) e rfl (by decide +kernel) (by decide +kernel) (by decide +kernel) (by decide +kernel)
    rfl (by decide +kernel) (List.mem_singleton_self _) (by decide +kernel) (by decide +kernel) hh rfl hbind (by decide +kernel) he

/-- A key in capitals, or a body sent under another type, binds to the handler's field and is not recorded. -/
theorem capitals_unrecorded :
    ((updateWith (str "application/json") (str "\x7b\"NODEID\":\"n1\"\x7d")).handled.bind (bindBody .asciiCase [str "nodeId"] (str "nodeId")) =
        some (str "n1") ∧
      (updateWith (str "application/json") (str "\x7b\"NODEID\":\"n1\"\x7d")).trail.map (fun e => lookup e.extra (str "nodeId")) = [[]]) ∧
    (updateWith (str "text/plain") (str "\x7b\"nodeId\":\"n1\"\x7d")).handled.bind (bindBody .asciiCase [str "nodeId"] (str "nodeId")) =
        some (str "n1") ∧
      (updateWith (str "text/plain") (str "\x7b\"nodeId\":\"n1\"\x7d")).trail.map (fun e => lookup e.extra (str "nodeId")) = [[]] := by
  decide +kernel

end Http
