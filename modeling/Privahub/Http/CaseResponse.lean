import Privahub.Http.DataResource
import Privahub.Lib.Float64

/-!
# Twin keys in JSON response bodies

`CaseKeysResponse` (camelcase.go) puts a writer in front of the response that keeps what is written, and
passes it on converted when the handler flushes and at the end. Both middlewares decode a body into an
`interface{}` and encode it again, so that of the body everything is kept but the spelling of its numbers
(`bodyKept_iff`).
-/

namespace Http

open Json

def caseSkipPaths : List Bytes :=
  [str "/api/v1alpha1/sync", str "/metrics", str "/api/v1alpha1/healthz", str "/api/v1alpha1/docs", str "/assets", str "/favicon.ico",
    str "/api/v1alpha1/component/"]

def shouldSkipCasePath (path : Bytes) : Bool := caseSkipPaths.any (hasPrefix path)

/-- `caseResponseWriter`; `written` is what the writer below has got. -/
structure CaseResponseWriter where
  header : Bytes → Bytes
  buf : Bytes
  written : Bytes

inductive WriterCall where
  | header (k v : Bytes)
  | write (data : Bytes)
  | flush

variable (fl : Floats) (u : CaseTables) (o : MapOrder)

/-- The data as `flushConverted` passes it on. -/
def convert (contentType data : Bytes) : Bytes :=
  if isJSONContentType contentType && looksLikeJSON data then
    match (parse data).bind (decodeAny fl) with
    | some v => marshal (camelCaseResponseKeys u o v)
    | none => data
  else data

def CaseResponseWriter.flushConverted (w : CaseResponseWriter) : CaseResponseWriter :=
  if w.buf = [] then w
  else
    { header := Function.update w.header (str "Content-Length") []
      buf := []
      written := w.written ++ convert fl u o (w.header contentTypeKey) w.buf }

def CaseResponseWriter.call (w : CaseResponseWriter) : WriterCall → CaseResponseWriter
  | .header k v => { w with header := Function.update w.header k v }
  | .write data => { w with buf := w.buf ++ data }
  | .flush => w.flushConverted fl u o

/-- The bytes of the response, for a handler that makes these calls. -/
def CaseKeysResponseBody (path : Bytes) (header : Bytes → Bytes) (calls : List WriterCall) : Bytes :=
  if !hasPrefix path (str "/api/") || shouldSkipCasePath path then
    calls.flatMap fun
      | .write data => data
      | _ => []
  else ((calls.foldl (CaseResponseWriter.call fl u o) ⟨header, [], []⟩).flushConverted fl u o).written

/-- The bodies that a handler writes, up to a flush each, with their content types. -/
def bodies : Bytes → Bytes → List WriterCall → List (Bytes × Bytes)
  | contentType, buf, [] => [(contentType, buf)]
  | contentType, buf, .header k v :: cs => bodies (if k = contentTypeKey then v else contentType) buf cs
  | contentType, buf, .write data :: cs => bodies contentType (buf ++ data) cs
  | contentType, buf, .flush :: cs => (contentType, buf) :: bodies contentType [] cs

def sent (path : Bytes) (b : Bytes × Bytes) : Bytes :=
  if !hasPrefix path (str "/api/") || shouldSkipCasePath path then b.2 else convert fl u o b.1 b.2

/-- Where `body` is one value, `out` is one that has all of it, and otherwise other spellings of its keys. -/
def BodyKept (spell : Bytes → List Bytes) (body out : Bytes) : Prop :=
  ∀ v, tokens body = some (toks v) → ∃ w, tokens out = some (toks w) ∧ OnlyAdds spell (content v) (content w)

/-- Every number is spelled as `json.Marshal` spells the float it is read into, or some number is out of range, so that the body is left alone. -/
def DigitsKept (v : Json) : Prop := (∃ lit ∈ numbers v, fl.text lit = none) ∨ ∀ lit ∈ numbers (content v), fl.text lit = some lit

/-- Where the request's body is read and encoded again, the digits of its numbers are those that come back. -/
def RequestKept (req : Request) (b : Body) : Prop :=
  isFormContentType (req.header contentTypeKey) = false → req.contentLength ≠ 0 → (Utf8.trimSpace b.content).head? = some 123 →
    ∀ v, parse b.content = some v → DigitsKept fl v

def ResponseKept (path : Bytes) (b : Bytes × Bytes) : Prop :=
  hasPrefix path (str "/api/") = true → shouldSkipCasePath path = false → isJSONContentType b.1 = true → looksLikeJSON b.2 = true →
    ∀ v, parse b.2 = some v → DigitsKept fl v

variable {fl u o} {spell : Bytes → List Bytes} {body : Bytes} {v : Json}

theorem bodyKept_refl (body : Bytes) : BodyKept spell body body := fun v hv => ⟨v, hv, onlyAdds_refl _⟩

theorem spelled_eq_iff {lit : Bytes} (h : fl.text lit ≠ none) : fl.spelled lit = lit ↔ fl.text lit = some lit := by
  obtain ⟨t, ht⟩ := Option.ne_none_iff_exists'.1 h
  rw [Floats.spelled, ht, Option.getD_some, Option.some.injEq]

theorem bodyKept_iff (hs : Spelling spell) (body : Bytes) :
    BodyKept spell body (match (parse body).bind (decodeAny fl) with
      | some v => marshal (addSpellings spell o v)
      | none => body) ↔ ∀ v, parse body = some v → DigitsKept fl v := by
  cases hp : parse body with
  | none => simpa using bodyKept_refl body
  | some v =>
    simp only [Option.bind_some, Option.some.injEq, forall_eq']
    by_cases hr : ∃ lit ∈ numbers v, fl.text lit = none
    · rw [decodeAny_out_of_range v hr]
      exact ⟨fun _ => .inl hr, fun _ => bodyKept_refl body⟩
    have hr : ∀ lit ∈ numbers v, fl.text lit ≠ none := fun lit hl hn => hr ⟨lit, hl, hn⟩
    have hnum : ∀ lit ∈ numbers (addSpellings spell o (respell fl.spelled (content v))), NumLit lit := fun lit hl =>
      numLit_of_decodeAny (decodeAny_of_range v hr) lit (numbers_addSpellings _ lit hl)
    have hout : tokens (marshal (addSpellings spell o (respell fl.spelled (content v)))) =
        some (toks (encode (addSpellings spell o (respell fl.spelled (content v))))) := tokens_render _ (wf_encode _ hnum)
    have hkept : BodyKept spell body (marshal (addSpellings spell o (respell fl.spelled (content v)))) ↔
        OnlyAdds spell (content v) (readBack spell o fl.spelled (content v)) := by
      constructor
      · intro h
        obtain ⟨w, hw, hadds⟩ := h v (parse_sound hp)
        obtain rfl := toks_injective (Option.some.inj (hout.symm.trans hw))
        exact hadds
      · intro h w hw
        obtain rfl := toks_injective (Option.some.inj ((parse_sound hp).symm.trans hw))
        exact ⟨_, hout, h⟩
    rw [decodeAny_of_range v hr]
    refine hkept.trans ((onlyAdds_iff hs _ (clean_content v (fits_of_parse hp).wf)).trans ?_)
    constructor
    · exact fun h => .inr fun lit hl => (spelled_eq_iff (hr lit (numbers_content v lit hl))).1 (h lit hl)
    · rintro (⟨lit, hl, hn⟩ | h)
      · exact absurd hn (hr lit hl)
      · exact fun lit hl => (spelled_eq_iff (hr lit (numbers_content v lit hl))).2 (h lit hl)

theorem expandBody_kept (body : Bytes) : BodyKept (twinKeys u) body (expandBody fl u o body) ↔
    ((Utf8.trimSpace body).head? = some 123 → ∀ v, parse body = some v → DigitsKept fl v) := by
  have hexp : expandKeys u o = addSpellings (twinKeys u) o := funext expandKeys_eq
  unfold expandBody
  split_ifs with h
  · rw [hexp]
    exact (bodyKept_iff (spelling_twinKeys u) body).trans ⟨fun hd _ => hd, fun hd => hd h⟩
  · exact ⟨fun _ hh => absurd hh h, fun _ => bodyKept_refl body⟩

theorem convert_kept (contentType data : Bytes) : BodyKept (camelKey u) data (convert fl u o contentType data) ↔
    (isJSONContentType contentType = true → looksLikeJSON data = true → ∀ v, parse data = some v → DigitsKept fl v) := by
  unfold convert
  split_ifs with h
  · obtain ⟨h1, h2⟩ := (Bool.and_eq_true _ _).mp h
    exact (bodyKept_iff (spelling_camelKey u) data).trans ⟨fun hd _ _ => hd, fun hd => hd h1 h2⟩
  · exact ⟨fun _ h1 h2 => absurd (by rw [h1, h2]; rfl) h, fun _ => bodyKept_refl data⟩

theorem caseKeys_kept {req req' : Request} {b : Body} (hb : req.body = some b) (h : caseKeys fl u o req = .next req') :
    ∃ b', req'.body = some b' ∧ (BodyKept (twinKeys u) b.content b'.content ↔ RequestKept fl req b) := by
  have hsame : ¬ (isFormContentType (req.header contentTypeKey) = false ∧ req.contentLength ≠ 0 ∧
      (Utf8.trimSpace b.content).head? = some 123) → caseKeys fl u o req = .next req →
      ∃ b', req'.body = some b' ∧ (BodyKept (twinKeys u) b.content b'.content ↔ RequestKept fl req b) := fun hn hk => by
    obtain rfl := CaseKeysResult.next.inj (hk.symm.trans h)
    exact ⟨b, hb, fun _ h1 h2 h3 => absurd ⟨h1, h2, h3⟩ hn, fun _ => bodyKept_refl _⟩
  by_cases hform : isFormContentType (req.header contentTypeKey) = true
  · exact hsame (fun hc => by rw [hform] at hc; exact absurd hc.1 (by simp)) (by rw [caseKeys, if_pos hform])
  by_cases hlen : req.contentLength = 0
  · exact hsame (fun hc => hc.2.1 hlen) (by rw [caseKeys, if_neg hform, hb]; exact if_pos hlen)
  rw [caseKeys, if_neg hform, hb] at h
  replace h := (if_neg hlen).symm.trans h
  split at h
  · cases h
  · cases h
  · cases h
  · split_ifs at h with hskip
    · obtain rfl := CaseKeysResult.next.inj h
      refine ⟨b, hb, fun _ _ _ h3 => ?_, fun _ => bodyKept_refl _⟩
      rcases hskip with hnil | ⟨-, hlook⟩
      · rw [hnil] at h3
        cases h3
      · rw [looksLikeJSON, h3] at hlook
        cases hlook
    · split at h
      · cases h
      · obtain rfl := CaseKeysResult.next.inj h
        refine ⟨_, rfl, (expandBody_kept b.content).trans ⟨fun hk _ _ => hk, fun hk => hk (by simpa using hform) hlen⟩⟩

theorem sent_kept (path : Bytes) (b : Bytes × Bytes) : BodyKept (camelKey u) b.2 (sent fl u o path b) ↔ ResponseKept fl path b := by
  unfold sent
  split_ifs with hskip
  · refine ⟨fun _ h1 h2 => ?_, fun _ => bodyKept_refl _⟩
    rw [h1, h2] at hskip
    cases hskip
  · have hpath : hasPrefix path (str "/api/") = true ∧ shouldSkipCasePath path = false := by simpa using hskip
    exact (convert_kept b.1 b.2).trans ⟨fun h _ _ => h, fun h => h hpath.1 hpath.2⟩

theorem flushConverted_written (w : CaseResponseWriter) :
    (w.flushConverted fl u o).written = w.written ++ convert fl u o (w.header contentTypeKey) w.buf := by
  unfold CaseResponseWriter.flushConverted
  split_ifs with hbuf
  · rw [hbuf, convert]
    simp [looksLikeJSON, Utf8.trimSpace, Utf8.runes, Utf8.runesFrom]
  · rfl

theorem flushConverted_after (fl : Floats) (u : CaseTables) (o : MapOrder) (w : CaseResponseWriter) : (w.flushConverted fl u o).buf = [] ∧
    (w.flushConverted fl u o).header contentTypeKey = w.header contentTypeKey := by
  unfold CaseResponseWriter.flushConverted
  split_ifs with hbuf
  · exact ⟨hbuf, rfl⟩
  · have hne : contentTypeKey ≠ str "Content-Length" := by decide
    exact ⟨rfl, Function.update_of_ne hne [] w.header⟩

theorem written_of_calls (calls : List WriterCall) (w : CaseResponseWriter) :
    ((calls.foldl (CaseResponseWriter.call fl u o) w).flushConverted fl u o).written =
      w.written ++ (bodies (w.header contentTypeKey) w.buf calls).flatMap fun b => convert fl u o b.1 b.2 := by
  induction calls generalizing w with
  | nil => rw [List.foldl_nil, flushConverted_written, bodies, List.flatMap_singleton]
  | cons c calls ih =>
    rw [List.foldl_cons, ih]
    cases c with
    | header k v =>
      have hheader : Function.update w.header k v contentTypeKey = if k = contentTypeKey then v else w.header contentTypeKey := by
        rw [Function.update_apply]
        simp only [eq_comm]
      rw [bodies, ← hheader]
      rfl
    | write data => rfl
    | flush =>
      obtain ⟨hbuf, hct⟩ := flushConverted_after fl u o w
      rw [CaseResponseWriter.call, flushConverted_written, hbuf, hct, bodies, List.flatMap_cons, List.append_assoc]

theorem flatMap_bodies (contentType buf : Bytes) (calls : List WriterCall) :
    ((bodies contentType buf calls).flatMap fun b => b.2) = buf ++ calls.flatMap fun
      | .write data => data
      | _ => [] := by
  induction calls generalizing contentType buf with
  | nil => simp [bodies]
  | cons c calls ih =>
    cases c with
    | header k v => rw [bodies, ih]; rfl
    | write data => rw [bodies, ih, List.append_assoc]; rfl
    | flush => rw [bodies, List.flatMap_cons, ih]; rfl

theorem caseKeysResponse_eq (path : Bytes) (header : Bytes → Bytes) (calls : List WriterCall) :
    CaseKeysResponseBody fl u o path header calls = (bodies (header contentTypeKey) [] calls).flatMap (sent fl u o path) := by
  unfold CaseKeysResponseBody
  split_ifs with hskip
  · have hsent : sent fl u o path = fun b => b.2 := by
      funext b
      rw [sent, if_pos hskip]
    rw [hsent, flatMap_bodies, List.nil_append]
  · have hsent : sent fl u o path = fun b => convert fl u o b.1 b.2 := by
      funext b
      rw [sent, if_neg hskip]
    rw [hsent, written_of_calls, List.nil_append]

/-- A body that `CaseKeysRequest` passes on, and every body of a response, is kept but for added spellings exactly if its digits are. -/
theorem spellings_added_iff (fl : Floats) (u : CaseTables) (o : MapOrder) :
    (∀ req b req', req.body = some b → caseKeys fl u o req = .next req' →
      ∃ b', req'.body = some b' ∧ (BodyKept (twinKeys u) b.content b'.content ↔ RequestKept fl req b)) ∧
    ∀ path header calls,
      CaseKeysResponseBody fl u o path header calls = (bodies (header contentTypeKey) [] calls).flatMap (sent fl u o path) ∧
      ∀ b ∈ bodies (header contentTypeKey) [] calls, BodyKept (camelKey u) b.2 (sent fl u o path b) ↔ ResponseKept fl path b :=
  ⟨fun _ _ _ hb h => caseKeys_kept hb h, fun path header calls => ⟨caseKeysResponse_eq path header calls, fun b _ => sent_kept path b⟩⟩

def Floats.integers64 : Floats where
  text lit := (parseInt64 lit).map fun n => Bytes.itoa (Float64.viaFloat n)
  numLit lit t h := by
    obtain ⟨n, -, rfl⟩ := Option.map_eq_some_iff.1 h
    exact numLit_itoa _

theorem digitsKept_of_small (h : ∀ lit ∈ numbers v, ∃ n : Int, lit = Bytes.itoa n ∧ -2 ^ 53 < n ∧ n < 2 ^ 53) : DigitsKept .integers64 v := by
  refine .inr fun lit hl => ?_
  obtain ⟨n, rfl, h1, h2⟩ := h lit (numbers_content v lit hl)
  have hint : parseInt64 (Bytes.itoa n) = some n := parseInt64_itoa (by omega) (by omega)
  simp only [Floats.integers64, hint, Option.map_some, Float64.viaFloat_eq h1 h2]

def passedOn (r : CaseKeysResult) : Option Body :=
  match r with
  | .next req => req.body
  | _ => none

def shortId : Bytes := str "\x7b\"node_id\":7\x7d"

/-- A short id is kept on both ways. -/
theorem shortId_kept :
    (∃ b', passedOn (caseKeys .integers64 .asciiCase DataResource.keep (bodyPost (str "application/json") DataResource.projectGet shortId)) = some b' ∧
      BodyKept (twinKeys .asciiCase) shortId b'.content) ∧
    BodyKept (camelKey .asciiCase) shortId (sent .integers64 .asciiCase DataResource.keep DataResource.projectGet (str "application/json", shortId)) := by
  have hparse : parse shortId = some (.obj [(str "node_id", .num (str "7"))]) := rfl
  have hdigits : ∀ v, parse shortId = some v → DigitsKept .integers64 v := fun v hv => by
    obtain rfl := Option.some.inj (hparse.symm.trans hv)
    exact digitsKept_of_small fun lit hl => ⟨7, List.mem_singleton.1 hl, by decide, by decide⟩
  have hpassed : (passedOn (caseKeys .integers64 .asciiCase DataResource.keep (bodyPost (str "application/json") DataResource.projectGet shortId))).isSome = true := by
    decide +kernel
  obtain ⟨hreq, hres⟩ := spellings_added_iff .integers64 .asciiCase DataResource.keep
  constructor
  · cases hk : caseKeys .integers64 .asciiCase DataResource.keep (bodyPost (str "application/json") DataResource.projectGet shortId) with
    | next req' =>
      obtain ⟨b', hb', hiff⟩ := hreq _ _ req' rfl hk
      exact ⟨b', hb', hiff.2 fun _ _ _ => hdigits⟩
    | _ => rw [hk] at hpassed; cases hpassed
  · obtain ⟨-, hbodies⟩ := hres DataResource.projectGet (fun _ => []) [.header contentTypeKey (str "application/json"), .write shortId]
    exact (hbodies (str "application/json", shortId) (List.mem_singleton_self _)).2 fun _ _ _ _ => hdigits

def longId : Bytes := str "\x7b\"id\":9007199254740993\x7d"

theorem not_bodyKept {spell : Bytes → List Bytes} {body out k lit t : Bytes} (hb : tokens body = some (toks (.obj [(k, .num lit)])))
    (ho : tokens out = some (toks (.obj [(k, .num t)]))) (hne : t ≠ lit) : ¬ BodyKept spell body out := by
  intro h
  obtain ⟨w, hw, hadds⟩ := h _ hb
  obtain rfl := toks_injective (Option.some.inj (ho.symm.trans hw))
  obtain ⟨ns, hns, hkept, -⟩ := hadds
  obtain rfl := Json.obj.inj hns
  obtain ⟨n, hn, -, hv⟩ := keptMembers_iff.1 hkept (unquote k, .num lit) (List.mem_singleton_self _)
  obtain rfl := List.mem_singleton.1 hn
  exact hne (Json.num.inj hv)

/-- An id beyond `2^53` reaches the handler, and comes out of the response, as the even number next to it. -/
theorem longId_changed :
    (∃ b', passedOn (caseKeys .integers64 .asciiCase DataResource.keep (bodyPost (str "application/json") DataResource.projectGet longId)) = some b' ∧
      ¬ BodyKept (twinKeys .asciiCase) longId b'.content) ∧
    ¬ BodyKept (camelKey .asciiCase) longId (CaseKeysResponseBody .integers64 .asciiCase DataResource.keep DataResource.projectGet (fun _ => [])
      [.header contentTypeKey (str "application/json"), .write longId]) := by
  have hb : tokens longId = some (toks (.obj [(str "id", .num (str "9007199254740993"))])) := by decide +kernel
  have hout : tokens (str "\x7b\"id\":9007199254740992\x7d") = some (toks (.obj [(str "id", .num (str "9007199254740992"))])) := by decide +kernel
  have hne : str "9007199254740992" ≠ str "9007199254740993" := by decide +kernel
  have hreq : passedOn (caseKeys .integers64 .asciiCase DataResource.keep (bodyPost (str "application/json") DataResource.projectGet longId)) = some ⟨str "\x7b\"id\":9007199254740992\x7d", .eof⟩ := by
    decide +kernel
  have hres : CaseKeysResponseBody .integers64 .asciiCase DataResource.keep DataResource.projectGet (fun _ => [])
      [.header contentTypeKey (str "application/json"), .write longId] = str "\x7b\"id\":9007199254740992\x7d" := by decide +kernel
  exact ⟨⟨_, hreq, not_bodyKept hb hout hne⟩, hres ▸ not_bodyKept hb hout hne⟩

end Http
