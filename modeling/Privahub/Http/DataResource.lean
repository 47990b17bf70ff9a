import Privahub.Http.UsedIds

/-!
# Guard and binding read one id

`DataResourceGuard` (data_resource.go) reads the id of a request from the body and checks it against the caller's rights; the
handler binds the same body once more. `bound_id_checked`: what binding puts into the guarded field is the id that was checked,
whether or not `CaseKeysRequest` has rewritten the body. A body declared as a form is not read by the guard, and is bound all the
same; there the id checked is the empty one, which a rule that is checked on the platform refuses.
-/

namespace Http.DataResource

open Json

inductive DataResourceType where
  | nodeID | projectID | instID
  deriving DecidableEq

inductive PlatformType where
  | center | edge | autonomy | test
  deriving DecidableEq

structure UserContext where
  ownerType : Bytes
  ownerID : Bytes
  projectIDs : List Bytes

def UserContext.IsCenterOwner (u : UserContext) : Bool := u.ownerType == str "CENTER"

def UserContext.ContainProjectID (u : UserContext) (projectID : Bytes) : Bool := projectID ≠ [] && u.projectIDs.contains projectID

structure Db where
  hasInstId : Bool
  nodes : List (Bytes × Bytes)
  projectInst : List (Bytes × Bytes)
  projectNode : List (Bytes × Bytes)

/-- The checker; `db` and `env` may be `nil`. -/
structure DataResourceAuth where
  db : Option Db
  env : Option PlatformType

namespace DataResourceAuth

variable (a : DataResourceAuth)

def nodeInInst (nodeID instID : Bytes) : Bool :=
  match a.db with
  | none => false
  | some db => instID ≠ [] && db.hasInstId && db.nodes.contains (nodeID, instID)

def checkProject (u : UserContext) (projectID : Bytes) : Bool :=
  match a.db with
  | none => u.ContainProjectID projectID
  | some db => if a.env = some .autonomy then db.projectInst.contains (projectID, u.ownerID) else db.projectNode.contains (projectID, u.ownerID)

def Check (user : Option UserContext) (kind : DataResourceType) (id : Bytes) : Bool :=
  match user with
  | none => false
  | some u =>
    if a.env = some .edge ∧ kind ≠ .nodeID then true
    else if u.IsCenterOwner then true
    else if id = [] then false
    else match kind with
      | .nodeID => u.ownerID == id || a.nodeInInst id u.ownerID
      | .projectID => a.checkProject u id
      | .instID => u.ownerID == id || a.nodeInInst u.ownerID id

end DataResourceAuth

/-- `dataAuth` is the installed checker. -/
def CanAccessData (dataAuth : Option DataResourceAuth) (user : Option UserContext) (kind : DataResourceType) (id : Bytes) : Bool :=
  match dataAuth with
  | none => user.any fun u => u.IsCenterOwner || decide (kind = .nodeID) && u.ownerID == id
  | some a => a.Check user kind id

structure DataResourceRule where
  kind : DataResourceType
  field : Bytes
  optional : Bool
  extra : List DataResourceRule

def DataResourceRule.with (r e : DataResourceRule) : DataResourceRule := { r with extra := r.extra ++ [e] }

def optional (r : DataResourceRule) : DataResourceRule := { r with optional := true }

def projectRule : DataResourceRule := ⟨.projectID, str "projectId", false, []⟩

def nodeRule (field : Bytes) : DataResourceRule := ⟨.nodeID, field, false, []⟩

def DataResourceRoutes : List (Bytes × DataResourceRule) :=
  [(str "/api/v1alpha1/project/get", projectRule), (str "/api/v1alpha1/project/update", projectRule),
    (str "/api/v1alpha1/project/delete", projectRule), (str "/api/v1alpha1/project/inst/add", projectRule),
    (str "/api/v1alpha1/project/node/add", projectRule), (str "/api/v1alpha1/project/datatable/add", projectRule),
    (str "/api/v1alpha1/project/datatable/delete", projectRule), (str "/api/v1alpha1/project/datatable/get", projectRule),
    (str "/api/v1alpha1/project/job/list", projectRule), (str "/api/v1alpha1/project/job/get", projectRule),
    (str "/api/v1alpha1/project/job/stop", projectRule), (str "/api/v1alpha1/project/job/task/logs", projectRule),
    (str "/api/v1alpha1/project/job/task/output", projectRule), (str "/api/v1alpha1/project/update/tableConfig", projectRule),
    (str "/api/v1alpha1/project/datasource/list", projectRule), (str "/api/v1alpha1/graph/create", projectRule),
    (str "/api/v1alpha1/graph/delete", projectRule), (str "/api/v1alpha1/graph/list", projectRule),
    (str "/api/v1alpha1/graph/meta/update", projectRule), (str "/api/v1alpha1/graph/update", projectRule),
    (str "/api/v1alpha1/graph/node/update", projectRule), (str "/api/v1alpha1/graph/start", projectRule),
    (str "/api/v1alpha1/graph/node/status", projectRule), (str "/api/v1alpha1/graph/stop", projectRule),
    (str "/api/v1alpha1/graph/detail", projectRule), (str "/api/v1alpha1/graph/node/output", projectRule),
    (str "/api/v1alpha1/graph/node/logs", projectRule), (str "/api/v1alpha1/graph/node/max_index", projectRule),
    (str "/api/v1alpha1/scheduled/id", projectRule), (str "/api/v1alpha1/scheduled/graph/once/success", projectRule),
    (str "/api/v1alpha1/scheduled/graph/create", projectRule), (str "/api/v1alpha1/scheduled/job/list", projectRule),
    (str "/api/v1alpha1/model/pack", projectRule), (str "/api/v1alpha1/model/status", projectRule),
    (str "/api/v1alpha1/model/modelPartyPath", projectRule), (str "/api/v1alpha1/model/page", projectRule),
    (str "/api/v1alpha1/model/detail", projectRule), (str "/api/v1alpha1/model/info", projectRule),
    (str "/api/v1alpha1/model/serving/create", projectRule), (str "/api/v1alpha1/cloud_log/sls", projectRule),
    (str "/api/v1alpha1/feature_datasource/auth/list", projectRule), (str "/api/v1alpha1/p2p/project/update", projectRule),
    (str "/api/v1alpha1/node/update", nodeRule (str "nodeId")), (str "/api/v1alpha1/node/get", nodeRule (str "nodeId")),
    (str "/api/v1alpha1/node/delete", nodeRule (str "nodeId")), (str "/api/v1alpha1/node/token", nodeRule (str "nodeId")),
    (str "/api/v1alpha1/node/newToken", nodeRule (str "nodeId")), (str "/api/v1alpha1/node/refresh", nodeRule (str "nodeId")),
    (str "/api/v1alpha1/node/result/list", nodeRule (str "ownerId")), (str "/api/v1alpha1/node/result/detail", nodeRule (str "nodeId")),
    (str "/api/v1alpha1/nodeRoute/page", nodeRule (str "ownerId")), (str "/api/v1alpha1/datasource/create", nodeRule (str "ownerId")),
    (str "/api/v1alpha1/datasource/delete", nodeRule (str "ownerId")), (str "/api/v1alpha1/datasource/list", nodeRule (str "ownerId")),
    (str "/api/v1alpha1/datasource/detail", nodeRule (str "ownerId")), (str "/api/v1alpha1/datasource/nodes", nodeRule (str "ownerId")),
    (str "/api/v1alpha1/datatable/create", nodeRule (str "ownerId")), (str "/api/v1alpha1/datatable/list", nodeRule (str "ownerId")),
    (str "/api/v1alpha1/datatable/get", nodeRule (str "nodeId")), (str "/api/v1alpha1/datatable/delete", nodeRule (str "nodeId")),
    (str "/api/v1alpha1/data/create", nodeRule (str "nodeId")), (str "/api/v1alpha1/data/download", nodeRule (str "nodeId")),
    (str "/api/v1alpha1/feature_datasource/create", nodeRule (str "ownerId")), (str "/api/v1alpha1/inst/get", nodeRule (str "instId")),
    (str "/api/v1alpha1/inst/node/delete", nodeRule (str "nodeId")),
    (str "/api/v1alpha1/message/reply", nodeRule (str "voteParticipantId")), (str "/api/v1alpha1/message/list", nodeRule (str "ownerId")),
    (str "/api/v1alpha1/message/detail", nodeRule (str "ownerId")), (str "/api/v1alpha1/message/pending", nodeRule (str "ownerId")),
    (str "/api/v1alpha1/approval/create", nodeRule (str "initiatorId")),
    (str "/api/v1alpha1/user/node/resetPassword", nodeRule (str "nodeId")),
    (str "/api/v1alpha1/user/remote/resetPassword", nodeRule (str "nodeId")),
    (str "/api/v1alpha1/p2p/node/delete", nodeRule (str "nodeId")), (str "/api/v1alpha1/project/job/detail", projectRule),
    (str "/api/v1alpha1/project/job/task/log", projectRule), (str "/api/v1alpha1/datatable/detail", nodeRule (str "nodeId")),
    (str "/api/v1alpha1/project/job/create", projectRule), (str "/api/v1alpha1/graphDatasource/bind", projectRule),
    (str "/api/v1alpha1/graphDatasource/unbind", projectRule), (str "/api/v1alpha1/graphDatasource/list", projectRule),
    (str "/api/v1alpha1/featureTable/project/list", projectRule),
    (str "/api/v1alpha1/datatable/register", projectRule.with (nodeRule (str "nodeId"))),
    (str "/api/v1alpha1/datatable/grant", (nodeRule (str "nodeId")).with (optional projectRule)),
    (str "/api/v1alpha1/datatable/fed/create", projectRule), (str "/api/v1alpha1/datatable/pushToTee", nodeRule (str "nodeId")),
    (str "/api/v1alpha1/node/route/create", nodeRule (str "srcNodeId")), (str "/api/v1alpha1/node/route/list", nodeRule (str "nodeId")),
    (str "/api/v1alpha1/node/route/delete", nodeRule (str "srcNodeId"))]

variable (u : CaseTables) (o : MapOrder)

/-- Whether `CaseKeysRequest` sets `ctxJSONKeysChecked`. -/
def keysChecked (req : Request) : Bool :=
  match req.body with
  | none => false
  | some b => !isFormContentType (req.header contentTypeKey) && decide (req.contentLength ≠ 0) && decide (b.ending = .eof) &&
    !decide (Utf8.trimSpace b.content = [] ∨ (!isJSONContentType (req.header contentTypeKey) ∧ !looksLikeJSON b.content)) &&
    (CheckJSONKeys u b.content).toBool

inductive BodyError where
  | unread (ending : BodyEnd)
  | keys (e : CheckError)

/-- `json.Unmarshal` into a map of raw messages. -/
def rawMembers (ms : List (Bytes × Json)) : List (Bytes × Json) := (ms.map fun m => (unquote m.1, m.2)).foldl mapPut []

/-- `checked` is the mark in the context. -/
def readBodyObject (checked : Bool) (req : Request) : Except BodyError (Option (List (Bytes × Json))) :=
  match req.body with
  | none => .ok none
  | some b =>
    if b.ending ≠ .eof then .error (.unread b.ending)
    else if isFormContentType (req.header contentTypeKey) || !looksLikeJSON b.content then .ok none
    else match if checked then .ok () else CheckJSONKeys u b.content with
      | .error e => .error (.keys e)
      | .ok _ =>
        if (Utf8.trimSpace b.content).head? ≠ some 123 then .ok none
        else match parse (Utf8.trimSpace b.content) with
          | some (.obj ms) => .ok (some (rawMembers ms))
          | _ => .error (.keys .invalid)

def idOf : Json → Bytes
  | .str lit => unquote lit
  | _ => []

def isNull : Json → Bool
  | .null => true
  | _ => false

/-- The loop of `ruleValue`; `id` is `none` before the first value. -/
def sameValue (id : Option Bytes) (present : Bool) : List Json → Except CheckError (Bytes × Bool)
  | [] => .ok (id.getD [], present)
  | raw :: vals => if id.any (· ≠ idOf raw) then .error (.duplicate [] []) else sameValue (some (idOf raw)) (present || !isNull raw) vals

def canonicalFieldValues (obj : List (Bytes × Json)) (want : List Nat) : List Json :=
  ((o.order obj).filter fun e => decide (CanonicalJSONKey u e.1 = want)).map Prod.snd

/-- `want` is the canonical name of the field, `obj` empty for `nil`. -/
def ruleValue (obj : List (Bytes × Json)) (want : List Nat) : Except CheckError (Bytes × Bool) :=
  sameValue none false (canonicalFieldValues u o obj want)

/-- `next` holds the ids that were checked, by canonical name. -/
inductive Guarded where
  | next (verified : List Nat → Option Bytes)
  | rejected (e : BodyError)
  | denied (kind : DataResourceType) (id : Bytes)

variable (dataAuth : Option DataResourceAuth)

def checkRules (user : UserContext) (obj : List (Bytes × Json)) : List DataResourceRule → (List Nat → Option Bytes) → Guarded
  | [], verified => .next verified
  | r :: rules, verified =>
    match ruleValue u o obj (CanonicalJSONKey u r.field) with
    | .error e => .rejected (.keys e)
    | .ok (id, present) =>
      if r.optional ∧ !present then checkRules user obj rules verified
      else if CanAccessData dataAuth (some user) r.kind id then
        checkRules user obj rules (Function.update verified (CanonicalJSONKey u r.field) (some id))
      else .denied r.kind id

def DataResourceGuard (checked : Bool) (user : Option UserContext) (fullPath : Bytes) (req : Request) : Guarded :=
  let path := if fullPath = [] then req.path else fullPath
  match DataResourceRoutes.lookup path with
  | none => .next fun _ => none
  | some rule =>
    match readBodyObject u checked req with
    | .error e => .rejected e
    | .ok m =>
      match user with
      | none => if req.method = str "OPTIONS" then .next fun _ => none else .denied rule.kind []
      | some usr =>
        if usr.IsCenterOwner then .next fun _ => none
        else checkRules u o dataAuth usr (m.getD []) (rule :: rule.extra) fun _ => none

/-- The string `encoding/json` has put into the field of tag `t`; `null` and values of other types put none there. -/
def boundString (tags : List Bytes) (t : Bytes) (ms : List (Bytes × Json)) : Option Bytes :=
  ms.foldl (fun acc m =>
    if matchTag u tags (unquote m.1) = some t then
      match m.2 with
      | .str lit => some (unquote lit)
      | _ => acc
    else acc) none

/-- Binding reads the first value of the body, whatever follows it. -/
def Binds (tags : List Bytes) (t : Bytes) (req : Request) (v : Bytes) : Prop :=
  ∃ b, req.body = some b ∧ ∃ pre suf ms, b.content = pre ++ suf ∧ parse pre = some (.obj ms) ∧ boundString u tags t ms = some v

/-- The request as it comes to the guard, and the mark in its context. -/
inductive Arrives (fl : Floats) (req : Request) : Request → Bool → Prop where
  | raw : Arrives fl req req false
  | rewritten {req'} : caseKeys fl u o req = .next req' → Arrives fl req req' (keysChecked u req)

variable {u o dataAuth} {fl : Floats} {req req' : Request} {checked : Bool} {ms ws m : List (Bytes × Json)} {b : Body} {t v : Bytes} {tags : List Bytes}

theorem member_of_boundString (h : boundString u tags t ms = some v) :
    ∃ m ∈ ms, matchTag u tags (unquote m.1) = some t ∧ ∃ lit, m.2 = .str lit ∧ v = unquote lit := by
  induction ms using List.reverseRecOn generalizing v with
  | nil => cases h
  | append_singleton ms m ih =>
    have hlift : boundString u tags t ms = some v →
        ∃ m' ∈ ms ++ [m], matchTag u tags (unquote m'.1) = some t ∧ ∃ lit, m'.2 = .str lit ∧ v = unquote lit := fun h => by
      obtain ⟨m', hm', hrest⟩ := ih h
      exact ⟨m', List.mem_append_left _ hm', hrest⟩
    rw [boundString, List.foldl_append, List.foldl_cons, List.foldl_nil, ← boundString] at h
    split_ifs at h with hm
    · cases hv : m.2 with
      | str lit =>
        rw [hv] at h
        obtain rfl := Option.some.inj h
        exact ⟨m, by simp, hm, lit, hv, rfl⟩
      | _ =>
        rw [hv] at h
        exact hlift h
    · exact hlift h

theorem value_of_expanded (hp : parse b.content = some (.obj ms)) (hb : expandBody fl u o b.content ≠ b.content)
    (hw : parse (expandBody fl u o b.content) = some (.obj ws)) {w : Bytes × Json} (hmem : w ∈ ws) :
    ∃ m ∈ ms, CanonicalJSONKey u (unquote m.1) = CanonicalJSONKey u (unquote w.1) ∧
      (decodeAny fl m.2).map (fun d => encode (expandKeys u o d)) = some w.2 := by
  unfold expandBody at hw hb
  split_ifs at hw hb
  · rw [hp, Option.bind_some] at hw hb
    cases hd : decodeAny fl (.obj ms) with
    | none => rw [hd] at hb; exact absurd rfl hb
    | some d =>
      rw [hd] at hw
      have htoks := (tokens_render _ (wf_expanded hd)).symm.trans (parse_sound hw)
      have henc : encode (expandKeys u o d) = .obj ws := toks_injective (Option.some.inj htoks)
      obtain ⟨l, hl, rfl⟩ := Option.map_eq_some_iff.1 hd
      obtain ⟨m, hm, hk, hv⟩ := mem_encode_obj henc hmem
      obtain ⟨m₁, hm₁, hv₁, hc₁⟩ := of_mem_expanded hm
      have hm₁ := (mem_of_mem_foldl_mapPut hm₁).resolve_left List.not_mem_nil
      obtain ⟨m₀, hm₀, hk₀, hv₀⟩ := mem_decodeMembers hl hm₁
      refine ⟨m₀, hm₀, ?_, ?_⟩
      · rw [hk, unquote_escape, canonical_repair, hc₁, hk₀]
      · rw [hv₀, hv, hv₁]
        rfl
  · exact absurd rfl hb

theorem oneValue_expanded (hp : parse b.content = some (.obj ms)) (hone : OneValue u ms) (hb : expandBody fl u o b.content ≠ b.content)
    (hw : parse (expandBody fl u o b.content) = some (.obj ws)) : OneValue u ws := by
  intro w hw₁ w' hw₂ hc
  obtain ⟨m, hm, hk, hv⟩ := value_of_expanded hp hb hw hw₁
  obtain ⟨m', hm', hk', hv'⟩ := value_of_expanded hp hb hw hw₂
  have hmm : m.2 = m'.2 := hone m hm m' hm' (hk.trans (hc.trans hk'.symm))
  rw [hmm, hv'] at hv
  exact (Option.some.inj hv).symm

theorem obj_of_encode {x d : Json} (hd : decodeAny fl x = some d) (h : encode (expandKeys u o d) = .obj ws) : ∃ ms, x = .obj ms := by
  cases x with
  | obj ms => exact ⟨ms, rfl⟩
  | null | bool | str =>
    obtain rfl := Option.some.inj hd
    cases h
  | num lit =>
    obtain ⟨n, -, rfl⟩ := Option.map_eq_some_iff.1 hd
    cases h
  | arr vs =>
    obtain ⟨ws', -, rfl⟩ := Option.map_eq_some_iff.1 hd
    cases h

theorem tokens_of_checked {body : Bytes} (h : CheckJSONKeys u body = .ok ()) : ∃ ts, tokens body = some ts := by
  unfold CheckJSONKeys at h
  cases ht : tokens body with
  | none =>
    rw [ht] at h
    cases h
  | some ts => exact ⟨ts, rfl⟩

theorem parse_of_trimmed {body : Bytes} {ts : List Token} {x : Json} (ht : tokens body = some ts) (h : parse (Utf8.trimSpace body) = some x) :
    parse body = some x := by
  rw [← h]
  exact parse_congr (ht.trans (tokens_trimSpace ht).symm)

theorem oneValue_of_checked {body : Bytes} (h : CheckJSONKeys u body = .ok ()) (hp : parse body = some (.obj ms)) : OneValue u ms :=
  ((checkJSONKeys_iff hp).1 h).1

theorem body_of_marked (h : caseKeys fl u o req = .next req') (hm : keysChecked u req = true) :
    ∃ b : Body, CheckJSONKeys u b.content = .ok () ∧ req'.body = some ⟨expandBody fl u o b.content, .eof⟩ := by
  unfold keysChecked at hm
  cases hb : req.body with
  | none =>
    rw [hb] at hm
    cases hm
  | some b =>
    simp only [hb, Bool.and_eq_true, Bool.not_eq_true', decide_eq_true_eq, decide_eq_false_iff_not] at hm
    obtain ⟨⟨⟨⟨hform, hlen⟩, hend⟩, hjson⟩, hkeys⟩ := hm
    simp only [caseKeys, hform, hb, Bool.false_eq_true, if_false, if_neg hlen, hend] at h
    rw [if_neg (by simpa using hjson)] at h
    cases hk : CheckJSONKeys u b.content with
    | error e =>
      rw [hk] at hkeys
      cases hkeys
    | ok x =>
      rw [hk] at h
      obtain rfl := CaseKeysResult.next.inj h
      exact ⟨b, hk, rfl⟩

theorem oneValue_of_arrives (ha : Arrives u o fl req req' checked) (hb : req'.body = some b)
    (hk : checked = false → CheckJSONKeys u b.content = .ok ()) (hp : parse (Utf8.trimSpace b.content) = some (.obj ms)) :
    parse b.content = some (.obj ms) ∧ OneValue u ms := by
  have hraw : CheckJSONKeys u b.content = .ok () → parse b.content = some (.obj ms) ∧ OneValue u ms := fun hk => by
    obtain ⟨ts, ht⟩ := tokens_of_checked hk
    have hparse := parse_of_trimmed ht hp
    exact ⟨hparse, oneValue_of_checked hk hparse⟩
  cases ha with
  | raw => exact hraw (hk rfl)
  | rewritten hn =>
    cases hm : keysChecked u req with
    | false => exact hraw (hk hm)
    | true =>
      obtain ⟨b₀, hk₀, hb'⟩ := body_of_marked hn hm
      obtain rfl := Option.some.inj (hb.symm.trans hb')
      by_cases hsame : expandBody fl u o b₀.content = b₀.content
      · exact hraw (by rw [hsame]; exact hk₀)
      · -- the body was decoded, so it has a value
        simp only at hp ⊢
        have hexp := hsame
        unfold expandBody at hexp
        split_ifs at hexp with hhead
        · cases hv : parse b₀.content with
          | none =>
            rw [hv] at hexp
            exact absurd rfl hexp
          | some v =>
            rw [hv, Option.bind_some] at hexp
            cases hd : decodeAny fl v with
            | none =>
              rw [hd] at hexp
              exact absurd rfl hexp
            | some d =>
              have hbody : expandBody fl u o b₀.content = marshal (expandKeys u o d) := by
                unfold expandBody
                rw [if_pos hhead, hv, Option.bind_some, hd]
              have htoks : tokens (expandBody fl u o b₀.content) = some (toks (encode (expandKeys u o d))) := by
                rw [hbody]
                exact tokens_render _ (wf_expanded hd)
              have hparse := parse_of_trimmed htoks hp
              refine ⟨hparse, ?_⟩
              have henc : encode (expandKeys u o d) = .obj ms := toks_injective (Option.some.inj (htoks.symm.trans (parse_sound hparse)))
              obtain ⟨ms₀, rfl⟩ : ∃ ms₀, v = .obj ms₀ := obj_of_encode hd henc
              exact oneValue_expanded hv (oneValue_of_checked hk₀ hv) hsame hparse
        · exact absurd rfl hexp

theorem mem_foldl_mapPut {l t : List (Bytes × Json)} {e : Bytes × Json} (h : e ∈ t ∨ e ∈ l) (hone : ∀ a ∈ t ++ l, a.1 = e.1 → a = e) :
    e ∈ l.foldl mapPut t := by
  induction l generalizing t with
  | nil => exact h.resolve_right List.not_mem_nil
  | cons a l ih =>
    refine ih ?_ fun a' ha' hk => ?_
    · by_cases hk : a.1 = e.1
      · obtain rfl := hone a (by simp) hk
        exact .inl (List.mem_append_right _ (List.mem_singleton_self _))
      · rcases h with h | h
        · exact .inl (List.mem_append_left _ (List.mem_filter.2 ⟨h, decide_eq_true (Ne.symm hk)⟩))
        · rcases List.mem_cons.1 h with rfl | h
          · exact absurd rfl hk
          · exact .inr h
    · have hmem : a' ∈ t ++ a :: l := by
        simp only [mapPut, List.mem_append, List.mem_filter, List.mem_cons] at ha' ⊢
        tauto
      exact hone a' hmem hk

theorem mem_rawMembers (hone : OneValue u ms) {w : Bytes × Json} (hw : w ∈ ms) : (unquote w.1, w.2) ∈ rawMembers ms := by
  refine mem_foldl_mapPut (.inr (List.mem_map_of_mem hw)) fun a ha hk => ?_
  rw [List.nil_append] at ha
  obtain ⟨w', hw', rfl⟩ := List.mem_map.1 ha
  have hk : unquote w'.1 = unquote w.1 := hk
  rw [hk, hone w' hw' w hw (by rw [hk])]

theorem read_cases {obj : Option (List (Bytes × Json))} (h : readBodyObject u checked req = .ok obj) (hb : req.body = some b) :
    isFormContentType (req.header contentTypeKey) = true ∧ obj = none ∨ looksLikeJSON b.content = false ∨
    (Utf8.trimSpace b.content).head? ≠ some 123 ∨
    (checked = false → CheckJSONKeys u b.content = .ok ()) ∧
      ∃ ms, parse (Utf8.trimSpace b.content) = some (.obj ms) ∧ obj = some (rawMembers ms) := by
  simp only [readBodyObject, hb] at h
  by_cases hend : b.ending ≠ .eof
  · rw [if_pos hend] at h
    cases h
  rw [if_neg hend] at h
  by_cases hskip : isFormContentType (req.header contentTypeKey) || !looksLikeJSON b.content
  · rw [if_pos hskip] at h
    rw [Bool.or_eq_true, Bool.not_eq_true'] at hskip
    rcases hskip with hform | hlook
    · exact .inl ⟨hform, (Except.ok.inj h).symm⟩
    · exact .inr (.inl hlook)
  rw [if_neg hskip] at h
  cases hk : if checked = true then Except.ok () else CheckJSONKeys u b.content with
  | error e =>
    rw [hk] at h
    cases h
  | ok x =>
    rw [hk] at h
    simp only at h
    by_cases hhead : (Utf8.trimSpace b.content).head? ≠ some 123
    · exact .inr (.inr (.inl hhead))
    rw [if_neg hhead] at h
    split at h
    · refine .inr (.inr (.inr ⟨fun hc => ?_, _, ‹_›, (Except.ok.inj h).symm⟩))
      rw [hc] at hk
      exact hk
    · cases h

theorem read_of_binds {obj : Option (List (Bytes × Json))} (ha : Arrives u o fl req req' checked)
    (h : readBodyObject u checked req' = .ok obj) (hv : Binds u tags t req' v) :
    isFormContentType (req'.header contentTypeKey) = true ∧ obj = none ∨
    ∃ ms, obj = some (rawMembers ms) ∧ OneValue u ms ∧ boundString u tags t ms = some v := by
  obtain ⟨b, hb, pre, suf, ws, hcontent, hpre, hbound⟩ := hv
  have hhead : (Utf8.trimSpace b.content).head? = some 123 := by
    obtain ⟨l, r, hlr, hl⟩ := exists_brace (parse_sound hpre)
    rw [hcontent, hlr, List.append_assoc, List.cons_append]
    exact head_of_brace hl
  rcases read_cases h hb with hform | hlook | hno | ⟨hk, ms, hp, rfl⟩
  · exact .inl hform
  · rw [looksLikeJSON, hhead] at hlook
    cases hlook
  · exact absurd hhead hno
  · obtain ⟨hparse, hone⟩ := oneValue_of_arrives ha hb hk hp
    have hv : Json.obj ms = .obj ws := eq_of_prefix hpre (hcontent ▸ parse_sound hparse)
    obtain rfl := Json.obj.inj hv
    exact .inr ⟨ms, rfl, hone, hbound⟩

theorem sameValue_ok {vals : List Json} {id : Option Bytes} {p p' : Bool} {x : Bytes} (h : sameValue id p vals = .ok (x, p')) :
    (∀ w ∈ vals, idOf w = x) ∧ (∀ y, id = some y → y = x) ∧ (∀ w ∈ vals, isNull w = false → p' = true) ∧ (p = true → p' = true) := by
  induction vals generalizing id p with
  | nil =>
    obtain ⟨rfl, rfl⟩ := Prod.mk.inj (Except.ok.inj h)
    refine ⟨fun _ h => absurd h List.not_mem_nil, ?_, fun _ h => absurd h List.not_mem_nil, fun h => h⟩
    rintro y rfl
    rfl
  | cons raw vals ih =>
    rw [sameValue] at h
    split_ifs at h with hne
    obtain ⟨hvals, hid, hnull, hp⟩ := ih h
    have hraw : idOf raw = x := hid _ rfl
    refine ⟨fun w hw => ?_, ?_, fun w hw hn => ?_, fun h => hp (by rw [h]; rfl)⟩
    · rcases List.mem_cons.1 hw with rfl | hw
      · exact hraw
      · exact hvals w hw
    · rintro y rfl
      rw [← hraw]
      simpa using hne
    · rcases List.mem_cons.1 hw with rfl | hw
      · exact hp (by rw [hn, Bool.not_false, Bool.or_true])
      · exact hnull w hw hn

theorem ruleValue_bound {want : List Nat} {id : Bytes} {present : Bool} (hone : OneValue u ms) (hbound : boundString u tags t ms = some v)
    (ht : CanonicalJSONKey u t = want) (h : ruleValue u o (rawMembers ms) want = .ok (id, present)) : id = v ∧ present = true := by
  obtain ⟨w, hw, hmatch, lit, hlit, rfl⟩ := member_of_boundString hbound
  have hmem : w.2 ∈ canonicalFieldValues u o (rawMembers ms) want := by
    refine List.mem_map.2 ⟨(unquote w.1, w.2), List.mem_filter.2 ⟨(o.perm _).mem_iff.2 (mem_rawMembers hone hw), ?_⟩, rfl⟩
    exact decide_eq_true ((canonical_of_match u hmatch).trans ht)
  obtain ⟨hvals, -, hpres, -⟩ := sameValue_ok h
  rw [hlit] at hmem
  exact ⟨(hvals _ hmem).symm, hpres _ hmem rfl⟩

def Checked (u : CaseTables) (o : MapOrder) (dataAuth : Option DataResourceAuth) (usr : UserContext) (obj : List (Bytes × Json))
    (verified : List Nat → Option Bytes) (r : DataResourceRule) : Prop :=
  ∃ id present, ruleValue u o obj (CanonicalJSONKey u r.field) = .ok (id, present) ∧
    (r.optional = true ∧ present = false ∨
      CanAccessData dataAuth (some usr) r.kind id = true ∧ verified (CanonicalJSONKey u r.field) = some id)

def Genuine (u : CaseTables) (o : MapOrder) (obj : List (Bytes × Json)) (verified : List Nat → Option Bytes) : Prop :=
  ∀ c id, verified c = some id → ∃ present, ruleValue u o obj c = .ok (id, present)

variable {usr : UserContext} {obj : List (Bytes × Json)} {rules : List DataResourceRule} {ver ver' : List Nat → Option Bytes}

theorem checkRules_next (hg : Genuine u o obj ver) (h : checkRules u o dataAuth usr obj rules ver = .next ver') :
    (∀ c id, ver c = some id → ver' c = some id) ∧ ∀ r ∈ rules, Checked u o dataAuth usr obj ver' r := by
  induction rules generalizing ver with
  | nil =>
    obtain rfl := Guarded.next.inj h
    exact ⟨fun _ _ h => h, fun _ h => absurd h List.not_mem_nil⟩
  | cons r rules ih =>
    rw [checkRules] at h
    cases hv : ruleValue u o obj (CanonicalJSONKey u r.field) with
    | error e =>
      rw [hv] at h
      cases h
    | ok x =>
      obtain ⟨id, present⟩ := x
      simp only [hv] at h
      split_ifs at h with hskip hacc
      · obtain ⟨hkeep, hrules⟩ := ih hg h
        refine ⟨hkeep, fun r' hr' => ?_⟩
        rcases List.mem_cons.1 hr' with rfl | hr'
        · exact ⟨id, present, hv, .inl ⟨hskip.1, by simpa using hskip.2⟩⟩
        · exact hrules r' hr'
      · have hg' : Genuine u o obj (Function.update ver (CanonicalJSONKey u r.field) (some id)) := by
          intro c id' hc
          by_cases he : c = CanonicalJSONKey u r.field
          · subst he
            rw [Function.update_self] at hc
            obtain rfl := Option.some.inj hc
            exact ⟨present, hv⟩
          · rw [Function.update_of_ne he] at hc
            exact hg c id' hc
        obtain ⟨hkeep, hrules⟩ := ih hg' h
        refine ⟨fun c id' hc => hkeep c id' ?_, fun r' hr' => ?_⟩
        · by_cases he : c = CanonicalJSONKey u r.field
          · subst he
            obtain ⟨p, hp⟩ := hg _ _ hc
            rw [hv] at hp
            rw [Function.update_self, (Prod.mk.inj (Except.ok.inj hp)).1]
          · rw [Function.update_of_ne he]
            exact hc
        · rcases List.mem_cons.1 hr' with rfl | hr'
          · exact ⟨id, present, hv, .inr ⟨hacc, hkeep _ _ (Function.update_self ..)⟩⟩
          · exact hrules r' hr'

theorem routes_required : ∀ e ∈ DataResourceRoutes, e.2.optional = false := by
  decide +kernel

theorem refuses_empty {a : DataResourceAuth} {kind : DataResourceType} (hu : usr.IsCenterOwner = false)
    (hk : a.env = some .edge → kind = .nodeID) : CanAccessData (some a) (some usr) kind [] = false := by
  have hedge : ¬ (a.env = some .edge ∧ kind ≠ .nodeID) := fun h => h.2 (hk h.1)
  simp only [CanAccessData, DataResourceAuth.Check, if_neg hedge, hu, Bool.false_eq_true, if_false, if_true]

theorem form_denied {rule : DataResourceRule} (hne : rule.optional = false) (hdeny : CanAccessData dataAuth (some usr) rule.kind [] = false)
    (h : ∀ r ∈ rule :: rule.extra, Checked u o dataAuth usr [] ver' r) : False := by
  obtain ⟨id, present, hv, hskip | ⟨hacc, -⟩⟩ := h rule (List.mem_cons_self ..)
  · rw [hne] at hskip
    cases hskip.1
  · have hnil : canonicalFieldValues u o [] (CanonicalJSONKey u rule.field) = [] := by
      rw [canonicalFieldValues, List.perm_nil.1 (o.perm [])]
      rfl
    rw [ruleValue, hnil] at hv
    obtain ⟨rfl, -⟩ := Prod.mk.inj (Except.ok.inj hv)
    have hacc : CanAccessData dataAuth (some usr) rule.kind [] = true := hacc
    rw [hdeny] at hacc
    cases hacc

/-- Where the guard lets a user of a guarded route through, what binding puts into a field with the name of a guarded one is the
id that was checked, unless the body is declared as a form and the rule is not checked on the platform. -/
theorem bound_id_checked {fullPath : Bytes} {rule r : DataResourceRule} (ha : Arrives u o fl req req' checked)
    (hroute : DataResourceRoutes.lookup (if fullPath = [] then req'.path else fullPath) = some rule) (hu : usr.IsCenterOwner = false)
    (hnext : DataResourceGuard u o dataAuth checked (some usr) fullPath req' = .next ver')
    (hform : isFormContentType (req'.header contentTypeKey) = true → ∃ a, dataAuth = some a ∧ (a.env = some .edge → rule.kind = .nodeID))
    (hr : r ∈ rule :: rule.extra) (ht : CanonicalJSONKey u t = CanonicalJSONKey u r.field) (hv : Binds u tags t req' v) :
    ver' (CanonicalJSONKey u r.field) = some v ∧ CanAccessData dataAuth (some usr) r.kind v = true := by
  simp only [DataResourceGuard, hroute] at hnext
  cases hread : readBodyObject u checked req' with
  | error e =>
    rw [hread] at hnext
    cases hnext
  | ok m =>
    simp only [hread, hu, Bool.false_eq_true, if_false] at hnext
    obtain ⟨-, hchecked⟩ := checkRules_next (fun _ _ h => by cases h) hnext
    rcases read_of_binds ha hread hv with ⟨hf, rfl⟩ | ⟨ms, rfl, hone, hbound⟩
    · obtain ⟨a, rfl, hk⟩ := hform hf
      obtain ⟨l₁, l₂, hroutes, -⟩ := List.lookup_eq_some_iff.1 hroute
      have hreq : rule.optional = false := routes_required _ (hroutes ▸ List.mem_append_right l₁ (List.mem_cons_self ..))
      exact (form_denied hreq (refuses_empty hu hk) hchecked).elim
    · obtain ⟨id, present, hid, hrule⟩ := hchecked r hr
      obtain ⟨rfl, rfl⟩ := ruleValue_bound hone hbound ht hid
      rcases hrule with ⟨-, hp⟩ | ⟨hacc, hver⟩
      · cases hp
      · exact ⟨hver, hacc⟩

def owner : UserContext := ⟨str "EDGE", str "mine", []⟩

def checker (platform : PlatformType) : Option DataResourceAuth := some ⟨some ⟨true, [], [], []⟩, some platform⟩

def nodeGet : Bytes := str "/api/v1alpha1/node/get"

def projectGet : Bytes := str "/api/v1alpha1/project/get"

theorem binds_of_parse {b : Body} (hb : req.body = some b) (h : ((parse b.content).bind fun x => match x with
    | .obj ms => boundString u tags t ms
    | _ => none) = some v) : Binds u tags t req v := by
  obtain ⟨x, hx, h⟩ := Option.bind_eq_some_iff.1 h
  cases x with
  | obj ms => exact ⟨b, hb, b.content, [], ms, (List.append_nil _).symm, hx, h⟩
  | _ => cases h

theorem keep_perm : ∀ l : List (Bytes × Json), (id l).Perm l := fun _ => .refl _

def keep : MapOrder := ⟨id, keep_perm⟩

/-- A key in snake case, rewritten. -/
theorem bound_id_checked_node :
    ∃ req', caseKeys .integers .asciiCase keep (bodyPost (str "application/json") nodeGet (str "\x7b\"node_id\":\"mine\"\x7d")) = .next req' ∧
      ∃ ver, DataResourceGuard .asciiCase keep (checker .edge) true (some owner) nodeGet req' = .next ver ∧
        ver (CanonicalJSONKey .asciiCase (str "nodeId")) = some (str "mine") ∧
        CanAccessData (checker .edge) (some owner) .nodeID (str "mine") = true := by
  set req := bodyPost (str "application/json") nodeGet (str "\x7b\"node_id\":\"mine\"\x7d")
  have hmark : keysChecked .asciiCase req = true := by decide +kernel
  have hrun : (match caseKeys .integers .asciiCase keep req with
      | .next req' =>
        (match DataResourceGuard .asciiCase keep (checker .edge) true (some owner) nodeGet req' with
          | .next _ => true
          | _ => false) &&
        decide (req'.body.bind (fun b => (parse b.content).bind fun x => match x with
          | .obj ms => boundString .asciiCase [str "nodeId"] (str "nodeId") ms
          | _ => none) = some (str "mine"))
      | _ => false) = true := by decide +kernel
  cases hn : caseKeys .integers .asciiCase keep req with
  | next req' =>
    rw [hn, Bool.and_eq_true] at hrun
    cases hg : DataResourceGuard .asciiCase keep (checker .edge) true (some owner) nodeGet req' with
    | next ver =>
      obtain ⟨b, hb, hbound⟩ := Option.bind_eq_some_iff.1 (of_decide_eq_true hrun.2)
      have ha : Arrives .asciiCase keep .integers req req' true := hmark ▸ .rewritten hn
      have hroute : DataResourceRoutes.lookup (if nodeGet = [] then req'.path else nodeGet) = some (nodeRule (str "nodeId")) := by
        rw [if_neg (by decide +kernel)]
        rfl
      have hbinds : Binds .asciiCase [str "nodeId"] (str "nodeId") req' (str "mine") := binds_of_parse hb hbound
      refine ⟨req', rfl, ver, hg, ?_⟩
      exact bound_id_checked ha hroute rfl hg (fun _ => ⟨_, rfl, fun _ => rfl⟩) (List.mem_cons_self ..) rfl hbinds
    | _ =>
      rw [hg] at hrun
      cases hrun.1
  | _ =>
    rw [hn] at hrun
    cases hrun

/-- On an edge the project of a form is bound, and the id that the guard has taken for it is empty. -/
theorem form_unread :
    caseKeys .integers .asciiCase keep (bodyPost (str "multipart/form-data") projectGet (str "\x7b\"projectId\":\"theirs\"\x7d")) =
        .next (bodyPost (str "multipart/form-data") projectGet (str "\x7b\"projectId\":\"theirs\"\x7d")) ∧
      (∃ ver, DataResourceGuard .asciiCase keep (checker .edge) false (some owner) projectGet
          (bodyPost (str "multipart/form-data") projectGet (str "\x7b\"projectId\":\"theirs\"\x7d")) = .next ver ∧
        ver (CanonicalJSONKey .asciiCase (str "projectId")) = some []) ∧
      Binds .asciiCase [str "projectId"] (str "projectId")
        (bodyPost (str "multipart/form-data") projectGet (str "\x7b\"projectId\":\"theirs\"\x7d")) (str "theirs") := by
  set req := bodyPost (str "multipart/form-data") projectGet (str "\x7b\"projectId\":\"theirs\"\x7d")
  have hform : isFormContentType (req.header contentTypeKey) = true := by decide +kernel
  have hrun : (match DataResourceGuard .asciiCase keep (checker .edge) false (some owner) projectGet req with
      | .next ver => ver (CanonicalJSONKey .asciiCase (str "projectId"))
      | _ => none) = some [] := by decide +kernel
  refine ⟨?_, ?_, binds_of_parse rfl (by decide +kernel)⟩
  · rw [caseKeys, if_pos hform]
  · cases hg : DataResourceGuard .asciiCase keep (checker .edge) false (some owner) projectGet req with
    | next ver =>
      rw [hg] at hrun
      exact ⟨ver, rfl, hrun⟩
    | _ =>
      rw [hg] at hrun
      cases hrun

end Http.DataResource
