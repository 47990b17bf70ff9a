import Privahub.Lib.JsonIndent
import Privahub.Lib.JsonInfix
import Privahub.Lib.JsonTree
import Privahub.Lib.Unicode

/-!
# Endpoints of nodes

`NodeEndpoint` of `pkg/kuscia/pool.go`: how it is checked, with a host that may carry its port, and the text it has in the pool file.
-/

namespace Kuscia

structure ClientConfig where
  Host : Bytes := []
  Port : Int64 := 0
  Protocol : Bytes := []
  Timeout : Int64 := 0
  CertFile : Bytes := []
  KeyFile : Bytes := []
  CAFile : Bytes := []
  Token : Bytes := []
  ServerName : Bytes := []
  InsecureSkipVerify : Bool := false
  HTTPProxy : Bytes := []
  deriving DecidableEq

structure NodeEndpoint extends ClientConfig where
  DomainID : Bytes := []
  Mode : Bytes := []
  Persist : Bool := false
  deriving DecidableEq

inductive EndpointError where
  | domainRequired
  | hostRequired
  | invalidPort (port : Int64)
  | credentialsRequired
  | invalidProtocol (protocol : Bytes)
  deriving DecidableEq

/-- `strings.ToLower`. -/
def ToLower (u : CaseTables) (s : Bytes) : Bytes := (Utf8.runes s).flatMap fun r => Utf8.encodeRune (u.toLower r.1)

/-- What `Sscanf(s, "%d", &port)` reads: blanks but no line break, a sign, digits up to the first other byte, as 64 bits hold them. -/
def scanPort (s : Bytes) : Option Int64 :=
  let blank (r : Nat × Bytes) := Utf8.isSpaceRune r.1
  let runes := Utf8.runes s
  if (runes.takeWhile blank).any fun r => r.1 == 10 then none
  else
    let t := (runes.dropWhile blank).flatMap Prod.snd
    let (sign, ds) := match t with
      | 43 :: ds => ((1 : Int), ds)
      | 45 :: ds => (-1, ds)
      | ds => (1, ds)
    let digits := ds.takeWhile Bytes.isDigit
    let n := sign * Json.digitsVal digits
    if digits ≠ [] ∧ -2 ^ 63 ≤ n ∧ n < 2 ^ 63 then some (Int64.ofInt n) else none

/-- The host before its last colon and the port behind it, of a host that is neither in brackets nor a URL. -/
def splitHost (host : Bytes) : Option (Bytes × Int64) :=
  match host.reverse.dropWhile (· ≠ 58) with
  | _ :: h =>
    if h ≠ [] ∧ 93 ∉ host ∧ ¬ str "://" <:+: host then (scanPort (host.reverse.takeWhile (· ≠ 58)).reverse).map fun port => (h.reverse, port) else none
  | [] => none

namespace NodeEndpoint

variable (u : CaseTables) (e : NodeEndpoint)

def located : NodeEndpoint :=
  match splitHost e.Host with
  | some (host, port) => { e with Host := host, Port := port }
  | none => e

def Validate : Except EndpointError NodeEndpoint :=
  if Utf8.trimSpace e.DomainID = [] then .error .domainRequired
  else if Utf8.trimSpace e.Host = [] then .error .hostRequired
  else
    let e := e.located
    if e.Port < 0 ∨ 65535 < e.Port then .error (.invalidPort e.Port)
    else
      let protocol := ToLower u e.Protocol
      if protocol = [] ∨ protocol = str "notls" then .ok { e with Protocol := str "notls" }
      else if protocol = str "tls" ∨ protocol = str "mtls" then
        if e.CertFile = [] ∨ e.KeyFile = [] ∨ e.Token = [] then .error .credentialsRequired else .ok { e with Protocol := protocol }
      else .error (.invalidProtocol e.Protocol)

structure Field where
  name : Bytes
  write : NodeEndpoint → Option Json
  read : NodeEndpoint → Json → Option NodeEndpoint

def textField (name : Bytes) (omitempty : Bool) (get : NodeEndpoint → Bytes) (set : NodeEndpoint → Bytes → NodeEndpoint) : Field where
  name := name
  write e := if omitempty ∧ get e = [] then none else some (.str (Json.escape (get e)))
  read e v := (Json.decodeStr (get e) v).map (set e)

def numberField (name : Bytes) (omitempty : Bool) (get : NodeEndpoint → Int64) (set : NodeEndpoint → Int64 → NodeEndpoint) : Field where
  name := name
  write e := if omitempty ∧ get e = 0 then none else some (.num (Bytes.itoa (get e).toInt))
  read e v := (Json.decodeInt (get e).toInt v).map fun n => set e (Int64.ofInt n)

def decodeBool (old : Bool) : Json → Option Bool
  | .bool b => some b
  | .null => some old
  | _ => none

def flagField (name : Bytes) (get : NodeEndpoint → Bool) (set : NodeEndpoint → Bool → NodeEndpoint) : Field where
  name := name
  write e := if get e then some (.bool true) else none
  read e v := (decodeBool (get e) v).map (set e)

def fields : List Field :=
  [textField (str "domain_id") false (·.DomainID) fun e x => { e with DomainID := x },
    textField (str "mode") true (·.Mode) fun e x => { e with Mode := x },
    textField (str "host") false (·.Host) fun e x => { e with Host := x },
    numberField (str "port") false (·.Port) fun e x => { e with Port := x },
    textField (str "protocol") false (·.Protocol) fun e x => { e with Protocol := x },
    numberField (str "timeout") true (·.Timeout) fun e x => { e with Timeout := x },
    textField (str "cert_file") true (·.CertFile) fun e x => { e with CertFile := x },
    textField (str "key_file") true (·.KeyFile) fun e x => { e with KeyFile := x },
    textField (str "ca_file") true (·.CAFile) fun e x => { e with CAFile := x },
    textField (str "token") true (·.Token) fun e x => { e with Token := x },
    textField (str "server_name") true (·.ServerName) fun e x => { e with ServerName := x },
    flagField (str "insecure_skip_verify") (·.InsecureSkipVerify) fun e x => { e with InsecureSkipVerify := x },
    textField (str "http_proxy") true (·.HTTPProxy) fun e x => { e with HTTPProxy := x }]

def fieldNames : List Bytes := fields.map (·.name)

def members : List (Bytes × Json) := fields.filterMap fun f => (f.write e).map fun v => (f.name, v)

def readMember (e : NodeEndpoint) (m : Bytes × Json) : Option NodeEndpoint :=
  match Json.matchField fieldNames (Json.unquote m.1) with
  | some name => (fields.find? fun f => decide (f.name = name)).elim (some e) fun f => f.read e m.2
  | none => some e

def ofJson : Json → Option NodeEndpoint
  | .obj ms => ms.foldlM readMember {}
  | .null => some {}
  | _ => none

end NodeEndpoint

/-- `json.MarshalIndent(eps, "", "  ")`. -/
def marshal (eps : List NodeEndpoint) : Bytes := Json.indent 0 (.arr (eps.map fun e => .obj e.members))

def unmarshal (s : Bytes) : Option (List NodeEndpoint) :=
  match Json.parse s with
  | some (.arr vs) => vs.mapM NodeEndpoint.ofJson
  | some .null => some []
  | _ => none

namespace NodeEndpoint

variable {e z : NodeEndpoint} {f : Field}

def Readable (e : NodeEndpoint) : Prop :=
  ∀ s ∈ [e.DomainID, e.Mode, e.Host, e.Protocol, e.CertFile, e.KeyFile, e.CAFile, e.Token, e.ServerName, e.HTTPProxy], Utf8.validString s = true

instance (e : NodeEndpoint) : Decidable (Readable e) := inferInstanceAs (Decidable (∀ s ∈ _, _))

def Field.copy (f : Field) (e z : NodeEndpoint) : NodeEndpoint := (f.write e).elim z fun v => (f.read z v).getD z

theorem names_ok : fieldNames.Nodup ∧ ∀ k ∈ fieldNames, Json.StrLit k ∧ Json.unquote k = k := by decide

theorem find_field {fs : List Field} (hn : (fs.map (·.name)).Nodup) (hf : f ∈ fs) : fs.find? (fun g => decide (g.name = f.name)) = some f := by
  induction fs with
  | nil => cases hf
  | cons g fs ih =>
    obtain ⟨hg, hn⟩ := List.nodup_cons.1 hn
    rcases List.mem_cons.1 hf with rfl | hf
    · exact List.find?_cons_of_pos (by simp)
    · have hne : g.name ≠ f.name := fun he => hg (List.mem_map.2 ⟨f, hf, he.symm⟩)
      rw [List.find?_cons_of_neg (by simpa using hne)]
      exact ih hn hf

theorem readMember_field (hf : f ∈ fields) (z : NodeEndpoint) (v : Json) : readMember z (f.name, v) = f.read z v := by
  have hname : f.name ∈ fieldNames := List.mem_map_of_mem hf
  have hmatch : Json.matchField fieldNames (Json.unquote f.name) = some f.name := by
    rw [(names_ok.2 _ hname).2]
    exact Json.matchField_of_mem hname
  rw [readMember, hmatch]
  show (fields.find? fun g => decide (g.name = f.name)).elim (some z) _ = _
  rw [find_field names_ok.1 hf]
  rfl

theorem foldlM_members (fs : List Field) (hfs : ∀ f ∈ fs, f ∈ fields)
    (hread : ∀ f ∈ fs, ∀ v ∈ f.write e, ∀ z, (f.read z v).isSome = true) (z : NodeEndpoint) :
    (fs.filterMap fun f => (f.write e).map fun v => (f.name, v)).foldlM readMember z = some (fs.foldl (fun z f => f.copy e z) z) := by
  induction fs generalizing z with
  | nil => rfl
  | cons f fs ih =>
    have htail := ih (fun g hg => hfs g (List.mem_cons_of_mem _ hg)) fun g hg => hread g (List.mem_cons_of_mem _ hg)
    cases hw : f.write e with
    | none =>
      have hcopy : f.copy e z = z := by rw [Field.copy, hw]; rfl
      rw [List.filterMap_cons_none (by rw [hw]; rfl), htail, List.foldl_cons, hcopy]
    | some v =>
      obtain ⟨z', hz⟩ := Option.isSome_iff_exists.1 (hread f List.mem_cons_self v hw z)
      have hcopy : f.copy e z = z' := by rw [Field.copy, hw]; exact congrArg (Option.getD · z) hz
      rw [List.filterMap_cons_some (by rw [hw]; rfl), List.foldlM_cons, readMember_field (hfs f List.mem_cons_self), hz, List.foldl_cons, hcopy]
      exact htail z'

section
variable {name : Bytes} {omitempty : Bool}

theorem copy_text (get : NodeEndpoint → Bytes) {set : NodeEndpoint → Bytes → NodeEndpoint} (h : Utf8.validString (get e) = true) (hz : set z [] = z) :
    (textField name omitempty get set).copy e z = set z (get e) := by
  have hback : Json.unquote (Json.escape (get e)) = get e := (Json.unquote_escape _).trans (Json.repair_eq_self h)
  have hw : (textField name omitempty get set).write e = if omitempty ∧ get e = [] then none else some (.str (Json.escape (get e))) := rfl
  rw [Field.copy, hw]
  split_ifs with hn
  · rw [hn.2, hz]
    rfl
  · exact congrArg (set z) hback

theorem copy_number {get : NodeEndpoint → Int64} {set : NodeEndpoint → Int64 → NodeEndpoint} (hz : set z 0 = z) :
    (numberField name omitempty get set).copy e z = set z (get e) := by
  have hint := Json.parseInt64_itoa (Int64.le_toInt (get e)) (Int64.toInt_lt (get e))
  have hw : (numberField name omitempty get set).write e = if omitempty ∧ get e = 0 then none else some (.num (Bytes.itoa (get e).toInt)) := rfl
  rw [Field.copy, hw]
  split_ifs with hn
  · rw [hn.2, hz]
    rfl
  · simp [numberField, Json.decodeInt, hint]

theorem copy_flag {get : NodeEndpoint → Bool} {set : NodeEndpoint → Bool → NodeEndpoint} (hz : set z false = z) :
    (flagField name get set).copy e z = set z (get e) := by
  have hw : (flagField name get set).write e = if get e then some (.bool true) else none := rfl
  rw [Field.copy, hw]
  split_ifs with hn
  · rw [hn]
    rfl
  · rw [Bool.not_eq_true] at hn
    rw [hn, hz]
    rfl
end

theorem foldl_copy (h : e.Readable) : fields.foldl (fun z f => f.copy e z) {} = { e with Persist := false } := by
  simp only [Readable, List.forall_mem_cons] at h
  obtain ⟨h1, h2, h3, h4, h5, h6, h7, h8, h9, h10, -⟩ := h
  simp (disch := rfl) only [fields, List.foldl_cons, List.foldl_nil, copy_text (·.DomainID) h1, copy_text (·.Mode) h2,
    copy_text (·.Host) h3, copy_text (·.Protocol) h4, copy_text (·.CertFile) h5, copy_text (·.KeyFile) h6,
    copy_text (·.CAFile) h7, copy_text (·.Token) h8, copy_text (·.ServerName) h9, copy_text (·.HTTPProxy) h10,
    copy_number, copy_flag]

theorem write_read (hf : f ∈ fields) {v : Json} (hv : v ∈ f.write e) : Json.Wf v ∧ v.depth = 0 ∧ ∀ z, (f.read z v).isSome = true := by
  have htext : ∀ {name omitempty get set}, v ∈ (textField name omitempty get set).write e →
      Json.Wf v ∧ v.depth = 0 ∧ ∀ z, ((textField name omitempty get set).read z v).isSome = true := by
    intro name omitempty get set hv
    simp only [textField, Option.mem_def, Option.ite_none_left_eq_some, Option.some.injEq] at hv
    obtain ⟨-, rfl⟩ := hv
    exact ⟨Json.strLit_escape _, rfl, fun _ => rfl⟩
  have hnumber : ∀ {name omitempty get set}, v ∈ (numberField name omitempty get set).write e →
      Json.Wf v ∧ v.depth = 0 ∧ ∀ z, ((numberField name omitempty get set).read z v).isSome = true := by
    intro name omitempty get set hv
    simp only [numberField, Option.mem_def, Option.ite_none_left_eq_some, Option.some.injEq] at hv
    obtain ⟨-, rfl⟩ := hv
    have hint := Json.parseInt64_itoa (Int64.le_toInt (get e)) (Int64.toInt_lt (get e))
    exact ⟨Json.numLit_itoa _, rfl, fun _ => by simp [numberField, Json.decodeInt, hint]⟩
  have hflag : ∀ {name get set}, v ∈ (flagField name get set).write e →
      Json.Wf v ∧ v.depth = 0 ∧ ∀ z, ((flagField name get set).read z v).isSome = true := by
    intro name get set hv
    simp only [flagField, Option.mem_def, Option.ite_none_right_eq_some, Option.some.injEq] at hv
    obtain ⟨-, rfl⟩ := hv
    exact ⟨trivial, rfl, fun _ => rfl⟩
  simp only [fields, List.mem_cons, List.not_mem_nil, or_false] at hf
  rcases hf with rfl | rfl | rfl | rfl | rfl | rfl | rfl | rfl | rfl | rfl | rfl | rfl | rfl
  all_goals first | exact htext hv | exact hnumber hv | exact hflag hv

theorem ofJson_members (h : e.Readable) : ofJson (.obj e.members) = some { e with Persist := false } :=
  (foldlM_members fields (fun _ hf => hf) (fun _ hf _ hv => (write_read hf hv).2.2) {}).trans (congrArg some (foldl_copy h))

theorem wf_members (e : NodeEndpoint) : Json.Wf (.obj e.members) ∧ (Json.obj e.members).depth = 1 := by
  have hmem : ∀ m ∈ e.members, Json.StrLit m.1 ∧ Json.Wf m.2 ∧ m.2.depth = 0 := by
    intro m hm
    obtain ⟨f, hf, hfm⟩ := List.mem_filterMap.1 hm
    obtain ⟨v, hv, rfl⟩ := Option.map_eq_some_iff.1 hfm
    obtain ⟨hwf, hdepth, -⟩ := write_read hf hv
    exact ⟨(names_ok.2 _ (List.mem_map_of_mem hf)).1, hwf, hdepth⟩
  exact ⟨(Json.wfMembers_iff _).2 fun m hm => ⟨(hmem m hm).1, (hmem m hm).2.1⟩, Json.depth_obj fun m hm => (hmem m hm).2.2⟩

end NodeEndpoint

theorem unmarshal_marshal {eps : List NodeEndpoint} (h : ∀ e ∈ eps, e.Readable) :
    unmarshal (marshal eps) = some (eps.map fun e => { e with Persist := false }) := by
  have hwf : Json.Wf (.arr (eps.map fun e => .obj e.members)) := (Json.wfItems_iff _).2 fun v hv => by
    obtain ⟨e, -, rfl⟩ := List.mem_map.1 hv
    exact e.wf_members.1
  have hdepth : (Json.arr (eps.map fun e => .obj e.members)).depth ≤ Json.maxNestingDepth :=
    (Nat.succ_le_succ (Json.depthItems_le.2 fun v hv => by
      obtain ⟨e, -, rfl⟩ := List.mem_map.1 hv
      exact e.wf_members.2.le)).trans (by decide : 1 + 1 ≤ Json.maxNestingDepth)
  rw [unmarshal, marshal, Json.parse_indent hwf hdepth]
  show List.mapM _ _ = _
  clear hwf hdepth
  induction eps with
  | nil => rfl
  | cons e eps ih =>
    rw [List.map_cons, List.mapM_cons, NodeEndpoint.ofJson_members (h e List.mem_cons_self), ih fun x hx => h x (List.mem_cons_of_mem _ hx)]
    rfl

end Kuscia
