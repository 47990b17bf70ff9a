import Privahub.Lib.JsonCompact
import Privahub.Lib.Table

/-!
# Node definitions as they are stored and read

`canonicalNodeDef` takes a definition out of a string, keeps the last value of each name, drops a name in snake case beside
its twin in camel case, and writes what is left in the order of the names; `ParseNodeDef` reads the fields of an object,
whatever the case of its names, and falls back on snake case when the list of paths is empty. `Faithful` says for which
definitions the text that is stored is stored again as it is and means what the definition means.
-/

namespace Graph.Definition

structure NodeDef where
  domain : Bytes
  name : Bytes
  version : Bytes
  attrPaths : List Bytes
  attrs : List Json
  checkpointURI : Bytes

inductive Field
  | domain | name | version | attrPaths | attrs | checkpointURI | attrPathsSnake | checkpointSn
  deriving DecidableEq

def Field.tag : Field → Bytes
  | .domain => str "domain"
  | .name => str "name"
  | .version => str "version"
  | .attrPaths => str "attrPaths"
  | .attrs => str "attrs"
  | .checkpointURI => str "checkpointUri"
  | .attrPathsSnake => str "attr_paths"
  | .checkpointSn => str "checkpoint_uri"

def fields : List Field := [.domain, .name, .version, .attrPaths, .attrs, .checkpointURI, .attrPathsSnake, .checkpointSn]

structure Strings where
  elems : List Bytes
  hidden : List Bytes

structure Alt where
  domain : Bytes
  name : Bytes
  version : Bytes
  attrPaths : Strings
  attrs : List Json
  checkpointURI : Bytes
  attrPathsSnake : Strings
  checkpointSn : Bytes

def decodeElems : List Bytes → List Json → Option Strings
  | old, [] => some ⟨[], old⟩
  | old, v :: vs => (Json.decodeStr (old.headD []) v).bind fun s => (decodeElems old.tail vs).map fun r => ⟨s :: r.elems, r.hidden⟩

def decodeStrings (old : Strings) : Json → Option Strings
  | .null | .arr [] => some ⟨[], []⟩
  | .arr items => decodeElems (old.elems ++ old.hidden) items
  | _ => none

def decodeRaws : Json → Option (List Json)
  | .null => some []
  | .arr items => some items
  | _ => none

def Alt.set (alt : Alt) (f : Field) (v : Json) : Option Alt :=
  match f with
  | .domain => (Json.decodeStr alt.domain v).map fun s => { alt with domain := s }
  | .name => (Json.decodeStr alt.name v).map fun s => { alt with name := s }
  | .version => (Json.decodeStr alt.version v).map fun s => { alt with version := s }
  | .attrPaths => (decodeStrings alt.attrPaths v).map fun ss => { alt with attrPaths := ss }
  | .attrs => (decodeRaws v).map fun rs => { alt with attrs := rs }
  | .checkpointURI => (Json.decodeStr alt.checkpointURI v).map fun s => { alt with checkpointURI := s }
  | .attrPathsSnake => (decodeStrings alt.attrPathsSnake v).map fun ss => { alt with attrPathsSnake := ss }
  | .checkpointSn => (Json.decodeStr alt.checkpointSn v).map fun s => { alt with checkpointSn := s }

def Alt.zero : Alt := ⟨[], [], [], ⟨[], []⟩, [], [], ⟨[], []⟩, []⟩

def unmarshal (raw : Bytes) : Option Alt :=
  Json.decodeStruct (fields.map Field.tag) (fun alt name v => match fields.find? fun f => decide (f.tag = name) with
    | some f => alt.set f v
    | none => some alt) Alt.zero raw

def NodeDef.empty : NodeDef := ⟨[], [], [], [], [], []⟩

def ParseNodeDef (raw : Bytes) : NodeDef :=
  if Utf8.trimSpace raw = [] then .empty
  else match unmarshal raw with
    | none => .empty
    | some alt => {
      domain := alt.domain
      name := alt.name
      version := alt.version
      attrPaths := if alt.attrPaths.elems = [] then alt.attrPathsSnake.elems else alt.attrPaths.elems
      attrs := alt.attrs
      checkpointURI := if alt.checkpointURI = [] then alt.checkpointSn else alt.checkpointURI }

def names (ms : List (Bytes × Json)) : List Bytes := (ms.map fun m => Json.unquote m.1).dedup.mergeSort fun a b => decide (a ≤ b)

def valueOf (ms : List (Bytes × Json)) (name : Bytes) : Json :=
  ((ms.reverse.find? fun m => decide (Json.unquote m.1 = name)).map (·.2)).getD .null

def keptNames (ms : List (Bytes × Json)) : List Bytes :=
  (names ms).filter fun name => decide (¬(name = str "attr_paths" ∧ str "attrPaths" ∈ names ms) ∧
    ¬(name = str "checkpoint_uri" ∧ str "checkpointUri" ∈ names ms))

def kept (ms : List (Bytes × Json)) : List (Bytes × Json) := (keptNames ms).map fun name => (Json.escape name, valueOf ms name)

/-- `json.Marshal` of a map of raw values. -/
def marshal (ms : List (Bytes × Json)) : Bytes := Json.render (.obj (ms.map fun m => (m.1, m.2.html)))

def canonicalNodeDef (raw : Bytes) : Bytes :=
  let raw := Utf8.trimSpace raw
  if raw = [] ∨ raw = str "null" then []
  else
    let raw := match Json.parse raw with
      | some (.str lit) => Json.unquote lit
      | some .null => []
      | _ => raw
    match Json.parse raw with
    | some (.obj ms) => marshal (kept ms)
    | some .null => str "null"
    | some v => Json.render v
    | none => raw

def fieldOf (key : Bytes) : Option Field :=
  (Json.matchField (fields.map Field.tag) key).bind fun name => fields.find? fun f => decide (f.tag = name)

def values (ms : List (Bytes × Json)) (f : Field) : List Json :=
  (ms.filter fun m => decide (fieldOf (Json.unquote m.1) = some f)).map (·.2)

/-- The last value of each of its names, in the order of the names, without a name in snake case beside its twin. -/
def finals (ms : List (Bytes × Json)) (f : Field) : List Json :=
  ((keptNames ms).filter fun name => decide (fieldOf name = some f)).map (valueOf ms)

def isText : Json → Bool
  | .null | .str _ => true
  | _ => false

def isTexts : Json → Bool
  | .null => true
  | .arr items => items.all isText
  | _ => false

def isRaws : Json → Bool
  | .null | .arr _ => true
  | _ => false

def Field.typed (f : Field) (v : Json) : Bool :=
  match f with
  | .attrPaths | .attrPathsSnake => isTexts v
  | .attrs => isRaws v
  | _ => isText v

def lastText (old : Bytes) (vs : List Json) : Bytes := vs.foldl (fun old v => (Json.decodeStr old v).getD old) old

def lastTexts (old : Strings) (vs : List Json) : Strings := vs.foldl (fun old v => (decodeStrings old v).getD old) old

def lastRaws (old : List Json) (vs : List Json) : List Json := vs.foldl (fun old v => (decodeRaws v).getD old) old

section

variable (vals vals' : Field → List Json)

def Typed : Prop := ∀ f ∈ fields, ∀ v ∈ vals f, f.typed v = true

instance : Decidable (Typed vals) := inferInstanceAs (Decidable (∀ f ∈ fields, ∀ v ∈ vals f, f.typed v = true))

def text (f : Field) : Bytes := lastText [] (vals f)

def texts (f : Field) : List Bytes := (lastTexts ⟨[], []⟩ (vals f)).elems

def paths : List Bytes := if texts vals .attrPaths = [] then texts vals .attrPathsSnake else texts vals .attrPaths

def raws : List Json := lastRaws [] (vals .attrs)

/-- The same component, paths and attributes, up to the escapes that `json.Marshal` writes. -/
structure SameSaid : Prop where
  domain : text vals .domain = text vals' .domain
  name : text vals .name = text vals' .name
  version : text vals .version = text vals' .version
  paths : paths vals = paths vals'
  attrs : (raws vals).map Json.html = (raws vals').map Json.html

structure SaysNothing : Prop where
  domain : text vals .domain = []
  name : text vals .name = []
  version : text vals .version = []
  paths : paths vals = []
  attrs : raws vals = []

end

/-- The content of a string that is stored again as it is and means nothing: an object that cannot be read or says nothing,
another value unless it is `null` or a string, and a text that is no JSON if it has no space around it. -/
def FaithfulContent (s : Bytes) : Prop :=
  match Json.parse s with
  | some (.obj ms) => Typed (finals ms) → SaysNothing (finals ms)
  | some .null | some (.str _) => False
  | some _ => True
  | none => Utf8.trimSpace s = s

/-- A definition whose stored text is stored again as it is and means the same: its fields say in their order what the last value of each name says
in the order of the names, or neither can be read, or they say nothing. -/
def Faithful : Json → Prop
  | .obj ms => if Typed (values ms) then SameSaid (values ms) (finals ms) else Typed (finals ms) → SaysNothing (finals ms)
  | .str lit => FaithfulContent (Json.unquote lit)
  | _ => True

/-- The same component, attribute paths and attributes. -/
structure NodeDef.Same (nd nd' : NodeDef) : Prop where
  domain : nd.domain = nd'.domain
  name : nd.name = nd'.name
  version : nd.version = nd'.version
  attrPaths : nd.attrPaths = nd'.attrPaths
  attrs : nd.attrs.map Json.html = nd'.attrs.map Json.html

variable {ms : List (Bytes × Json)} {vals vals' : Field → List Json} {raw lit : Bytes} {f : Field} {v : Json} {alt : Alt} {k : Bytes}

theorem mem_fields (f : Field) : f ∈ fields := by cases f <;> decide

theorem values_cons (m : Bytes × Json) (ms : List (Bytes × Json)) (f : Field) :
    values (m :: ms) f = if fieldOf (Json.unquote m.1) = some f then m.2 :: values ms f else values ms f := by
  unfold values
  rw [List.filter_cons]
  split_ifs with h1 h2 h2
  · rfl
  · exact absurd (of_decide_eq_true h1) h2
  · exact absurd (decide_eq_true h2) h1
  · rfl

theorem typed_cons {m : Bytes × Json} (hf : fieldOf (Json.unquote m.1) = some f) :
    Typed (values (m :: ms)) ↔ f.typed m.2 = true ∧ Typed (values ms) := by
  constructor
  · intro h
    refine ⟨h f (mem_fields f) m.2 (by rw [values_cons, if_pos hf]; exact List.mem_cons_self), fun g hg v hv => h g hg v ?_⟩
    rw [values_cons]
    split_ifs
    · exact List.mem_cons_of_mem _ hv
    · exact hv
  · rintro ⟨hm, h⟩ g hg v hv
    rw [values_cons] at hv
    split_ifs at hv with hfg
    · rcases List.mem_cons.1 hv with rfl | hv
      · obtain rfl := Option.some.inj (hf.symm.trans hfg)
        exact hm
      · exact h g hg v hv
    · exact h g hg v hv

theorem decodeStr_isSome (old : Bytes) (v : Json) : (Json.decodeStr old v).isSome = isText v := by cases v <;> rfl

theorem decodeElems_isSome (old : List Bytes) (vs : List Json) : (decodeElems old vs).isSome = vs.all isText := by
  induction vs generalizing old with
  | nil => rfl
  | cons v vs ih =>
    rw [decodeElems, List.all_cons, ← decodeStr_isSome (old.headD []) v, ← ih old.tail]
    cases Json.decodeStr (old.headD []) v with
    | none => rfl
    | some s => simp

theorem decodeStrings_isSome (old : Strings) (v : Json) : (decodeStrings old v).isSome = isTexts v := by
  match v with
  | .null => rfl
  | .bool _ => rfl
  | .num _ => rfl
  | .str _ => rfl
  | .arr [] => rfl
  | .arr (w :: ws) => exact decodeElems_isSome _ (w :: ws)
  | .obj _ => rfl

theorem set_isSome (alt : Alt) (f : Field) (v : Json) : (alt.set f v).isSome = f.typed v := by
  cases f <;> simp only [Alt.set, Field.typed, Option.isSome_map, decodeStr_isSome, decodeStrings_isSome]
  cases v <;> rfl

def Alt.after (alt : Alt) (vals : Field → List Json) : Alt where
  domain := lastText alt.domain (vals .domain)
  name := lastText alt.name (vals .name)
  version := lastText alt.version (vals .version)
  attrPaths := lastTexts alt.attrPaths (vals .attrPaths)
  attrs := lastRaws alt.attrs (vals .attrs)
  checkpointURI := lastText alt.checkpointURI (vals .checkpointURI)
  attrPathsSnake := lastTexts alt.attrPathsSnake (vals .attrPathsSnake)
  checkpointSn := lastText alt.checkpointSn (vals .checkpointSn)

def readMember (alt : Alt) (m : Bytes × Json) : Option Alt :=
  match fieldOf (Json.unquote m.1) with
  | some f => alt.set f m.2
  | none => some alt

theorem set_after {alt' : Alt} {m : Bytes × Json} (hf : fieldOf (Json.unquote m.1) = some f) (h : alt.set f m.2 = some alt') (ms : List (Bytes × Json)) :
    alt.after (values (m :: ms)) = alt'.after (values ms) := by
  cases f <;> obtain ⟨s, hs, rfl⟩ := Option.map_eq_some_iff.1 h <;>
    simp [Alt.after, values_cons, hf, lastText, lastTexts, lastRaws, hs]

theorem foldlM_readMember (alt : Alt) (ms : List (Bytes × Json)) :
    ms.foldlM readMember alt = if Typed (values ms) then some (alt.after (values ms)) else none := by
  induction ms generalizing alt with
  | nil =>
    have htyped : Typed (values []) := fun _ _ _ hv => absurd hv List.not_mem_nil
    rw [if_pos htyped]
    rfl
  | cons m ms ih =>
    rw [List.foldlM_cons]
    cases hf : fieldOf (Json.unquote m.1) with
    | none =>
      have hread : readMember alt m = some alt := by
        unfold readMember
        rw [hf]
      have hvalues : values (m :: ms) = values ms := funext fun f => by simp [values_cons, hf]
      rw [hread, hvalues]
      exact ih alt
    | some f =>
      have hread : readMember alt m = alt.set f m.2 := by
        unfold readMember
        rw [hf]
      have hsome := set_isSome alt f m.2
      rw [hread]
      cases hset : alt.set f m.2 with
      | none =>
        rw [hset] at hsome
        rw [if_neg fun h => absurd ((typed_cons hf).1 h).1 (by simp [← hsome])]
        rfl
      | some alt' =>
        rw [hset] at hsome
        have htyped : Typed (values (m :: ms)) ↔ Typed (values ms) := (typed_cons hf).trans (and_iff_right hsome.symm)
        simp only [htyped, set_after hf hset]
        exact ih alt'

/-- What `ParseNodeDef` gives for the values of the fields of an object. -/
def define (vals : Field → List Json) : NodeDef :=
  if Typed vals then ⟨text vals .domain, text vals .name, text vals .version, paths vals, raws vals,
    if text vals .checkpointURI = [] then text vals .checkpointSn else text vals .checkpointURI⟩
  else .empty

theorem unmarshal_eq (raw : Bytes) : unmarshal raw = match Json.parse raw with
    | some (.obj ms) => ms.foldlM readMember Alt.zero
    | some .null => some Alt.zero
    | _ => none := by
  unfold unmarshal Json.decodeStruct
  cases Json.parse raw with
  | none => rfl
  | some v =>
    cases v with
    | obj ms =>
      dsimp only
      congr 1
      funext alt m
      unfold readMember fieldOf
      cases Json.matchField (fields.map Field.tag) (Json.unquote m.1) with
      | none => rfl
      | some name => rfl
    | _ => rfl

theorem trimSpace_ne_nil (h : Json.parse raw = some v) : Utf8.trimSpace raw ≠ [] := by
  intro hnil
  have htrim := Json.parse_trimSpace h
  rw [hnil] at htrim
  cases htrim

/-- What `ParseNodeDef` gives for a value. -/
def meaning : Json → NodeDef
  | .obj ms => define (values ms)
  | _ => .empty

theorem parseNodeDef_eq (h : Json.parse raw = some v) : ParseNodeDef raw = meaning v := by
  unfold ParseNodeDef
  rw [if_neg (trimSpace_ne_nil h), unmarshal_eq, h]
  cases v with
  | obj ms =>
    dsimp only
    rw [foldlM_readMember]
    show _ = define (values ms)
    unfold define
    by_cases htyped : Typed (values ms)
    · rw [if_pos htyped, if_pos htyped]
      rfl
    · rw [if_neg htyped, if_neg htyped]
  | _ => rfl

theorem parseNodeDef_none (h : Json.parse raw = none) : ParseNodeDef raw = .empty := by
  unfold ParseNodeDef
  rw [unmarshal_eq, h]
  split_ifs <;> rfl

def written (ms : List (Bytes × Json)) : List (Bytes × Json) := ms.map fun m => (m.1, m.2.html)

def WfValues (vals : Field → List Json) : Prop := ∀ f, ∀ v ∈ vals f, Json.Wf v

def writtenValues (vals : Field → List Json) (f : Field) : List Json := (vals f).map Json.html

theorem values_written (ms : List (Bytes × Json)) : values (written ms) = writtenValues (values ms) := by
  funext f
  unfold values written writtenValues
  rw [List.filter_map, List.map_map, List.map_map]
  rfl

theorem decodeStr_html (old : Bytes) (h : Json.Wf v) : Json.decodeStr old v.html = Json.decodeStr old v := by
  cases v with
  | str lit => exact congrArg some (Json.unquote_escapeHTML h)
  | _ => rfl

theorem decodeElems_html (old : List Bytes) {vs : List Json} (h : ∀ v ∈ vs, Json.Wf v) : decodeElems old (vs.map Json.html) = decodeElems old vs := by
  induction vs generalizing old with
  | nil => rfl
  | cons v vs ih =>
    rw [List.map_cons, decodeElems, decodeElems, decodeStr_html _ (h v List.mem_cons_self), ih _ fun w hw => h w (List.mem_cons_of_mem _ hw)]

theorem decodeStrings_html (old : Strings) (h : Json.Wf v) : decodeStrings old v.html = decodeStrings old v := by
  match v with
  | .null => rfl
  | .bool _ => rfl
  | .num _ => rfl
  | .str _ => rfl
  | .arr [] => rfl
  | .arr (w :: ws) =>
    have helems : decodeElems (old.elems ++ old.hidden) ((w :: ws).map Json.html) = decodeElems (old.elems ++ old.hidden) (w :: ws) :=
      decodeElems_html _ ((Json.wfItems_iff _).1 h)
    rw [← Json.htmlItems_eq] at helems
    exact helems
  | .obj _ => rfl

theorem typed_html (f : Field) (h : Json.Wf v) : f.typed v.html = f.typed v := by
  have hraws : isRaws v.html = isRaws v := by cases v <;> rfl
  have htext : isText v.html = isText v := by cases v <;> rfl
  have htexts : isTexts v.html = isTexts v := by
    rw [← decodeStrings_isSome ⟨[], []⟩, ← decodeStrings_isSome ⟨[], []⟩, decodeStrings_html _ h]
  cases f with
  | attrs => exact hraws
  | attrPaths => exact htexts
  | attrPathsSnake => exact htexts
  | _ => exact htext

theorem lastText_html (old : Bytes) {vs : List Json} (h : ∀ v ∈ vs, Json.Wf v) : lastText old (vs.map Json.html) = lastText old vs := by
  induction vs generalizing old with
  | nil => rfl
  | cons v vs ih =>
    show lastText ((Json.decodeStr old v.html).getD old) (vs.map Json.html) = lastText ((Json.decodeStr old v).getD old) vs
    rw [decodeStr_html _ (h v List.mem_cons_self), ih _ fun w hw => h w (List.mem_cons_of_mem _ hw)]

theorem lastTexts_html (old : Strings) {vs : List Json} (h : ∀ v ∈ vs, Json.Wf v) : lastTexts old (vs.map Json.html) = lastTexts old vs := by
  induction vs generalizing old with
  | nil => rfl
  | cons v vs ih =>
    show lastTexts ((decodeStrings old v.html).getD old) (vs.map Json.html) = lastTexts ((decodeStrings old v).getD old) vs
    rw [decodeStrings_html _ (h v List.mem_cons_self), ih _ fun w hw => h w (List.mem_cons_of_mem _ hw)]

theorem lastRaws_html (old : List Json) (vs : List Json) : lastRaws (old.map Json.html) (vs.map Json.html) = (lastRaws old vs).map Json.html := by
  induction vs generalizing old with
  | nil => rfl
  | cons v vs ih =>
    have hstep : (decodeRaws v.html).getD (old.map Json.html) = ((decodeRaws v).getD old).map Json.html := by
      cases v with
      | arr items => exact Json.htmlItems_eq items
      | _ => rfl
    show lastRaws ((decodeRaws v.html).getD (old.map Json.html)) (vs.map Json.html) = (lastRaws ((decodeRaws v).getD old) vs).map Json.html
    rw [hstep, ih]

theorem text_written (h : WfValues vals) : text (writtenValues vals) f = text vals f := lastText_html _ (h f)

theorem texts_written (h : WfValues vals) : texts (writtenValues vals) f = texts vals f := congrArg Strings.elems (lastTexts_html _ (h f))

theorem paths_written (h : WfValues vals) : paths (writtenValues vals) = paths vals := by
  unfold paths
  rw [texts_written h, texts_written h]

theorem raws_written (vals : Field → List Json) : raws (writtenValues vals) = (raws vals).map Json.html := lastRaws_html [] _

theorem typed_written (h : WfValues vals) : Typed (writtenValues vals) ↔ Typed vals := by
  unfold Typed writtenValues
  refine forall₂_congr fun f _ => ?_
  rw [List.forall_mem_map]
  exact forall₂_congr fun v hv => by rw [typed_html _ (h f v hv)]

theorem wf_lastRaws {old vs : List Json} (hold : ∀ v ∈ old, Json.Wf v) (h : ∀ v ∈ vs, Json.Wf v) : ∀ v ∈ lastRaws old vs, Json.Wf v := by
  induction vs generalizing old with
  | nil => exact hold
  | cons v vs ih =>
    refine ih ?_ fun w hw => h w (List.mem_cons_of_mem _ hw)
    cases v with
    | null => exact fun w hw => absurd hw List.not_mem_nil
    | arr items => exact (Json.wfItems_iff _).1 (h _ List.mem_cons_self)
    | _ => exact hold

theorem html_raws (h : WfValues vals) : ((raws vals).map Json.html).map Json.html = (raws vals).map Json.html := by
  rw [List.map_map]
  exact List.map_congr_left fun v hv => Json.html_html v (wf_lastRaws (fun _ hw => absurd hw List.not_mem_nil) (h _) v hv)

theorem define_same_iff (hwf : WfValues vals') (h : Typed vals) (h' : Typed vals') :
    (define (writtenValues vals')).Same (define vals) ↔ SameSaid vals vals' := by
  unfold define
  rw [if_pos ((typed_written hwf).2 h'), if_pos h, text_written hwf, text_written hwf, text_written hwf, paths_written hwf, raws_written]
  constructor
  · intro h
    exact ⟨h.domain.symm, h.name.symm, h.version.symm, h.attrPaths.symm, h.attrs.symm.trans (html_raws hwf)⟩
  · intro h
    exact ⟨h.domain.symm, h.name.symm, h.version.symm, h.paths.symm, (html_raws hwf).trans h.attrs.symm⟩

theorem define_empty_iff (hwf : WfValues vals) : (define (writtenValues vals)).Same .empty ↔ (Typed vals → SaysNothing vals) := by
  unfold define
  by_cases htyped : Typed vals
  · rw [if_pos ((typed_written hwf).2 htyped), text_written hwf, text_written hwf, text_written hwf, paths_written hwf, raws_written]
    constructor
    · intro h _
      refine ⟨h.domain, h.name, h.version, h.attrPaths, ?_⟩
      exact List.map_eq_nil_iff.1 (List.map_eq_nil_iff.1 h.attrs)
    · intro h
      obtain ⟨hdomain, hname, hversion, hpaths, hattrs⟩ := h htyped
      exact ⟨hdomain, hname, hversion, hpaths, by rw [hattrs]; rfl⟩
  · rw [if_neg fun h => htyped ((typed_written hwf).1 h)]
    exact iff_of_true ⟨rfl, rfl, rfl, rfl, rfl⟩ fun h => absurd h htyped

theorem names_sorted (ms : List (Bytes × Json)) : (names ms).Pairwise (· < ·) := Table.sorted_dedup _

theorem names_of_sorted (h : (ms.map fun m => Json.unquote m.1).Pairwise (· < ·)) : names ms = ms.map fun m => Json.unquote m.1 := by
  have hnodup : (ms.map fun m => Json.unquote m.1).Nodup := h.imp Std.ne_of_lt
  rw [names, hnodup.dedup]
  exact List.mergeSort_of_pairwise (h.imp fun hlt => decide_eq_true (Std.le_of_lt hlt))

theorem keptNames_sorted (ms : List (Bytes × Json)) : (keptNames ms).Pairwise (· < ·) := (names_sorted ms).filter _

theorem mem_names : k ∈ names ms ↔ ∃ m ∈ ms, Json.unquote m.1 = k := by
  rw [names, List.mem_mergeSort, List.mem_dedup, List.mem_map]

theorem mem_keptNames : k ∈ keptNames ms ↔ k ∈ names ms ∧ ¬(k = str "attr_paths" ∧ str "attrPaths" ∈ names ms) ∧
    ¬(k = str "checkpoint_uri" ∧ str "checkpointUri" ∈ names ms) := by
  rw [keptNames, List.mem_filter, decide_eq_true_iff]

theorem valueOf_mem (h : k ∈ names ms) : ∃ m ∈ ms, Json.unquote m.1 = k ∧ valueOf ms k = m.2 := by
  obtain ⟨m, hm, hk⟩ := mem_names.1 h
  unfold valueOf
  cases hf : ms.reverse.find? fun m => decide (Json.unquote m.1 = k) with
  | none => exact absurd (List.find?_eq_none.1 hf m (List.mem_reverse.2 hm)) (by simp [hk])
  | some m' =>
    have hd := List.find?_some hf
    exact ⟨m', List.mem_reverse.1 (List.mem_of_find?_eq_some hf), of_decide_eq_true hd, rfl⟩

structure Members (ms : List (Bytes × Json)) : Prop where
  wf : Json.Wf (.obj ms)
  depth : Json.depth (.obj ms) ≤ Json.maxNestingDepth

theorem members_of_parse (h : Json.parse raw = some (.obj ms)) : Members ms := by
  have hfits := Json.fits_of_parse h
  exact ⟨hfits.wf, by simpa using hfits.depth⟩

namespace Members

theorem member (h : Members ms) {m : Bytes × Json} (hm : m ∈ ms) : Json.StrLit m.1 ∧ Json.Wf m.2 := (Json.wfMembers_iff ms).1 h.wf m hm

theorem unquote_escape (h : Members ms) (hk : k ∈ names ms) : Json.unquote (Json.escape k) = k := by
  obtain ⟨m, hm, rfl⟩ := mem_names.1 hk
  rw [Json.unquote_escape, Json.repair_eq_self (Json.validString_unquote (h.member hm).1)]

theorem wf_valueOf (h : Members ms) (hk : k ∈ names ms) : Json.Wf (valueOf ms k) := by
  obtain ⟨m, hm, _, hv⟩ := valueOf_mem hk
  rw [hv]
  exact (h.member hm).2

theorem wf_finals (h : Members ms) : WfValues (finals ms) := by
  intro f v hv
  obtain ⟨k, hk, rfl⟩ := List.mem_map.1 hv
  exact h.wf_valueOf (mem_keptNames.1 (List.mem_filter.1 hk).1).1

theorem values_kept (h : Members ms) : values (kept ms) = finals ms := by
  funext f
  unfold values finals kept
  rw [List.filter_map, List.map_map]
  have hfilter : (keptNames ms).filter ((fun m => decide (fieldOf (Json.unquote m.1) = some f)) ∘ fun name => (Json.escape name, valueOf ms name)) =
      (keptNames ms).filter fun name => decide (fieldOf name = some f) :=
    List.filter_congr fun k hk => by rw [Function.comp_apply, h.unquote_escape (mem_keptNames.1 hk).1]
  rw [hfilter]
  rfl

theorem written_kept (h : Members ms) : Members (written (kept ms)) := by
  have hentry : ∀ m ∈ written (kept ms), ∃ k ∈ names ms, m = (Json.escape k, (valueOf ms k).html) := by
    intro m hm
    obtain ⟨m', hm', rfl⟩ := List.mem_map.1 hm
    obtain ⟨k, hk, rfl⟩ := List.mem_map.1 hm'
    exact ⟨k, (mem_keptNames.1 hk).1, rfl⟩
  have hdepth := h.depth
  rw [Json.depth] at hdepth
  refine ⟨(Json.wfMembers_iff _).2 fun m hm => ?_, ?_⟩
  · obtain ⟨k, hk, rfl⟩ := hentry m hm
    exact ⟨Json.strLit_escape k, Json.wf_html _ (h.wf_valueOf hk)⟩
  · rw [Json.depth]
    have hle : Json.depthMembers (written (kept ms)) ≤ Json.maxNestingDepth - 1 := by
      refine Json.depthMembers_le.2 fun m hm => ?_
      obtain ⟨k, hk, rfl⟩ := hentry m hm
      obtain ⟨m, hm, _, hv⟩ := valueOf_mem hk
      have hm := Json.depthMembers_le.1 (Nat.le_sub_one_of_lt hdepth) m hm
      show Json.depth (valueOf ms k).html ≤ _
      rw [Json.depth_html, hv]
      exact hm
    omega

theorem parse_marshal (h : Members ms) : Json.parse (marshal (kept ms)) = some (.obj (written (kept ms))) :=
  Json.parse_render h.written_kept.wf h.written_kept.depth

theorem kept_written (h : Members ms) : written (kept (written (kept ms))) = written (kept ms) := by
  have hunquote : (written (kept ms)).map (fun m => Json.unquote m.1) = keptNames ms := by
    unfold written kept
    rw [List.map_map, List.map_map]
    refine (List.map_congr_left fun k hk => ?_).trans (List.map_id _)
    exact h.unquote_escape (mem_keptNames.1 hk).1
  have hnames : names (written (kept ms)) = keptNames ms := (names_of_sorted (hunquote ▸ keptNames_sorted ms)).trans hunquote
  -- the twins in snake case are gone
  have hkept : keptNames (written (kept ms)) = keptNames ms := by
    rw [keptNames, hnames, List.filter_eq_self]
    intro k hk
    obtain ⟨_, hpaths, huri⟩ := mem_keptNames.1 hk
    exact decide_eq_true ⟨fun h => hpaths ⟨h.1, (mem_keptNames.1 h.2).1⟩, fun h => huri ⟨h.1, (mem_keptNames.1 h.2).1⟩⟩
  have hvalue : ∀ k ∈ keptNames ms, valueOf (written (kept ms)) k = (valueOf ms k).html := by
    intro k hk
    have hmem : k ∈ names (written (kept ms)) := hnames ▸ hk
    obtain ⟨m, hm, hname, hv⟩ := valueOf_mem hmem
    obtain ⟨m', hm', rfl⟩ := List.mem_map.1 hm
    obtain ⟨k', hk', rfl⟩ := List.mem_map.1 hm'
    have hk : k' = k := (h.unquote_escape (mem_keptNames.1 hk').1).symm.trans hname
    rw [hv, hk]
  conv_lhs => rw [written, kept, hkept, List.map_map]
  conv_rhs => rw [written, kept, List.map_map]
  refine List.map_congr_left fun k hk => ?_
  show (Json.escape k, (valueOf (written (kept ms)) k).html) = (Json.escape k, (valueOf ms k).html)
  rw [hvalue k hk, Json.html_html _ (h.wf_valueOf (mem_keptNames.1 hk).1)]

end Members

theorem mem_values_of_finals (h : v ∈ finals ms f) : v ∈ values ms f := by
  obtain ⟨k, hk, rfl⟩ := List.mem_map.1 h
  obtain ⟨hk, hf⟩ := List.mem_filter.1 hk
  obtain ⟨m, hm, rfl, hv⟩ := valueOf_mem (mem_keptNames.1 hk).1
  exact List.mem_map.2 ⟨m, List.mem_filter.2 ⟨hm, hf⟩, hv.symm⟩

theorem typed_finals (h : Typed (values ms)) : Typed (finals ms) := fun f hf v hv => h f hf v (mem_values_of_finals hv)

theorem member_unique (h : (values ms f).length ≤ 1) {m m' : Bytes × Json} (hm : m ∈ ms) (hf : fieldOf (Json.unquote m.1) = some f)
    (hm' : m' ∈ ms) (hf' : fieldOf (Json.unquote m'.1) = some f) : m = m' := by
  rw [values, List.length_map] at h
  have hm : m ∈ ms.filter fun m => decide (fieldOf (Json.unquote m.1) = some f) := List.mem_filter.2 ⟨hm, decide_eq_true hf⟩
  have hm' : m' ∈ ms.filter fun m => decide (fieldOf (Json.unquote m.1) = some f) := List.mem_filter.2 ⟨hm', decide_eq_true hf'⟩
  obtain ⟨a, ha⟩ := List.length_eq_one_iff.1 (Nat.le_antisymm h (List.length_pos_of_mem hm))
  rw [ha, List.mem_singleton] at hm hm'
  rw [hm, hm']

theorem finals_eq (hsingle : (values ms f).length ≤ 1) (hkept : ∀ k ∈ names ms, fieldOf k = some f → k ∈ keptNames ms) :
    finals ms f = values ms f := by
  rcases hvals : values ms f with _ | ⟨v, vs⟩
  · exact List.eq_nil_iff_forall_not_mem.2 fun v hv => absurd (hvals ▸ mem_values_of_finals hv) List.not_mem_nil
  obtain ⟨m, hm, hv⟩ := List.mem_map.1 (hvals ▸ List.mem_cons_self : v ∈ values ms f)
  obtain ⟨hm, hf⟩ := List.mem_filter.1 hm
  have hf := of_decide_eq_true hf
  obtain rfl : vs = [] := by simpa [hvals] using hsingle
  have hnames : (keptNames ms).filter (fun name => decide (fieldOf name = some f)) = [Json.unquote m.1] := by
    have hnodup : (keptNames ms).Nodup := (keptNames_sorted ms).imp Std.ne_of_lt
    refine List.perm_singleton.1 ((List.perm_ext_iff_of_nodup (hnodup.filter _) (List.nodup_singleton _)).2 fun k => ?_)
    rw [List.mem_filter, decide_eq_true_iff, List.mem_singleton]
    constructor
    · rintro ⟨hk, hfk⟩
      obtain ⟨m', hm', rfl⟩ := mem_names.1 (mem_keptNames.1 hk).1
      rw [member_unique hsingle hm' hfk hm hf]
    · rintro rfl
      exact ⟨hkept _ (mem_names.2 ⟨m, hm, rfl⟩) hf, hf⟩
  have hfinals : finals ms f = [valueOf ms (Json.unquote m.1)] := by rw [finals, hnames, List.map_singleton]
  have hvalue : valueOf ms (Json.unquote m.1) ∈ values ms f := mem_values_of_finals (by rw [hfinals]; exact List.mem_singleton_self _)
  rw [hvals] at hvalue
  rw [hfinals, List.mem_singleton.1 hvalue]

/-- An object that can be read and names each field once is faithful unless it has its paths in snake case beside an empty list in
camel case. -/
theorem faithful_iff_of_single (htyped : Typed (values ms)) (hsingle : ∀ f, (values ms f).length ≤ 1) :
    Faithful (.obj ms) ↔ (str "attrPaths" ∈ names ms → str "attr_paths" ∈ names ms → texts (values ms) .attrPaths = [] →
      texts (values ms) .attrPathsSnake = []) := by
  have hother : ∀ f, f ≠ .attrPathsSnake → f ≠ .checkpointSn → finals ms f = values ms f := by
    intro f hpaths huri
    refine finals_eq (hsingle f) fun k hk hf => mem_keptNames.2 ⟨hk, ?_, ?_⟩
    · rintro ⟨rfl, -⟩
      exact hpaths (Option.some.inj (hf.symm.trans (by decide)))
    · rintro ⟨rfl, -⟩
      exact huri (Option.some.inj (hf.symm.trans (by decide)))
  have hraws : raws (finals ms) = raws (values ms) := by rw [raws, raws, hother _ (by decide) (by decide)]
  have htext : ∀ f ∈ [Field.domain, .name, .version], text (values ms) f = text (finals ms) f := by
    intro f hf
    rw [text, text, hother f (by rintro rfl; revert hf; decide) (by rintro rfl; revert hf; decide)]
  have htexts : texts (finals ms) .attrPaths = texts (values ms) .attrPaths := by rw [texts, texts, hother _ (by decide) (by decide)]
  have hfaithful : Faithful (.obj ms) ↔ paths (values ms) = paths (finals ms) := by
    show (if Typed (values ms) then SameSaid (values ms) (finals ms) else _) ↔ _
    rw [if_pos htyped]
    exact ⟨fun h => h.paths, fun h => ⟨htext _ (by simp), htext _ (by simp), htext _ (by simp), h, by rw [hraws]⟩⟩
  rw [hfaithful, paths, paths, htexts]
  by_cases htwins : str "attrPaths" ∈ names ms ∧ str "attr_paths" ∈ names ms
  · -- the only name of the field is dropped
    have hnone : finals ms .attrPathsSnake = [] := by
      refine List.map_eq_nil_iff.2 (List.filter_eq_nil_iff.2 fun k hk hf => ?_)
      obtain ⟨hk, hdropped, -⟩ := mem_keptNames.1 hk
      obtain ⟨m, hm, rfl⟩ := mem_names.1 hk
      obtain ⟨m', hm', hname⟩ := mem_names.1 htwins.2
      rw [member_unique (hsingle _) hm (of_decide_eq_true hf) hm' (by rw [hname]; decide)] at hdropped
      exact hdropped ⟨hname, htwins.1⟩
    have htexts : texts (finals ms) .attrPathsSnake = [] := by rw [texts, hnone]; rfl
    simp only [htwins.1, htwins.2, htexts, true_imp_iff]
    by_cases hempty : texts (values ms) .attrPaths = []
    · simp [hempty]
    · simp [hempty]
  · have hsnake : finals ms .attrPathsSnake = values ms .attrPathsSnake := by
      refine finals_eq (hsingle _) fun k hk hf => mem_keptNames.2 ⟨hk, ?_, ?_⟩
      · rintro ⟨rfl, hcamel⟩
        exact htwins ⟨hcamel, hk⟩
      · rintro ⟨rfl, -⟩
        exact absurd hf (by decide)
    refine iff_of_true ?_ fun hcamel hk => absurd ⟨hcamel, hk⟩ htwins
    rw [texts, texts, texts, hsnake]

def unwrapped (s : Bytes) : Bytes :=
  match Json.parse s with
  | some (.obj ms) => marshal (kept ms)
  | some .null => str "null"
  | some v => Json.render v
  | none => s

def stored : Json → Bytes
  | .obj ms => marshal (kept ms)
  | .null => []
  | .str lit => unwrapped (Json.unquote lit)
  | v => Json.render v

theorem parse_null : Json.parse (str "null") = some .null := rfl

theorem canonicalNodeDef_eq (h : Json.parse (Utf8.trimSpace raw) = some v) : canonicalNodeDef raw = stored v := by
  have hne : Utf8.trimSpace raw ≠ [] := by
    intro hnil
    rw [hnil] at h
    cases h
  unfold canonicalNodeDef
  dsimp only
  by_cases hnull : Utf8.trimSpace raw = str "null"
  · rw [if_pos (.inr hnull)]
    rw [hnull, parse_null] at h
    obtain rfl := Option.some.inj h
    rfl
  rw [if_neg (not_or.2 ⟨hne, hnull⟩), h]
  cases v with
  | null => rfl
  | str lit => rfl
  | _ => simp only [h, stored]

theorem unwrapped_ne {t : Bytes} (ht : Json.StrLit t) : unwrapped (Json.unquote t) ≠ Json.render (.str t) := by
  intro he
  have hparse : Json.parse (unwrapped (Json.unquote t)) = some (.str t) := by
    rw [he]
    exact Json.parse_render ht (Nat.zero_le _)
  unfold unwrapped at hparse
  cases hu : Json.parse (Json.unquote t) with
  | none =>
    simp only [hu] at hparse
    cases hparse
  | some w =>
    cases w with
    | obj ms =>
      simp only [hu, (members_of_parse hu).parse_marshal] at hparse
      cases hparse
    | null =>
      simp only [hu, parse_null] at hparse
      cases hparse
    | str lit =>
      simp only [hu, Json.parse_render_of_parse hu] at hparse
      cases hparse
      exact absurd (Json.marks_lt_of_parse hu) (Nat.lt_irrefl _)
    | _ =>
      simp only [hu, Json.parse_render_of_parse hu] at hparse
      cases hparse

theorem stored_cases (h : Json.parse raw = some v) : (∃ w, Json.parse (stored v) = some w) ∨ stored v = [] ∨
    ∃ lit, v = .str lit ∧ stored v = Json.unquote lit := by
  cases v with
  | obj ms => exact .inl ⟨_, (members_of_parse h).parse_marshal⟩
  | null => exact .inr (.inl rfl)
  | str lit =>
    show (∃ w, Json.parse (unwrapped (Json.unquote lit)) = some w) ∨ _
    unfold unwrapped
    cases hu : Json.parse (Json.unquote lit) with
    | none =>
      refine .inr (.inr ⟨lit, rfl, ?_⟩)
      show unwrapped (Json.unquote lit) = Json.unquote lit
      unfold unwrapped
      rw [hu]
    | some w =>
      cases w with
      | obj ms => exact .inl ⟨_, (members_of_parse hu).parse_marshal⟩
      | null => exact .inl ⟨_, parse_null⟩
      | _ => exact .inl ⟨_, Json.parse_render_of_parse hu⟩
  | _ => exact .inl ⟨_, Json.parse_render_of_parse h⟩

theorem canonicalNodeDef_none (h : Json.parse raw = none) : canonicalNodeDef raw = raw ↔ Utf8.trimSpace raw = raw := by
  constructor
  · intro he
    by_contra hne
    have hnil : raw ≠ [] := by
      rintro rfl
      exact hne rfl
    cases hr : Json.parse (Utf8.trimSpace raw) with
    | none =>
      unfold canonicalNodeDef at he
      dsimp only at he
      split_ifs at he with hblank
      · exact hnil he.symm
      · simp only [hr] at he
        exact hne he
    | some v =>
      rw [canonicalNodeDef_eq hr] at he
      rcases stored_cases hr with ⟨w, hw⟩ | hempty | ⟨lit, rfl, hl⟩
      · rw [he, h] at hw
        cases hw
      · exact hnil (he.symm.trans hempty)
      · have hlt := Json.marks_lt_of_parse hr
        have hle := Json.marks_trimSpace_le raw
        rw [← hl, he] at hlt
        omega
  · intro ht
    unfold canonicalNodeDef
    rw [ht]
    dsimp only
    split_ifs with hblank
    · rcases hblank with rfl | rfl
      · rfl
      · cases h
    · simp only [h]

theorem NodeDef.Same.refl (nd : NodeDef) : nd.Same nd := ⟨rfl, rfl, rfl, rfl, rfl⟩

theorem Members.stored_again (h : Members ms) : canonicalNodeDef (marshal (kept ms)) = marshal (kept ms) ∧
    ParseNodeDef (marshal (kept ms)) = define (writtenValues (finals ms)) := by
  refine ⟨?_, ?_⟩
  · rw [canonicalNodeDef_eq (Json.parse_trimSpace h.parse_marshal)]
    exact congrArg (fun ns => Json.render (.obj ns)) h.kept_written
  · rw [parseNodeDef_eq h.parse_marshal, meaning, values_written, h.values_kept]

theorem stored_again (h : Json.parse raw = some v) (hstored : stored v = Json.render v) (hmeaning : meaning v = .empty) :
    canonicalNodeDef (Json.render v) = Json.render v ∧ ParseNodeDef (Json.render v) = .empty := by
  have hparse := Json.parse_render_of_parse h
  exact ⟨(canonicalNodeDef_eq (Json.parse_trimSpace hparse)).trans hstored, (parseNodeDef_eq hparse).trans hmeaning⟩

theorem unwrapped_iff :
    canonicalNodeDef (unwrapped (Json.unquote lit)) = unwrapped (Json.unquote lit) ∧ (ParseNodeDef (unwrapped (Json.unquote lit))).Same .empty ↔
      FaithfulContent (Json.unquote lit) := by
  unfold unwrapped FaithfulContent
  cases hu : Json.parse (Json.unquote lit) with
  | none =>
    simp only [canonicalNodeDef_none hu, parseNodeDef_none hu]
    exact and_iff_left (NodeDef.Same.refl _)
  | some w =>
    cases w with
    | obj ms =>
      have hms := members_of_parse hu
      obtain ⟨hagain, hmeans⟩ := hms.stored_again
      simp only [hagain, hmeans, true_and]
      exact define_empty_iff hms.wf_finals
    | null => exact iff_of_false (fun h => by cases h.1) id
    | str t =>
      have ht : Json.StrLit t := (Json.fits_of_parse hu).wf
      have hparse := Json.parse_render_of_parse hu
      refine iff_of_false (fun h => ?_) id
      exact unwrapped_ne ht ((canonicalNodeDef_eq (Json.parse_trimSpace hparse)).symm.trans h.1)
    | _ =>
      obtain ⟨hagain, hmeans⟩ := stored_again hu rfl rfl
      refine iff_of_true ⟨hagain, ?_⟩ trivial
      dsimp only
      rw [hmeans]
      exact NodeDef.Same.refl _

theorem Members.same_iff (h : Members ms) : (define (writtenValues (finals ms))).Same (define (values ms)) ↔ Faithful (.obj ms) := by
  show _ ↔ if Typed (values ms) then SameSaid (values ms) (finals ms) else Typed (finals ms) → SaysNothing (finals ms)
  by_cases htyped : Typed (values ms)
  · rw [if_pos htyped]
    exact define_same_iff h.wf_finals htyped (typed_finals htyped)
  · have hempty : define (values ms) = .empty := if_neg htyped
    rw [if_neg htyped, hempty]
    exact define_empty_iff h.wf_finals

/-- The text that is stored is stored again as it is and means the same, if and only if the definition is faithful. -/
theorem canonicalNodeDef_iff (h : Json.parse raw = some v) :
    canonicalNodeDef (canonicalNodeDef raw) = canonicalNodeDef raw ∧ (ParseNodeDef (canonicalNodeDef raw)).Same (ParseNodeDef raw) ↔ Faithful v := by
  rw [canonicalNodeDef_eq (Json.parse_trimSpace h), parseNodeDef_eq h]
  cases v with
  | null => exact iff_of_true ⟨rfl, NodeDef.Same.refl _⟩ trivial
  | str lit => exact unwrapped_iff
  | obj ms =>
    have hms := members_of_parse h
    obtain ⟨hagain, hmeans⟩ := hms.stored_again
    simp only [stored, meaning, hagain, hmeans, true_and]
    exact hms.same_iff
  | _ =>
    obtain ⟨hagain, hmeans⟩ := stored_again h rfl rfl
    refine iff_of_true ⟨hagain, ?_⟩ trivial
    dsimp only [stored, meaning]
    rw [hmeans]
    exact NodeDef.Same.refl _

def snakeDef : Bytes := str "\x7b\"attr_paths\":[\"a\"],\"domain\":\"d\"\x7d"

def snakeMembers : List (Bytes × Json) := [(str "attr_paths", .arr [.str (str "a")]), (str "domain", .str (str "d"))]

theorem canonicalNodeDef_snake : canonicalNodeDef (canonicalNodeDef snakeDef) = canonicalNodeDef snakeDef ∧
    (ParseNodeDef (canonicalNodeDef snakeDef)).Same (ParseNodeDef snakeDef) := by
  have hparse : Json.parse snakeDef = some (.obj snakeMembers) := rfl
  have hnames : names snakeMembers = [str "attr_paths", str "domain"] := names_of_sorted (by decide)
  refine (canonicalNodeDef_iff hparse).2 ((faithful_iff_of_single (by decide) fun f => ?_).2 fun hcamel => ?_)
  · cases f <;> decide
  · rw [hnames] at hcamel
    revert hcamel
    decide

def stringDef : Bytes := str "\"\x7b\\\"domain\\\":\\\"d\\\",\\\"name\\\":\\\"n\\\"\x7d\""

def stringMembers : List (Bytes × Json) := [(str "domain", .str (str "d")), (str "name", .str (str "n"))]

def twinsDef : Bytes := str "\x7b\"attrPaths\":[],\"attr_paths\":[\"a\"]\x7d"

def twinsMembers : List (Bytes × Json) := [(str "attrPaths", .arr []), (str "attr_paths", .arr [.str (str "a")])]

def twiceDef : Bytes := str "\"\\\"x\\\"\""

/-- A definition in a string has no component until it is stored, paths in snake case are lost beside an empty list, and of a
string in a string each call takes one away. -/
theorem meaning_lost :
    ((ParseNodeDef stringDef).domain = [] ∧ (ParseNodeDef (canonicalNodeDef stringDef)).domain = str "d") ∧
    ((ParseNodeDef twinsDef).attrPaths = [str "a"] ∧ (ParseNodeDef (canonicalNodeDef twinsDef)).attrPaths = []) ∧
    (canonicalNodeDef twiceDef = str "\"x\"" ∧ canonicalNodeDef (canonicalNodeDef twiceDef) = str "x") := by
  have hstring : names stringMembers = [str "domain", str "name"] := names_of_sorted (by decide)
  have htwins : names twinsMembers = [str "attrPaths", str "attr_paths"] := names_of_sorted (by decide)
  have hkept : kept stringMembers = stringMembers := by rw [kept, keptNames, hstring]; rfl
  have hdropped : kept twinsMembers = [(str "attrPaths", .arr [])] := by rw [kept, keptNames, htwins]; rfl
  have hstored : canonicalNodeDef stringDef = marshal stringMembers := by
    have hparse : Json.parse (Utf8.trimSpace stringDef) = some (.str (str "\x7b\\\"domain\\\":\\\"d\\\",\\\"name\\\":\\\"n\\\"\x7d")) := rfl
    rw [canonicalNodeDef_eq hparse]
    show marshal (kept stringMembers) = _
    rw [hkept]
  have hleft : canonicalNodeDef twinsDef = marshal [(str "attrPaths", .arr [])] := by
    have hparse : Json.parse (Utf8.trimSpace twinsDef) = some (.obj twinsMembers) := rfl
    rw [canonicalNodeDef_eq hparse, stored, hdropped]
  rw [hstored, hleft]
  decide +kernel

end Graph.Definition
