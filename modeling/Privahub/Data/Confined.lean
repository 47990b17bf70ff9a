import Privahub.Data.Service

/-!
# Files stay in the directory of their node

A download checks where the links of its path lead and takes `.` for a node; an upload refuses `.` and follows links. What a download sends is
strictly inside the directory of the node exactly when the node is not called `.`, its directory is no link, and the path does not lead to the
directory itself; a file that an upload creates is there exactly when the directory is no link (`confined_iff`).
-/

namespace Data

open FileTree

variable {t : Tree} {path dir loc : List Bytes} {k : Nat}

theorem evalSymlinks_ok : EvalSymlinks t path = .ok loc ↔ ∃ k, k ≤ 255 ∧ Walks t [] path loc k := walk_map_ok

theorem elems_of_noSlash {s : Bytes} (h : 47 ∉ s) : elems s = [s] := by
  induction s with
  | nil => rfl
  | cons b s ih =>
    rw [List.mem_cons, not_or] at h
    rw [elems, if_neg (Ne.symm h.1), ih h.2]

theorem elems_ne_nil (s : Bytes) : elems s ≠ [] := by
  cases s with
  | nil => exact nofun
  | cons b s =>
    rw [elems]
    split_ifs
    · exact nofun
    · split <;> exact nofun

theorem infix_of_mem_elems (s : Bytes) : (∀ e ∈ elems s, e <:+: s) ∧ ∀ e ∈ (elems s).head?, e <+: s := by
  induction s with
  | nil => simp [elems]
  | cons b s ih =>
    rw [elems]
    split_ifs
    · refine ⟨fun e he => ?_, fun e he => ?_⟩
      · obtain rfl | he := List.mem_cons.1 he
        · exact List.nil_infix
        · exact (ih.1 e he).trans (List.suffix_cons b s).isInfix
      · obtain rfl := Option.some.inj he
        exact List.nil_prefix
    · split
      · next hnil => exact absurd hnil (elems_ne_nil s)
      · next a es heq =>
        rw [heq] at ih
        have hfirst : b :: a <+: b :: s := (List.prefix_cons_inj b).2 (ih.2 a rfl)
        refine ⟨fun e he => ?_, fun e he => ?_⟩
        · obtain rfl | he := List.mem_cons.1 he
          · exact hfirst.isInfix
          · exact (ih.1 e (List.mem_cons_of_mem _ he)).trans (List.suffix_cons b s).isInfix
        · obtain rfl := Option.some.inj he
          exact hfirst

theorem join_append (dir : List Bytes) {s : Bytes} (h : dotdot ∉ elems s) : ∃ names, Join dir s = dir ++ names := by
  unfold Join
  generalize elems s = cs at h
  induction cs generalizing dir with
  | nil => exact ⟨[], (List.append_nil dir).symm⟩
  | cons c cs ih =>
    rw [List.mem_cons, not_or] at h
    rw [List.foldl_cons, if_neg (Ne.symm h.1)]
    split_ifs
    · exact ih dir h.2
    · obtain ⟨names, hnames⟩ := ih (dir ++ [c]) h.2
      exact ⟨c :: names, by rw [hnames, List.append_assoc]; rfl⟩

theorem join_name {n : Bytes} (h0 : n ≠ []) (hslash : 47 ∉ n) (hdot : n ≠ dot) (hdotdot : n ≠ dotdot) : Join dir n = dir ++ [n] := by
  rw [Join, elems_of_noSlash hslash, List.foldl_cons, if_neg (not_or.2 ⟨h0, hdot⟩), if_neg hdotdot]
  rfl

theorem prefix_of_inDir (h : inDir dir path = true) (hnames : ∀ c ∈ path, c ≠ dotdot) : dir <+: path := by
  have hrel := of_decide_eq_true h
  clear h
  induction dir generalizing path with
  | nil => exact List.nil_prefix
  | cons b bs ih =>
    cases path with
    | nil => exact absurd rfl hrel
    | cons c cs =>
      rw [Rel] at hrel
      split_ifs at hrel with hbc
      · rw [hbc]
        exact (List.prefix_cons_inj c).2 (ih (fun d hd => hnames d (List.mem_cons_of_mem _ hd)) hrel)
      · exact absurd rfl hrel

/-- Strictly inside the directory of the node, wherever the storage directory is. -/
def Inside (t : Tree) (storeDir : List Bytes) (nodeID : Bytes) (loc : List Bytes) : Prop :=
  ∃ store rest, EvalSymlinks t storeDir = .ok store ∧ rest ≠ [] ∧ loc = store ++ nodeID :: rest

namespace DataService

variable {s : DataService} {nodeID : Bytes}

/-- The directory of the node is no link, wherever the storage directory is. -/
def UploadSafe (s : DataService) (t : Tree) (nodeID : Bytes) : Prop := ∀ store, EvalSymlinks t s.storeDir = .ok store → ¬IsLink t (store ++ [nodeID])

/-- A node that is not called `.`, without a link for its directory, and a relative URI that does not lead to the directory itself. -/
structure DownloadSafe (s : DataService) (t : Tree) (nodeID relativeURI : Bytes) : Prop where
  named : nodeID ≠ dot
  noLink : s.UploadSafe t nodeID
  below : ∀ store, EvalSymlinks t s.storeDir = .ok store → EvalSymlinks t (s.requested nodeID relativeURI) ≠ .ok (store ++ [nodeID])

theorem inside_iff {relativeURI : Bytes} {names : List Bytes} (h0 : nodeID ≠ []) (hslash : 47 ∉ nodeID) (hdotdot : nodeID ≠ dotdot)
    (hpath : s.requested nodeID relativeURI = Join s.storeDir nodeID ++ names) (hstat : stat t (s.requested nodeID relativeURI) = .ok loc)
    (hesc : escapes t (Join s.storeDir nodeID) (s.requested nodeID relativeURI) = false) :
    Inside t s.storeDir nodeID loc ↔ s.DownloadSafe t nodeID relativeURI := by
  obtain ⟨k, hk, hw⟩ := stat_ok.1 hstat
  have hreal : EvalSymlinks t (s.requested nodeID relativeURI) = .ok loc := evalSymlinks_ok.2 ⟨k, hk.trans (by decide), hw⟩
  have hlocated : Located t loc := hw.located located_root
  have hnames := nameOK_of_node hlocated.1
  by_cases hdot : nodeID = dot
  · refine iff_of_false ?_ fun h => h.named hdot
    rintro ⟨store, rest, -, -, rfl⟩
    exact (hnames nodeID (by simp)).ne_dot hdot
  · have hjoin : Join s.storeDir nodeID = s.storeDir ++ [nodeID] := join_name h0 hslash hdot hdotdot
    rw [hjoin] at hpath hesc
    obtain ⟨node, k₁, k₂, hdir, hrest, hsum⟩ := walks_append.1 (hpath ▸ hw)
    obtain ⟨store, k₃, k₄, hstore, hnode, hsum'⟩ := walks_append.1 hdir
    have hk' : k ≤ 40 := hk
    have hstoreDir : EvalSymlinks t s.storeDir = .ok store := evalSymlinks_ok.2 ⟨k₃, by omega, hstore⟩
    have hnodeDir : EvalSymlinks t (s.storeDir ++ [nodeID]) = .ok node := evalSymlinks_ok.2 ⟨k₁, by omega, hdir⟩
    have hpre : node <+: loc := by
      rw [escapes, hreal, hnodeDir] at hesc
      exact prefix_of_inDir (by simpa using hesc) fun c hc => (hnames c hc).ne_dotdot
    have hunique {store' : List Bytes} (h : EvalSymlinks t s.storeDir = .ok store') : store' = store :=
      Except.ok.inj (h.symm.trans hstoreDir)
    constructor
    · rintro ⟨store', rest, hstore', hne, heq⟩
      obtain rfl := hunique hstore'
      have heq' : loc = (store' ++ [nodeID]) ++ rest := by rw [heq, List.append_assoc]; rfl
      refine ⟨hdot, fun store₂ h₂ => ?_, fun store₂ h₂ hpath' => ?_⟩
      · obtain rfl := hunique h₂
        rintro ⟨target, htarget⟩
        have hentry := dir_of_prefix hne (heq' ▸ hlocated.1)
        exact nomatch hentry.symm.trans htarget
      · obtain rfl := hunique h₂
        exact hne (List.self_eq_append_right.1 ((Except.ok.inj (hreal.symm.trans hpath')).symm.trans heq'))
    · intro h
      obtain rfl := hnode.single ⟨h0, hdot, hdotdot⟩ (h.noLink store hstoreDir)
      obtain ⟨rest, rfl⟩ := hpre
      refine ⟨store, rest, hstoreDir, ?_, by rw [List.append_assoc]; rfl⟩
      rintro rfl
      exact h.below store hstoreDir (by rw [hreal, List.append_nil])

theorem Download_path {req : DownloadDataRequest} {x : Answers} {info : DownloadInfo} (h : s.Download t req x = .ok info)
    (hpath : info.path = some path) : req.nodeID ≠ [] ∧ 47 ∉ req.nodeID ∧ req.nodeID ≠ dotdot ∧ ∃ type relativeURI, x.domainData = .ok (type, relativeURI) ∧
      ¬dotdot <:+: relativeURI ∧ path = s.requested req.nodeID relativeURI ∧ (∃ loc, stat t path = .ok loc) ∧
      escapes t (Join s.storeDir req.nodeID) path = false := by
  unfold Download at h
  split_ifs at h with hblank hnode hkuscia
  split at h
  · cases h
  · next type relativeURI hdata =>
    dsimp only at h
    split_ifs at h with hempty hdots hin hesc
    split at h
    · obtain rfl := Except.ok.inj h
      cases hpath
    · next loc hstat =>
      have heq : path = s.requested req.nodeID relativeURI := by
        unfold payload at h
        dsimp only at h
        split_ifs at h
        · obtain rfl := Except.ok.inj h
          exact (Option.some.inj hpath).symm
        · split at h
          · split_ifs at h <;>
            · obtain rfl := Except.ok.inj h
              exact (Option.some.inj hpath).symm
          · cases h
      obtain ⟨hslash, hdotdot⟩ := not_or.1 hnode
      have hno : ¬(47 ∈ req.nodeID ∨ 92 ∈ req.nodeID) := fun hmem => hslash (decide_eq_true hmem)
      exact ⟨(not_or.1 hblank).1, (not_or.1 hno).1, hdotdot, type, relativeURI, hdata, hdots, heq, ⟨loc, heq ▸ hstat⟩,
        heq ▸ Bool.eq_false_iff.2 hesc⟩

theorem Download_inside {req : DownloadDataRequest} {x : Answers} {info : DownloadInfo} {type relativeURI : Bytes}
    (h : s.Download t req x = .ok info) (hpath : info.path = some path) (hdata : x.domainData = .ok (type, relativeURI)) :
    (∃ loc, stat t path = .ok loc ∧ Inside t s.storeDir req.nodeID loc) ↔ s.DownloadSafe t req.nodeID relativeURI := by
  obtain ⟨h0, hslash, hdotdot, type', uri, hdata', hdots, rfl, ⟨loc, hstat⟩, hesc⟩ := Download_path h hpath
  obtain ⟨rfl, rfl⟩ := Prod.mk.inj (Except.ok.inj (hdata'.symm.trans hdata))
  obtain ⟨names, hnames⟩ := join_append (Join s.storeDir req.nodeID) fun hmem => hdots ((infix_of_mem_elems uri).1 _ hmem)
  rw [← inside_iff h0 hslash hdotdot hnames hstat hesc]
  exact ⟨fun ⟨loc', hloc', hin⟩ => Except.ok.inj (hloc'.symm.trans hstat) ▸ hin, fun hin => ⟨loc, hstat, hin⟩⟩

theorem create_opened {fileName name : Bytes} {src : Source} (h : (create t dir fileName name src).opened = some loc) :
    ∃ p, stat t dir = .ok p ∧ t.node p = some .dir ∧ loc = p ++ [name] ∧ Extends t (create t dir fileName name src).tree ∧
      ∀ q, IsLink (create t dir fileName name src).tree q ↔ IsLink t q := by
  revert h
  unfold create
  cases hstat : stat t dir with
  | error e => exact nofun
  | ok p =>
    dsimp only
    by_cases hexists : t.node p = some .dir ∧ t.node (p ++ [name]) ≠ none
    · rw [if_pos hexists]
      exact nofun
    · rw [if_neg hexists]
      by_cases hnew : t.node p = some .dir ∧ NameOK name ∧ t.node (p ++ [name]) = none
      · rw [dif_pos hnew]
        cases src.copied with
        | false =>
          intro h
          obtain rfl := Option.some.inj h
          exact ⟨p, rfl, hnew.1, rfl, fun _ _ hq => hq, fun _ => Iff.rfl⟩
        | true =>
          intro h
          obtain rfl := Option.some.inj h
          exact ⟨p, rfl, hnew.1, rfl, extends_insert hnew,
            fun q => isLink_insert hnew fun target (he : Entry.file (trimBOM src.content) = .link target) => nomatch he⟩
      · rw [dif_neg hnew]
        exact nofun

theorem Upload_opened {fileName : Bytes} {src : Source} (h : (s.Upload t nodeID fileName src).opened = some loc) :
    nodeID ≠ [] ∧ 47 ∉ nodeID ∧ nodeID ≠ dot ∧ nodeID ≠ dotdot ∧ ∃ t' name, mkdirAll t (Join s.storeDir nodeID) = some t' ∧
      s.Upload t nodeID fileName src = create t' (Join s.storeDir nodeID) fileName name src := by
  unfold Upload at h
  split at h
  · cases h
  · next pre suffix hname =>
    split_ifs at h with h0 hnode
    dsimp only at h
    split at h
    · cases h
    · next name hreal =>
      split_ifs at h with hin
      split at h
      · cases h
      · next t' hdir =>
        obtain ⟨hslash, hdot, hdotdot⟩ : ¬containsSlash nodeID = true ∧ nodeID ≠ dot ∧ nodeID ≠ dotdot := by
          simpa only [not_or] using hnode
        have hno : ¬(47 ∈ nodeID ∨ 92 ∈ nodeID) := fun hmem => hslash (decide_eq_true hmem)
        refine ⟨h0, (not_or.1 hno).1, hdot, hdotdot, t', name, hdir, ?_⟩
        simp only [Upload, hname, if_neg h0, if_neg hnode, hreal, if_neg hin, hdir]

theorem Upload_inside {fileName : Bytes} {src : Source} (h : (s.Upload t nodeID fileName src).opened = some loc) :
    Inside (s.Upload t nodeID fileName src).tree s.storeDir nodeID loc ↔ s.UploadSafe t nodeID := by
  obtain ⟨h0, hslash, hdot, hdotdot, t₁, name, hmade, heq⟩ := Upload_opened h
  rw [heq] at h ⊢
  obtain ⟨node, hstat, hdir, rfl, hext, hlinks⟩ := create_opened h
  have hlinks₁ := (mkdirRev_extends hmade).2
  have hmade' : mkdirRev t (nodeID :: s.storeDir.reverse) = some t₁ := by
    rw [← List.reverse_concat, ← join_name h0 hslash hdot hdotdot]
    exact hmade
  generalize (create t₁ (Join s.storeDir nodeID) fileName name src).tree = t' at hext hlinks ⊢
  rw [join_name h0 hslash hdot hdotdot] at hstat
  obtain ⟨k, hk, hw⟩ := stat_ok.1 hstat
  obtain ⟨store, k₁, k₂, hstore, hnode, hsum⟩ := walks_append.1 hw
  have hk' : k ≤ 40 := hk
  have hstoreDir : EvalSymlinks t' s.storeDir = .ok store := evalSymlinks_ok.2 ⟨k₁, by omega, hstore.extends hext⟩
  have hunique {store' : List Bytes} (h : EvalSymlinks t' s.storeDir = .ok store') : store' = store :=
    Except.ok.inj (h.symm.trans hstoreDir)
  constructor
  · rintro ⟨store', rest, hstore', hne, heq⟩ store₂ h₂ hlink
    obtain rfl := hunique hstore'
    obtain ⟨k₃, hk₃, hw₂⟩ := evalSymlinks_ok.1 h₂
    obtain ⟨rfl, -⟩ := hstore.unique (hw₂.extends (mkdirRev_extends hmade).1)
    have hentry : t₁.node (store' ++ [nodeID]) = some .dir := by
      obtain rfl | ⟨init, last, rfl⟩ := List.eq_nil_or_concat rest
      · exact absurd rfl hne
      · have hnode' : node = (store' ++ [nodeID]) ++ init := by
          have hcat : node ++ [name] = (store' ++ [nodeID]) ++ init ++ [last] := by
            rw [heq]
            simp
          exact List.append_inj_left' hcat rfl
        cases init with
        | nil => rwa [← List.append_nil (store' ++ [nodeID]), ← hnode']
        | cons a init => exact dir_of_prefix (List.cons_ne_nil a init) (hnode' ▸ ⟨_, hdir⟩)
    obtain ⟨target, htarget⟩ := (hlinks₁ _).2 hlink
    exact nomatch hentry.symm.trans htarget
  · intro hsafe
    have hlink : ¬IsLink t₁ (store ++ [nodeID]) := by
      rw [hlinks₁]
      obtain rfl | ⟨p, hp, hnone⟩ := mkdirRev_parent hmade'
      · exact hsafe store (evalSymlinks_ok.2 ⟨k₁, by omega, hstore⟩)
      · rw [List.reverse_reverse] at hp
        obtain ⟨k₃, -, hp⟩ := stat_ok.1 hp
        obtain ⟨rfl, -⟩ := hstore.unique hp
        exact fun ⟨target, ht⟩ => nomatch hnone.symm.trans ht
    obtain rfl := hnode.single ⟨h0, hdot, hdotdot⟩ hlink
    exact ⟨store, [name], hstoreDir, nofun, by rw [List.append_assoc]; rfl⟩

/-- What a download sends and where an upload creates a file is strictly inside the directory of the node exactly when the one, or the other,
is safe. -/
theorem confined_iff (s : DataService) (t : Tree) :
    (∀ req x info path type relativeURI, s.Download t req x = .ok info → info.path = some path → x.domainData = .ok (type, relativeURI) →
      ((∃ loc, stat t path = .ok loc ∧ Inside t s.storeDir req.nodeID loc) ↔ s.DownloadSafe t req.nodeID relativeURI)) ∧
    ∀ nodeID fileName src loc, (s.Upload t nodeID fileName src).opened = some loc →
      (Inside (s.Upload t nodeID fileName src).tree s.storeDir nodeID loc ↔ s.UploadSafe t nodeID) :=
  ⟨fun _ _ _ _ _ _ => Download_inside, fun _ _ _ _ => Upload_inside⟩

theorem exists_download {req : DownloadDataRequest} {x : Answers} (h : (s.Download t req x).toOption.bind (fun i => i.path) = some path) :
    ∃ info, s.Download t req x = .ok info ∧ info.path = some path := by
  cases hres : s.Download t req x with
  | error e =>
    rw [hres] at h
    cases h
  | ok info =>
    rw [hres] at h
    exact ⟨info, rfl, h⟩

theorem ok_of_toOption {ε α : Type} {x : Except ε α} {a : α} (h : x.toOption = some a) : x = .ok a := by
  cases x with
  | error e => cases h
  | ok b => exact congrArg Except.ok (Option.some.inj h)

theorem not_inside {storeDir store : List Bytes} (hstore : EvalSymlinks t storeDir = .ok store)
    (h : ¬(store ++ [nodeID] <+: loc ∧ loc ≠ store ++ [nodeID])) : ¬Inside t storeDir nodeID loc := by
  rintro ⟨store', rest, hstore', hne, rfl⟩
  obtain rfl := Except.ok.inj (hstore.symm.trans hstore')
  refine h ⟨⟨rest, by rw [List.append_assoc]; rfl⟩, fun heq => hne ?_⟩
  exact (List.cons.inj (List.append_cancel_left heq)).2

private def store : DataService := ⟨.asciiCase, [str "store"], true, fun _ => true⟩

/-- Bob has a file; alice has a directory and carol a link to that of bob. -/
private def layout : Tree := Tree.ofList [([], .dir), ([str "store"], .dir), ([str "store", str "bob"], .dir),
  ([str "store", str "bob", str "secret.csv"], .file (str "x")), ([str "store", str "alice"], .dir),
  ([str "store", str "alice", str "own.csv"], .file (str "y")), ([str "store", str "carol"], .link (str "bob"))] (by decide +kernel)

private def get (nodeID : String) : DownloadDataRequest := ⟨str nodeID, str "d"⟩

private def data (relativeURI : String) : Answers := ⟨.ok (str "table", str relativeURI), none⟩

private def upload (nodeID : String) : Uploaded := store.Upload layout (str nodeID) (str "data.csv") ⟨some 7, [], str "z", true, true⟩

/-- A node called `.` gets the file of bob, alice the whole of her directory, and what carol uploads is in the directory of bob. -/
theorem not_confined :
    ((∃ info, store.Download layout (get ".") (data "bob/secret.csv") = .ok info ∧ info.path = some [str "store", str "bob", str "secret.csv"]) ∧
      stat layout [str "store", str "bob", str "secret.csv"] = .ok [str "store", str "bob", str "secret.csv"] ∧
      ¬Inside layout store.storeDir (str ".") [str "store", str "bob", str "secret.csv"]) ∧
    ((∃ info, store.Download layout (get "alice") (data ".") = .ok info ∧ info.path = some [str "store", str "alice"]) ∧
      stat layout [str "store", str "alice"] = .ok [str "store", str "alice"] ∧ ¬Inside layout store.storeDir (str "alice") [str "store", str "alice"]) ∧
    (upload "carol").opened = some [str "store", str "bob", str "data_7.csv"] ∧
      ¬Inside (upload "carol").tree store.storeDir (str "carol") [str "store", str "bob", str "data_7.csv"] := by
  have hstore : EvalSymlinks layout store.storeDir = .ok [str "store"] := by rfl
  have hstore' : EvalSymlinks (upload "carol").tree store.storeDir = .ok [str "store"] := ok_of_toOption (by decide +kernel)
  refine ⟨⟨exists_download (by decide +kernel), by rfl, not_inside hstore (by decide +kernel)⟩,
    ⟨exists_download (by decide +kernel), by rfl, not_inside hstore (by decide +kernel)⟩, by decide +kernel,
    not_inside hstore' (by decide +kernel)⟩

/-- Alice gets and puts files of her own. -/
theorem confined_iff_alice :
    (∃ info, store.Download layout (get "alice") (data "own.csv") = .ok info ∧
      ((∃ loc, stat layout [str "store", str "alice", str "own.csv"] = .ok loc ∧ Inside layout store.storeDir (str "alice") loc) ↔
        store.DownloadSafe layout (str "alice") (str "own.csv"))) ∧
    (Inside (upload "alice").tree store.storeDir (str "alice") [str "store", str "alice", str "data_7.csv"] ↔
      store.UploadSafe layout (str "alice")) := by
  have hsent : (store.Download layout (get "alice") (data "own.csv")).toOption.bind (fun i => i.path) =
      some [str "store", str "alice", str "own.csv"] := by decide +kernel
  obtain ⟨info, hinfo, hpath⟩ := exists_download hsent
  exact ⟨⟨info, hinfo, (confined_iff store layout).1 _ (data "own.csv") info _ _ _ hinfo hpath rfl⟩,
    (confined_iff store layout).2 (str "alice") (str "data.csv") ⟨some 7, [], str "z", true, true⟩ _ (by decide +kernel)⟩

end DataService

end Data
