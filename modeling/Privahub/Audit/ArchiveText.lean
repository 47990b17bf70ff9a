import Privahub.Audit.Retention
import Privahub.Audit.Spool
import Privahub.Lib.JsonInfix

/-!
# The archive file of stored rows

What `VerifyArchiveFile` makes of the file `archiveOne` writes. The file is JSON, so a string that is not valid UTF-8 does not come back as it was
hashed: the file is accepted with every hashed field as stored exactly when the rows' strings are valid UTF-8 (`archive_kept_iff`).
-/

namespace Audit

open Json (repair)

variable {r : AuditLogDO} {rows : List AuditLogDO} {p : ArchivePlan} {sg : AuditSegmentDO} {last : Option AuditSegmentDO} {e now n : Int} {prev file : Bytes}
  {dir : Dir}

/-- A row the service stores: an event with the numbers and hashes the chain writer assigns. -/
structure Storable (r : AuditLogDO) : Prop where
  content : ∃ id e, r = { rowFromEvent (Uuid.text id) e with id := r.id, seq := r.seq, prevHash := r.prevHash, hash := r.hash }
  id : -2 ^ 63 ≤ r.id ∧ r.id < 2 ^ 63
  seq : -2 ^ 63 ≤ r.seq ∧ r.seq < 2 ^ 63

/-- The last segment record: there is none, or `archiveOne` has inserted it. -/
inductive Recorded : Option AuditSegmentDO → Prop
  | none : Recorded none
  | next {last : Option AuditSegmentDO} {rows : List AuditLogDO} {e now : Int} {sg : AuditSegmentDO} {file : Bytes} (hlast : Recorded last)
      (hne : rows ≠ []) (hrows : ∀ r ∈ rows, Storable r) (h : exportSegment (planFrom last) e rows now = .ok (sg, file)) : Recorded (some sg)

/-- The strings of a row that its hash covers, apart from the hash before it. -/
def AuditLogDO.texts (r : AuditLogDO) : List Bytes :=
  [r.eventId, r.actor, r.actorType, r.ownerId, r.ip, r.action, r.resourceType, r.resourceId, r.result, r.reason, r.traceId, r.extra]

structure HashText (h : Bytes) : Prop where
  length : h.length = 64
  ascii : ∀ b ∈ h, b.toNat < 0x80

theorem hashText_genesis : HashText genesisHash := ⟨rfl, by decide⟩

theorem hashText_computeHash (r : AuditLogDO) : HashText (computeHash r) where
  length := Sm3.length_sumHex _
  ascii b hb := by
    have hhex : ∀ n < 16, (Sm3.hexDigit n).toNat < 0x80 := by decide
    obtain ⟨c, -, hc⟩ := List.mem_flatMap.1 hb
    have hlt := c.toNat_lt
    rcases List.mem_cons.1 hc with rfl | hc
    · exact hhex _ (by omega)
    · rw [List.mem_singleton.1 hc]
      exact hhex _ (by omega)

theorem HashText.repair_eq {h : Bytes} (hh : HashText h) : repair h = h := repair_of_ascii hh.ascii

theorem hashText_of_linked (hl : HashChain.Linked chain n prev rows) (hprev : HashText prev) (hr : r ∈ rows) : HashText r.prevHash ∧ HashText r.hash := by
  induction rows generalizing n prev with
  | nil => cases hr
  | cons q rows ih =>
    obtain ⟨-, h1, h2, hrest⟩ := hl
    have hq : HashText q.hash := by
      have h2 : q.hash = computeHash q := h2
      rw [h2]
      exact hashText_computeHash q
    rcases List.mem_cons.1 hr with rfl | hr
    · have h1 : r.prevHash = prev := h1
      exact ⟨h1 ▸ hprev, hq⟩
    · exact ih hrest hq hr

theorem hashText_lastHash (hl : HashChain.Linked chain n prev rows) (hprev : HashText prev) : HashText (HashChain.lastHash chain prev rows) := by
  induction rows generalizing n prev with
  | nil => exact hprev
  | cons q rows ih => exact ih hl.2.2.2 (hashText_of_linked hl hprev List.mem_cons_self).2

theorem Recorded.plan (h : Recorded last) : 1 ≤ (planFrom last).start ∧ HashText (planFrom last).prev := by
  induction h with
  | none => exact ⟨le_rfl, hashText_genesis⟩
  | @next last rows e now sg file hlast hne hrows h ih =>
    have hx := exportSegment_spec h
    constructor
    · have hlen : 0 < rows.length := List.length_pos_iff.2 hne
      show 1 ≤ sg.lastSeq + 1
      rw [hx.lastSeq]
      omega
    · show HashText sg.lastHash
      rw [hx.lastHash]
      exact hashText_lastHash hx.linked ih.2

theorem Storable.fits (h : Storable r) : r.Fits where
  id := h.id
  seq := h.seq
  tsMicro := by
    obtain ⟨id, e, he⟩ := h.content
    rw [he]
    exact (spoolable_rowFromEvent id e).fits.tsMicro

theorem Storable.short (h : Storable r) (hprev : HashText r.prevHash) (hhash : HashText r.hash) : r.marshal.length < maxArchiveLine := by
  have hlen := length_marshal_le r
  have h1 := Bytes.length_itoa_le h.fits.id.1 h.fits.id.2
  have h2 := Bytes.length_itoa_le h.fits.seq.1 h.fits.seq.2
  have h3 := Bytes.length_itoa_le h.fits.tsMicro.1 h.fits.tsMicro.2
  have h4 := hprev.length
  have h5 := hhash.length
  have ht := length_truncate_le
  have htexts : r.eventId.length ≤ 64 ∧ r.actor.length ≤ maxActor ∧ r.actorType.length ≤ maxActorType ∧ r.ownerId.length ≤ maxOwnerID ∧ r.ip.length ≤ maxIP ∧
      r.action.length ≤ maxAction ∧ r.resourceType.length ≤ maxResourceType ∧ r.resourceId.length ≤ maxResourceID ∧ r.result.length ≤ maxResult ∧
      r.reason.length ≤ maxReason ∧ r.traceId.length ≤ maxTraceID ∧ r.extra.length ≤ 120000 := by
    obtain ⟨id, e, he⟩ := h.content
    rw [he]
    exact ⟨ht .., ht .., ht .., ht .., ht .., ht .., ht .., ht .., ht .., ht .., ht .., length_canonicalExtra_le _⟩
  simp only [maxActor, maxActorType, maxOwnerID, maxIP, maxAction, maxResourceType, maxResourceID, maxResult, maxReason, maxTraceID] at htexts
  unfold maxArchiveLine
  omega

theorem plainName_type : Json.PlainName (str "type") := ⟨fun _ => rfl, by decide⟩

theorem isFooterLine_marshal (r : AuditLogDO) : isFooterLine r.marshal = false := by
  refine decide_eq_false fun h => ?_
  have hmark : 34 :: (str "type" ++ [34, 58]) <:+: footerMark := ⟨[], str "\"segment_footer\"", by decide⟩
  have hkeys : ∀ k ∈ AuditLogDO.fieldNames, ¬ str "type" <:+ k := by decide
  refine Json.not_infix_render plainName_type r.wf_tree (fun m hm => ?_) hkeys (hmark.trans h)
  simp only [AuditLogDO.members, List.mem_cons, List.not_mem_nil, or_false] at hm
  rcases hm with rfl | rfl | rfl | rfl | rfl | rfl | rfl | rfl | rfl | rfl | rfl | rfl | rfl | rfl | rfl | rfl | rfl <;> exact ⟨_, rfl, by simp⟩

theorem hashed_repair_iff (hprev : HashText r.prevHash) : hashed r.repair = hashed r ↔ ∀ s ∈ r.texts, Utf8.validString s = true := by
  have hiff : ∀ s, Json.repair s = s ↔ Utf8.validString s = true := Json.repair_eq_self_iff
  simp only [hashed, AuditLogDO.repair, AuditLogDO.mk.injEq, AuditLogDO.texts, hiff, hprev.repair_eq, true_and, and_true, List.forall_mem_cons, List.not_mem_nil,
    false_implies, implies_true]

def SegmentHeader.members (h : SegmentHeader) : List (Bytes × Json) :=
  [(str "type", .str (Json.escape h.type)), (str "version", .num (Bytes.itoa h.version)), (str "algorithm", .str (Json.escape h.algorithm)),
    (str "firstSeq", .num (Bytes.itoa h.firstSeq)), (str "lastSeq", .num (Bytes.itoa h.lastSeq)),
    (str "firstPrevHash", .str (Json.escape h.firstPrevHash)), (str "count", .num (Bytes.itoa h.count))]

theorem SegmentHeader.wf_members (h : SegmentHeader) : Json.Wf (.obj h.members) := by
  have hk : ∀ k ∈ [str "type", str "version", str "algorithm", str "firstSeq", str "lastSeq", str "firstPrevHash", str "count"], Json.StrLit k := by decide
  have hs := Json.strLit_escape
  have hn := Json.numLit_itoa
  simp only [members, Json.Wf, Json.WfMembers, hs, hn, and_true, true_and]
  simpa using hk

def SegmentFooter.members (f : SegmentFooter) : List (Bytes × Json) :=
  [(str "type", .str (Json.escape f.type)), (str "lastHash", .str (Json.escape f.lastHash)), (str "count", .num (Bytes.itoa f.count))]

theorem SegmentFooter.wf_members (f : SegmentFooter) : Json.Wf (.obj f.members) := by
  have hk : ∀ k ∈ [str "type", str "lastHash", str "count"], Json.StrLit k := by decide
  have hs := Json.strLit_escape
  have hn := Json.numLit_itoa
  simp only [members, Json.Wf, Json.WfMembers, hs, hn, and_true, true_and]
  simpa using hk

theorem header_unmarshal {h : SegmentHeader} (hv : -2 ^ 63 ≤ h.version ∧ h.version < 2 ^ 63) (hf : -2 ^ 63 ≤ h.firstSeq ∧ h.firstSeq < 2 ^ 63)
    (hl : -2 ^ 63 ≤ h.lastSeq ∧ h.lastSeq < 2 ^ 63) (hc : -2 ^ 63 ≤ h.count ∧ h.count < 2 ^ 63) :
    SegmentHeader.unmarshal h.marshal =
      some { h with type := repair h.type, algorithm := repair h.algorithm, firstPrevHash := repair h.firstPrevHash } := by
  have hp : Json.parse h.marshal = some (.obj h.members) :=
    Json.parse_render h.wf_members (by simp [SegmentHeader.members, Json.depth, Json.depthMembers, Json.maxNestingDepth])
  have hk : ∀ k ∈ [str "type", str "version", str "algorithm", str "firstSeq", str "lastSeq", str "firstPrevHash", str "count"], Json.unquote k = k := by decide
  have hmem : ∀ m ∈ h.members, m.1 ∈ [str "type", str "version", str "algorithm", str "firstSeq", str "lastSeq", str "firstPrevHash", str "count"] :=
    fun m hm => List.mem_map_of_mem (f := Prod.fst) hm
  have hint : ∀ old n, (-2 ^ 63 ≤ n ∧ n < 2 ^ 63) → Json.decodeInt old (.num (Bytes.itoa n)) = some n := fun old n hn => Json.parseInt64_itoa hn.1 hn.2
  have hstr : ∀ old b, Json.decodeStr old (.str (Json.escape b)) = some (repair b) := fun old b => congrArg some (Json.unquote_escape b)
  rw [SegmentHeader.unmarshal, Json.decodeStruct_of_parse hp fun m hm => ⟨hk _ (hmem m hm), hmem m hm⟩]
  simp +decide only [SegmentHeader.members, List.foldlM_cons, List.foldlM_nil, SegmentHeader.setField, if_true, if_false, hint _ _ hv, hint _ _ hf, hint _ _ hl,
    hint _ _ hc, hstr, Option.map_some, Option.bind_eq_bind, Option.bind_some]
  rfl

theorem footer_unmarshal {f : SegmentFooter} (hc : -2 ^ 63 ≤ f.count ∧ f.count < 2 ^ 63) :
    SegmentFooter.unmarshal f.marshal = some { f with type := repair f.type, lastHash := repair f.lastHash } := by
  have hp : Json.parse f.marshal = some (.obj f.members) :=
    Json.parse_render f.wf_members (by simp [SegmentFooter.members, Json.depth, Json.depthMembers, Json.maxNestingDepth])
  have hk : ∀ k ∈ [str "type", str "lastHash", str "count"], Json.unquote k = k := by decide
  have hmem : ∀ m ∈ f.members, m.1 ∈ [str "type", str "lastHash", str "count"] := fun m hm => List.mem_map_of_mem (f := Prod.fst) hm
  have hint : ∀ old, Json.decodeInt old (.num (Bytes.itoa f.count)) = some f.count := fun old => Json.parseInt64_itoa hc.1 hc.2
  have hstr : ∀ old b, Json.decodeStr old (.str (Json.escape b)) = some (repair b) := fun old b => congrArg some (Json.unquote_escape b)
  rw [SegmentFooter.unmarshal, Json.decodeStruct_of_parse hp fun m hm => ⟨hk _ (hmem m hm), hmem m hm⟩]
  simp +decide only [SegmentFooter.members, List.foldlM_cons, List.foldlM_nil, SegmentFooter.setField, if_true, if_false, hint, hstr, Option.map_some,
    Option.bind_eq_bind, Option.bind_some]
  rfl

theorem scanLines_lines {ls : List Bytes} {max : Nat} (h : ∀ l ∈ ls, 10 ∉ l ∧ l.length < max ∧ l.getLast? = some 125) :
    Bytes.scanLines max (ls.flatMap fun l => l ++ [10]) = ls := by
  have hread := Bytes.linesFrom_lines (fun l hl => (h l hl).1) []
  rw [List.append_nil] at hread
  rw [Bytes.scanLines, hread, Bytes.linesFrom, if_pos rfl, List.append_nil, List.takeWhile_eq_self_iff.2 fun l hl => decide_eq_true (h l hl).2.1]
  conv_rhs => rw [← List.map_id ls]
  refine List.map_congr_left fun l hl => ?_
  rw [Bytes.dropCR, (h l hl).2.2, if_neg (by decide)]
  rfl

theorem object_line {ms : List (Bytes × Json)} (hwf : Json.Wf (.obj ms)) :
    10 ∉ Json.render (.obj ms) ∧ (Json.render (.obj ms)).getLast? = some 125 := by
  refine ⟨fun h => absurd (Json.le_of_mem_render _ hwf 10 h) (by decide), ?_⟩
  rw [Json.render, Json.object, List.getLast?_concat]

theorem fileBase_segment (a b : Int) : Bytes.fileBase (segmentFileName a b) = segmentFileName a b := by
  have hdigits : ∀ k : Nat, (47 : UInt8) ∉ Bytes.digits k := by
    intro k h
    have := Bytes.isDigit_of_mem_digits h
    simp [Bytes.isDigit] at this
  have hpad : ∀ k : Int, (47 : UInt8) ∉ pad12 k := by
    intro k h
    unfold pad12 at h
    split_ifs at h
    · rcases List.mem_cons.1 h with h | h
      · cases h
      · rcases List.mem_append.1 h with h | h
        · cases List.eq_of_mem_replicate h
        · exact hdigits _ h
    · rcases List.mem_append.1 h with h | h
      · cases List.eq_of_mem_replicate h
      · exact hdigits _ h
  have hno : ∀ c ∈ segmentFileName a b, c ≠ 47 := by
    intro c hc heq
    subst heq
    have hc : (47 : UInt8) ∈ str "audit-segment-" ++ pad12 a ++ 45 :: pad12 b ++ str ".jsonl" := hc
    rcases List.mem_append.1 hc with hc | hc
    · rcases List.mem_append.1 hc with hc | hc
      · rcases List.mem_append.1 hc with hc | hc
        · revert hc
          decide
        · exact hpad a hc
      · rcases List.mem_cons.1 hc with hc | hc
        · cases hc
        · exact hpad b hc
    · revert hc
      decide
  have hne : segmentFileName a b ≠ [] := by simp [segmentFileName, str]
  have hdrop : ((segmentFileName a b).reverse.dropWhile (· == 47)) = (segmentFileName a b).reverse := by
    cases hrev : (segmentFileName a b).reverse with
    | nil => rfl
    | cons c l =>
      have hc : c ≠ 47 := hno c (List.mem_reverse.1 (hrev ▸ List.mem_cons_self))
      rw [List.dropWhile_cons, if_neg (by simpa using hc)]
  have htake : ((segmentFileName a b).reverse.takeWhile (· != 47)) = (segmentFileName a b).reverse :=
    List.takeWhile_eq_self_iff.2 fun c hc => by simpa using hno c (List.mem_reverse.1 hc)
  rw [Bytes.fileBase, if_neg hne]
  simp only [hdrop, htake, List.reverse_reverse]
  rw [if_neg fun h => hne (List.reverse_eq_nil_iff.1 h)]

def headerOf (sg : AuditSegmentDO) : SegmentHeader := ⟨headerType, 1, hashAlgorithm, sg.firstSeq, sg.lastSeq, sg.firstPrevHash, sg.recordCount⟩

def footerOf (sg : AuditSegmentDO) : SegmentFooter := ⟨footerType, sg.lastHash, sg.recordCount⟩

theorem exportSegment_file (h : exportSegment p e rows now = .ok (sg, file)) :
    file = ((headerOf sg).marshal :: (rows.map AuditLogDO.marshal ++ [(footerOf sg).marshal])).flatMap fun l => l ++ [10] := by
  unfold exportSegment at h
  split at h
  · cases h
  · split_ifs at h
    cases h
    rfl

structure Written (sg : AuditSegmentDO) (rows : List AuditLogDO) : Prop where
  linked : HashChain.Linked chain (sg.firstSeq - 1) sg.firstPrevHash rows
  storable : ∀ r ∈ rows, Storable r
  prev : HashText sg.firstPrevHash
  lastHash : sg.lastHash = HashChain.lastHash chain sg.firstPrevHash rows
  count : sg.recordCount = rows.length
  bounds : 1 ≤ sg.firstSeq ∧ sg.firstSeq ≤ sg.lastSeq ∧ sg.lastSeq < 2 ^ 63 ∧ sg.lastSeq = sg.firstSeq - 1 + rows.length

theorem written_of_export (hlast : Recorded last) (hrows : ∀ r ∈ rows, Storable r) (hne : rows ≠ [])
    (h : exportSegment (planFrom last) e rows now = .ok (sg, file)) : Written sg rows := by
  have hx := exportSegment_spec h
  obtain ⟨hstart, hprev⟩ := hlast.plan
  refine ⟨?_, hrows, ?_, ?_, hx.recordCount, ?_⟩
  · rw [hx.firstSeq, hx.firstPrevHash]
    exact hx.linked
  · rw [hx.firstPrevHash]
    exact hprev
  · rw [hx.firstPrevHash]
    exact hx.lastHash
  · obtain ⟨r, hr⟩ := Option.isSome_iff_exists.1 (List.getLast?_isSome.2 hne)
    have hseq : r.seq = (planFrom last).start - 1 + rows.length := hx.linked.seq_getLast? hr
    have hlt := (hrows r (List.mem_of_getLast? hr)).seq.2
    have hlen : 0 < rows.length := List.length_pos_iff.2 hne
    rw [hx.firstSeq, hx.lastSeq]
    exact ⟨hstart, by omega, by omega, rfl⟩

theorem Written.row (hw : Written sg rows) (hr : r ∈ rows) : HashText r.prevHash ∧ HashText r.hash := hashText_of_linked hw.linked hw.prev hr

theorem Written.hashText_last (hw : Written sg rows) : HashText sg.lastHash := by
  rw [hw.lastHash]
  exact hashText_lastHash hw.linked hw.prev

theorem length_header_lt (hw : Written sg rows) : (headerOf sg).marshal.length < maxArchiveLine := by
  obtain ⟨h1, h2, h3, h4⟩ := hw.bounds
  have hcount := hw.count
  have hm : ∀ k v : Bytes, (Json.member k v).length = k.length + 3 + v.length := fun k v => by
    simp only [Json.member, List.length_append, List.length_cons, List.length_nil]
  have hq := length_quote_le
  have hk : (str "type").length = 4 ∧ (str "version").length = 7 ∧ (str "algorithm").length = 9 ∧ (str "firstSeq").length = 8 ∧ (str "lastSeq").length = 7 ∧
      (str "firstPrevHash").length = 13 ∧ (str "count").length = 5 ∧ headerType.length = 14 ∧ hashAlgorithm.length = 21 := by decide
  have hi1 := Bytes.length_itoa_le (n := sg.firstSeq) (by omega) (by omega)
  have hi2 := Bytes.length_itoa_le (n := sg.lastSeq) (by omega) (by omega)
  have hi3 := Bytes.length_itoa_le (n := sg.recordCount) (by omega) (by omega)
  have hi4 := Bytes.length_itoa_le (n := 1) (by omega) (by omega)
  have hq1 := hq headerType
  have hq2 := hq hashAlgorithm
  have hq3 := hq sg.firstPrevHash
  have hprev := hw.prev.length
  refine lt_of_le_of_lt (sum_length_object _) ?_
  simp only [headerOf, List.map_cons, List.map_nil, List.sum_cons, List.sum_nil, hm]
  unfold maxArchiveLine
  omega

theorem length_footer_lt (hw : Written sg rows) : (footerOf sg).marshal.length < maxArchiveLine := by
  obtain ⟨h1, h2, h3, h4⟩ := hw.bounds
  have hcount := hw.count
  have hm : ∀ k v : Bytes, (Json.member k v).length = k.length + 3 + v.length := fun k v => by
    simp only [Json.member, List.length_append, List.length_cons, List.length_nil]
  have hk : (str "type").length = 4 ∧ (str "lastHash").length = 8 ∧ (str "count").length = 5 ∧ footerType.length = 14 := by decide
  have hi := Bytes.length_itoa_le (n := sg.recordCount) (by omega) (by omega)
  have hq1 := length_quote_le footerType
  have hq2 := length_quote_le sg.lastHash
  have hlast := hw.hashText_last.length
  refine lt_of_le_of_lt (sum_length_object _) ?_
  simp only [footerOf, List.map_cons, List.map_nil, List.sum_cons, List.sum_nil, hm]
  unfold maxArchiveLine
  omega

theorem scanLines_file (hw : Written sg rows) :
    Bytes.scanLines maxArchiveLine (((headerOf sg).marshal :: (rows.map AuditLogDO.marshal ++ [(footerOf sg).marshal])).flatMap fun l => l ++ [10]) =
      (headerOf sg).marshal :: (rows.map AuditLogDO.marshal ++ [(footerOf sg).marshal]) := by
  refine scanLines_lines fun l hl => ?_
  rcases List.mem_cons.1 hl with rfl | hl
  · obtain ⟨h1, h2⟩ := object_line (headerOf sg).wf_members
    exact ⟨h1, length_header_lt hw, h2⟩
  rcases List.mem_append.1 hl with hl | hl
  · obtain ⟨r, hr, rfl⟩ := List.mem_map.1 hl
    obtain ⟨h1, h2⟩ := object_line r.wf_tree
    exact ⟨h1, (hw.storable r hr).short (hw.row hr).1 (hw.row hr).2, h2⟩
  · obtain rfl := List.mem_singleton.1 hl
    obtain ⟨h1, h2⟩ := object_line (footerOf sg).wf_members
    exact ⟨h1, length_footer_lt hw, h2⟩

theorem isFooterLine_footer (sg : AuditSegmentDO) : isFooterLine (footerOf sg).marshal = true := by
  have hmark : Json.member (str "type") (Json.quote (footerOf sg).type) = footerMark := by
    have htype : Json.escape footerType = footerType := by decide +kernel
    show Json.member (str "type") (34 :: Json.escape footerType ++ [34]) = footerMark
    rw [htype]
    decide
  refine decide_eq_true ?_
  rw [SegmentFooter.marshal, Json.object, List.intercalate_cons_cons, hmark]
  generalize List.intercalate [44] [Json.member (str "lastHash") _, _] = rest
  exact ⟨[123], 44 :: (rest ++ [125]), by simp⟩

theorem repair_of_texts (hprev : HashText r.prevHash) (hhash : HashText r.hash) (hvalid : ∀ s ∈ r.texts, Utf8.validString s = true) :
    r.repair = r := by
  have hsame := (hashed_repair_iff hprev).2 hvalid
  simp only [hashed, AuditLogDO.repair, AuditLogDO.mk.injEq, true_and, and_true] at hsame
  simp only [AuditLogDO.repair, hsame, hhash.repair_eq]

theorem lineRows_rows (sg : AuditSegmentDO) (h : ∀ r ∈ rows, Storable r) :
    lineRows (rows.map AuditLogDO.marshal ++ [(footerOf sg).marshal]) = rows.map AuditLogDO.repair := by
  induction rows with
  | nil =>
    show lineRows [_] = _
    rw [lineRows, if_pos (isFooterLine_footer sg)]
    rfl
  | cons r rows ih =>
    rw [List.map_cons, List.cons_append, lineRows, if_neg (by rw [isFooterLine_marshal]; decide), AuditLogDO.unmarshal_marshal (h r List.mem_cons_self).fits]
    exact congrArg _ (ih fun q hq => h q (List.mem_cons_of_mem _ hq))

theorem verifyLines_rows {m : Int} {k : Int} {line : Bytes} (hl : HashChain.Linked chain m prev rows) (hfits : ∀ r ∈ rows, r.Fits ∧ r.repair = r) :
    verifyLines sg (m + 1) prev k (rows.map AuditLogDO.marshal ++ [line]) =
      verifyLines sg (m + 1 + rows.length) (HashChain.lastHash chain prev rows) (k + rows.length) [line] := by
  induction rows generalizing m prev k with
  | nil => simp
  | cons r rows ih =>
    obtain ⟨h1, h2, h3, hrest⟩ := hl
    obtain ⟨hfit, hsame⟩ := hfits r List.mem_cons_self
    have hlink : linksTo (m + 1) prev r = true := linksTo_iff.2 ⟨h1, h2, h3⟩
    have h1 : r.seq = m + 1 := h1
    rw [List.map_cons, List.cons_append, verifyLines, if_neg (by rw [isFooterLine_marshal]; decide), AuditLogDO.unmarshal_marshal hfit, hsame]
    simp only [hlink, if_true]
    have ih := ih (k := k + 1) hrest fun q hq => hfits q (List.mem_cons_of_mem _ hq)
    rw [h1]
    refine ih.trans ?_
    rw [HashChain.lastHash_cons, List.length_cons]
    push_cast
    ring_nf

theorem verifyArchiveData_written (hw : Written sg rows)
    (hfile : file = ((headerOf sg).marshal :: (rows.map AuditLogDO.marshal ++ [(footerOf sg).marshal])).flatMap fun l => l ++ [10])
    (hsum : sg.fileSm3 = Sm3.sumHex file) :
    verifyArchiveData sg file = verifyLines sg sg.firstSeq sg.firstPrevHash 0 (rows.map AuditLogDO.marshal ++ [(footerOf sg).marshal]) := by
  obtain ⟨h1, h2, h3, h4⟩ := hw.bounds
  have hcount := hw.count
  have htype : repair headerType = headerType := by decide +kernel
  have hheader : SegmentHeader.unmarshal (headerOf sg).marshal = _ := header_unmarshal (show -2 ^ 63 ≤ (1 : Int) ∧ (1 : Int) < 2 ^ 63 by decide)
    (show _ ∧ _ from ⟨by show -2 ^ 63 ≤ sg.firstSeq; omega, by show sg.firstSeq < 2 ^ 63; omega⟩)
    (show _ ∧ _ from ⟨by show -2 ^ 63 ≤ sg.lastSeq; omega, by show sg.lastSeq < 2 ^ 63; omega⟩)
    (show _ ∧ _ from ⟨by show -2 ^ 63 ≤ sg.recordCount; omega, by show sg.recordCount < 2 ^ 63; omega⟩)
  rw [verifyArchiveData, if_neg (not_not.2 hsum.symm), hfile, scanLines_file hw]
  simp only [hheader]
  show (if repair headerType ≠ headerType then _ else
    if sg.firstSeq ≠ sg.firstSeq ∨ sg.lastSeq ≠ sg.lastSeq ∨ repair sg.firstPrevHash ≠ sg.firstPrevHash then _ else
      verifyLines sg sg.firstSeq (repair sg.firstPrevHash) 0 _) = _
  rw [htype, hw.prev.repair_eq, if_neg (not_not.2 rfl), if_neg (by simp)]

theorem archivedRows_written (hw : Written sg rows)
    (hfile : file = ((headerOf sg).marshal :: (rows.map AuditLogDO.marshal ++ [(footerOf sg).marshal])).flatMap fun l => l ++ [10])
    (hdir : dir (Bytes.fileBase sg.fileName) = .data file) : archivedRows dir sg = rows.map AuditLogDO.repair := by
  rw [archivedRows, hdir]
  show lineRows ((Bytes.scanLines maxArchiveLine file).drop 1) = _
  rw [hfile, scanLines_file hw]
  exact lineRows_rows sg hw.storable

/-- An exported segment's file is accepted, with every hashed field as it was stored, exactly if the rows' strings are valid UTF-8. -/
theorem archive_kept_iff (hlast : Recorded last) (hrows : ∀ r ∈ rows, Storable r) (hne : rows ≠ [])
    (h : exportSegment (planFrom last) e rows now = .ok (sg, file)) (hdir : dir sg.fileName = .data file) :
    verifyArchiveFile dir sg = .ok () ∧ (archivedRows dir sg).map hashed = rows.map hashed ↔ ∀ r ∈ rows, ∀ s ∈ r.texts, Utf8.validString s = true := by
  have hw := written_of_export hlast hrows hne h
  have hx := exportSegment_spec h
  have hfile := exportSegment_file h
  have hname : dir (Bytes.fileBase sg.fileName) = .data file := by
    rw [hx.fileName, fileBase_segment, ← hx.fileName]
    exact hdir
  have hread := archivedRows_written hw hfile hname
  have hsum : sg.fileSm3 = Sm3.sumHex file := by
    have hlen : headerOf sg = ⟨headerType, 1, hashAlgorithm, sg.firstSeq, sg.lastSeq, sg.firstPrevHash, rows.length⟩ := by rw [headerOf, hw.count]
    have hlen' : footerOf sg = ⟨footerType, sg.lastHash, rows.length⟩ := by rw [footerOf, hw.count]
    rw [hx.fileSm3, hfile, hlen, hlen']
    rfl
  rw [hread, List.map_map]
  constructor
  · rintro ⟨-, hsame⟩ r hr
    have hsame : hashed r.repair = hashed r := List.map_inj_left.1 hsame r hr
    exact (hashed_repair_iff (hw.row hr).1).1 hsame
  · intro hvalid
    have hsame : ∀ r ∈ rows, r.repair = r := fun r hr => repair_of_texts (hw.row hr).1 (hw.row hr).2 (hvalid r hr)
    refine ⟨?_, List.map_congr_left fun r hr => congrArg hashed (hsame r hr)⟩
    rw [verifyArchiveFile, hname]
    show verifyArchiveData sg file = _
    rw [verifyArchiveData_written hw hfile hsum, show sg.firstSeq = sg.firstSeq - 1 + 1 by ring,
      verifyLines_rows hw.linked fun r hr => ⟨(hrows r hr).fits, hsame r hr⟩, verifyLines, if_pos (isFooterLine_footer sg), ← hw.lastHash]
    have hcount := hw.count
    obtain ⟨h1, h2, h3, h4⟩ := hw.bounds
    have hfooter : SegmentFooter.unmarshal (footerOf sg).marshal = _ :=
      footer_unmarshal ⟨by show -2 ^ 63 ≤ sg.recordCount; omega, by show sg.recordCount < 2 ^ 63; omega⟩
    rw [verifyFooter, hfooter]
    show (if sg.recordCount ≠ 0 + rows.length ∨ 0 + (rows.length : Int) ≠ sg.recordCount ∨ repair sg.lastHash ≠ sg.lastHash ∨ sg.lastHash ≠ sg.lastHash
      then _ else _) = _
    rw [hw.hashText_last.repair_eq, if_neg (by simp [hcount])]

def sampleId : Uuid := ⟨List.replicate 36 97, length_letters, letters_uuid⟩

def actorEvent (actor : Bytes) : Event := ⟨0, actor, [], [], [], [], [], [], [], [], [], []⟩

def firstRow (actor : Bytes) : AuditLogDO :=
  let r := { rowFromEvent sampleId.text (actorEvent actor) with id := 1, seq := 1, prevHash := genesisHash }
  { r with hash := computeHash r }

theorem storable_firstRow (actor : Bytes) : ∀ r ∈ [firstRow actor], Storable r := by
  intro r hr
  obtain rfl := List.mem_singleton.1 hr
  have hone : -2 ^ 63 ≤ (1 : Int) ∧ (1 : Int) < 2 ^ 63 := by decide
  exact ⟨⟨sampleId, actorEvent actor, rfl⟩, hone, hone⟩

theorem export_firstRow (actor : Bytes) : ∃ sg file, exportSegment (planFrom none) 1 [firstRow actor] 0 = .ok (sg, file) := by
  have hchain : checkChain 1 genesisHash [firstRow actor] = .ok (2, (firstRow actor).hash) := by
    have hlink : linksTo 1 genesisHash (firstRow actor) = true := linksTo_iff.2 ⟨rfl, rfl, (computeHash_hash _ _).symm⟩
    rw [checkChain, if_pos hlink]
    rfl
  rw [exportSegment, show checkChain (planFrom none).start (planFrom none).prev [firstRow actor] = _ from hchain]
  exact ⟨_, _, rfl⟩

theorem archive_kept_root : ∃ sg file, exportSegment (planFrom none) 1 [firstRow (str "root")] 0 = .ok (sg, file) ∧
    verifyArchiveFile (fun _ => .data file) sg = .ok () ∧ (archivedRows (fun _ => .data file) sg).map hashed = [hashed (firstRow (str "root"))] := by
  obtain ⟨sg, file, h⟩ := export_firstRow (str "root")
  refine ⟨sg, file, h, (archive_kept_iff .none (storable_firstRow _) (List.cons_ne_nil _ _) h rfl).2 ?_⟩
  intro r hr
  obtain rfl := List.mem_singleton.1 hr
  decide +kernel

/-- An actor that is one byte no character starts with: the archive of the untouched row is refused. -/
theorem archive_of_byte_refused : ∃ sg file, exportSegment (planFrom none) 1 [firstRow [0xFF]] 0 = .ok (sg, file) ∧
    verifyArchiveFile (fun _ => .data file) sg = .error (.other (str "chain broken at seq 1")) := by
  obtain ⟨sg, file, h⟩ := export_firstRow [0xFF]
  have hrows := storable_firstRow [0xFF]
  have hw := written_of_export .none hrows (List.cons_ne_nil _ _) h
  have hx := exportSegment_spec h
  refine ⟨sg, file, h, ?_⟩
  have hbroken : linksTo 1 genesisHash (firstRow [0xFF]).repair = false := by
    have hsame : ∀ r : AuditLogDO, HashText r.hash → r.repair.hash = r.hash := fun r h => h.repair_eq
    have hhash := hsame _ (hw.row List.mem_cons_self).2
    have hne : (firstRow [0xFF]).hash ≠ computeHash (firstRow [0xFF]).repair := by decide +kernel
    rw [Bool.eq_false_iff, ne_eq, linksTo_iff, hhash]
    exact fun hc => hne hc.2.2
  have hsum : sg.fileSm3 = Sm3.sumHex file := by
    rw [exportSegment] at h
    split at h
    · cases h
    · split_ifs at h
      cases h
      rfl
  show verifyArchiveData sg file = _
  rw [verifyArchiveData_written hw (exportSegment_file h) hsum, List.map_cons, List.cons_append, verifyLines, if_neg (by rw [isFooterLine_marshal]; decide),
    AuditLogDO.unmarshal_marshal (hrows _ List.mem_cons_self).fits, hx.firstSeq, hx.firstPrevHash]
  show (if linksTo 1 genesisHash (firstRow [0xFF]).repair then _ else Except.error (ArchiveError.other (str "chain broken at seq " ++ Bytes.itoa 1))) = _
  rw [hbroken, if_neg Bool.false_ne_true]
  exact congrArg (fun msg => Except.error (ArchiveError.other msg)) (by decide)

end Audit
