import Privahub.Audit.Store

/-!
# Archiving

`internal/audit/retention.go`. `archiveOne` is cut at its database accesses: the plan taken from the
last segment (`planFrom`), the first row to keep (`firstKeep`), the end of the prefix
(`archiveEnd`), the refusal to archive a broken chain and the archive file (`exportSegment`), and
the transaction that inserts the segment and deletes the rows (`archiveCommit`). `verifyArchiveFile`
reads a file back; `checkChain` is the loop both share.
-/

namespace Audit

def maxSegmentRows : Int := 100000

def headerType : Bytes := str "segment_header"

def footerType : Bytes := str "segment_footer"

structure SegmentHeader where
  type : Bytes
  version : Int
  algorithm : Bytes
  firstSeq : Int
  lastSeq : Int
  firstPrevHash : Bytes
  count : Int

structure SegmentFooter where
  type : Bytes
  lastHash : Bytes
  count : Int

namespace SegmentHeader

def marshal (h : SegmentHeader) : Bytes :=
  Json.object [Json.member (str "type") (Json.quote h.type), Json.member (str "version") (Bytes.itoa h.version),
    Json.member (str "algorithm") (Json.quote h.algorithm), Json.member (str "firstSeq") (Bytes.itoa h.firstSeq),
    Json.member (str "lastSeq") (Bytes.itoa h.lastSeq),
    Json.member (str "firstPrevHash") (Json.quote h.firstPrevHash), Json.member (str "count") (Bytes.itoa h.count)]

def setField (h : SegmentHeader) (f : Bytes) (v : Json) : Option SegmentHeader :=
  if f = str "type" then (Json.decodeStr h.type v).map fun x => { h with type := x }
  else if f = str "version" then (Json.decodeInt h.version v).map fun x => { h with version := x }
  else if f = str "algorithm" then (Json.decodeStr h.algorithm v).map fun x => { h with algorithm := x }
  else if f = str "firstSeq" then (Json.decodeInt h.firstSeq v).map fun x => { h with firstSeq := x }
  else if f = str "lastSeq" then (Json.decodeInt h.lastSeq v).map fun x => { h with lastSeq := x }
  else if f = str "firstPrevHash" then (Json.decodeStr h.firstPrevHash v).map fun x => { h with firstPrevHash := x }
  else if f = str "count" then (Json.decodeInt h.count v).map fun x => { h with count := x }
  else some h

def unmarshal (s : Bytes) : Option SegmentHeader :=
  Json.decodeStruct [str "type", str "version", str "algorithm", str "firstSeq", str "lastSeq", str "firstPrevHash",
    str "count"] setField ⟨[], 0, [], 0, 0, [], 0⟩ s

end SegmentHeader

namespace SegmentFooter

def marshal (f : SegmentFooter) : Bytes :=
  Json.object [Json.member (str "type") (Json.quote f.type), Json.member (str "lastHash") (Json.quote f.lastHash),
    Json.member (str "count") (Bytes.itoa f.count)]

def setField (h : SegmentFooter) (f : Bytes) (v : Json) : Option SegmentFooter :=
  if f = str "type" then (Json.decodeStr h.type v).map fun x => { h with type := x }
  else if f = str "lastHash" then (Json.decodeStr h.lastHash v).map fun x => { h with lastHash := x }
  else if f = str "count" then (Json.decodeInt h.count v).map fun x => { h with count := x }
  else some h

def unmarshal (s : Bytes) : Option SegmentFooter :=
  Json.decodeStruct [str "type", str "lastHash", str "count"] setField ⟨[], [], 0⟩ s

end SegmentFooter

/-- `%012d`. -/
def pad12 (n : Int) : Bytes :=
  let d := Bytes.digits n.natAbs
  if n < 0 then 45 :: List.replicate (11 - d.length) 48 ++ d else List.replicate (12 - d.length) 48 ++ d

def segmentFileName (first last : Int) : Bytes :=
  str "audit-segment-" ++ pad12 first ++ 45 :: pad12 last ++ str ".jsonl"

def archiveFile (first last : Int) (prev lastHash : Bytes) (rows : List AuditLogDO) : Bytes :=
  let header : SegmentHeader := ⟨headerType, 1, hashAlgorithm, first, last, prev, rows.length⟩
  let footer : SegmentFooter := ⟨footerType, lastHash, rows.length⟩
  (header.marshal :: rows.map AuditLogDO.marshal ++ [footer.marshal]).flatMap fun l => l ++ [10]

/-- The next record after number `exp - 1` and hash `prev`, unmodified. -/
def linksTo (exp : Int) (prev : Bytes) (r : AuditLogDO) : Bool :=
  r.seq == exp && r.prevHash == prev && r.hash == computeHash r

/-- The number and hash expected after the rows, or the number at which the chain breaks. -/
def checkChain : Int → Bytes → List AuditLogDO → Except Int (Int × Bytes)
  | exp, prev, [] => .ok (exp, prev)
  | exp, prev, r :: rs => if linksTo exp prev r then checkChain (r.seq + 1) r.hash rs else .error exp

theorem linksTo_iff {exp : Int} {prev : Bytes} {r : AuditLogDO} :
    linksTo exp prev r ↔ r.seq = exp ∧ r.prevHash = prev ∧ r.hash = computeHash r := by
  simp [linksTo, and_assoc]

theorem checkChain_ok {n : Int} {prev : Bytes} {rs : List AuditLogDO} {q : Int × Bytes} :
    checkChain (n + 1) prev rs = .ok q ↔ HashChain.Linked chain n prev rs ∧
      q = (n + 1 + rs.length, HashChain.lastHash chain prev rs) := by
  induction rs generalizing n prev with
  | nil => simp [checkChain, eq_comm]
  | cons r rs ih =>
    rw [checkChain]
    constructor
    · intro h
      split_ifs at h with hl
      obtain ⟨h1, h2, h3⟩ := linksTo_iff.1 hl
      rw [h1] at h
      obtain ⟨hl, rfl⟩ := ih.1 h
      refine ⟨⟨h1, h2, h3, hl⟩, ?_⟩
      simp only [List.length_cons, HashChain.lastHash_cons, Prod.mk.injEq]
      exact ⟨by push_cast; ring, rfl⟩
    · rintro ⟨⟨h1, h2, h3, hl⟩, rfl⟩
      rw [if_pos (linksTo_iff.2 ⟨h1, h2, h3⟩)]
      have h1 : r.seq = n + 1 := h1
      rw [h1]
      refine ih.2 ⟨hl, ?_⟩
      simp only [List.length_cons, HashChain.lastHash_cons, Prod.mk.injEq]
      exact ⟨by push_cast; ring, rfl⟩

structure ArchivePlan where
  start : Int
  prev : Bytes
  segSeq : Int
  prevSeg : Bytes

def planFrom (last : Option AuditSegmentDO) : ArchivePlan :=
  match last with
  | none => ⟨1, genesisHash, 1, genesisHash⟩
  | some sg => ⟨sg.lastSeq + 1, sg.lastHash, sg.segSeq + 1, sg.segHash⟩

/-- `SELECT MIN(seq) … WHERE seq >= start AND ts_micro >= cutoff`. -/
def firstKeep (s : Store) (start cutoff : Int) : Option Int :=
  ((s.log.filter fun r => decide (start ≤ r.seq) && decide (cutoff ≤ r.tsMicro)).head?).map AuditLogDO.seq

def archiveEnd (start tailSeq : Int) (keep : Option Int) : Int :=
  let e := match keep with
    | some k => k - 1
    | none => tailSeq
  if e - start + 1 > maxSegmentRows then start + maxSegmentRows - 1 else e

def brokenAt (n : Int) : Bytes := str "audit: chain broken at seq " ++ Bytes.itoa n ++ str ", refusing to archive"

/-- The segment record and the bytes of its file, or the error when the chain is broken. -/
def exportSegment (p : ArchivePlan) (last : Int) (rows : List AuditLogDO) (now : Int) :
    Except Bytes (AuditSegmentDO × Bytes) :=
  match checkChain p.start p.prev rows with
  | .error n => .error (brokenAt n)
  | .ok (exp, expPrev) =>
    if exp - 1 ≠ last then .error (brokenAt exp)
    else
      let file := archiveFile p.start last p.prev expPrev rows
      let seg : AuditSegmentDO := {
        segSeq := p.segSeq, firstSeq := p.start, lastSeq := last, recordCount := rows.length, firstPrevHash := p.prev
        lastHash := expPrev, fileName := segmentFileName p.start last, fileSm3 := Sm3.sumHex file
        archiveMicro := now, prevSegHash := p.prevSeg, segHash := [] }
      .ok ({ seg with segHash := computeSegmentHash seg }, file)

def archiveCommit (s : Store) (sg : AuditSegmentDO) : Option Store := do
  let s ← s.insertSegment sg
  if ((Table.between AuditLogDO.seq sg.firstSeq sg.lastSeq s.log).length : Int) = sg.recordCount then
    some (s.deleteBetween sg.firstSeq sg.lastSeq)
  else none

/-- What `os.ReadFile` gives for a name in the archive directory. -/
inductive FileRead where
  | missing
  | unreadable (err : Bytes)
  | data (content : Bytes)

/-- An archive directory, by the base names of its entries. -/
abbrev Dir := Bytes → FileRead

inductive ArchiveError where
  | missing
  | other (msg : Bytes)
deriving DecidableEq

def ArchiveError.text : ArchiveError → Bytes
  | missing => str "archive file missing"
  | other msg => msg

def maxArchiveLine : Nat := 16 * 1024 * 1024

def footerMark : Bytes := str "\"type\":\"segment_footer\""

def isFooterLine (line : Bytes) : Bool := decide (footerMark <:+: line)

def verifyFooter (sg : AuditSegmentDO) (n : Int) (prev line : Bytes) : Except ArchiveError Unit :=
  match SegmentFooter.unmarshal line with
  | none => .error (.other (str "bad footer"))
  | some f =>
    if f.count ≠ n ∨ n ≠ sg.recordCount ∨ f.lastHash ≠ prev ∨ prev ≠ sg.lastHash then
      .error (.other (str "footer does not match chain"))
    else .ok ()

/-- The loop over the lines after the header: `n` rows were read, `exp` and `prev` are expected. -/
def verifyLines (sg : AuditSegmentDO) : Int → Bytes → Int → List Bytes → Except ArchiveError Unit
  | _, _, _, [] => .error (.other (str "missing footer"))
  | exp, prev, n, line :: lines =>
    if isFooterLine line then verifyFooter sg n prev line
    else match AuditLogDO.unmarshal line with
      | none => .error (.other (str "bad row after seq " ++ Bytes.itoa (exp - 1)))
      | some r =>
        if linksTo exp prev r then verifyLines sg (r.seq + 1) r.hash (n + 1) lines
        else .error (.other (str "chain broken at seq " ++ Bytes.itoa exp))

def verifyArchiveData (sg : AuditSegmentDO) (data : Bytes) : Except ArchiveError Unit :=
  if Sm3.sumHex data ≠ sg.fileSm3 then .error (.other (str "file content hash mismatch"))
  else match Bytes.scanLines maxArchiveLine data with
    | [] => .error (.other (str "empty archive"))
    | line :: lines =>
      match SegmentHeader.unmarshal line with
      | none => .error (.other (str "bad header"))
      | some h =>
        if h.type ≠ headerType then .error (.other (str "bad header"))
        else if h.firstSeq ≠ sg.firstSeq ∨ h.lastSeq ≠ sg.lastSeq ∨ h.firstPrevHash ≠ sg.firstPrevHash then
          .error (.other (str "header does not match segment record"))
        else verifyLines sg h.firstSeq h.firstPrevHash 0 lines

def verifyArchiveFile (dir : Dir) (sg : AuditSegmentDO) : Except ArchiveError Unit :=
  match dir (Bytes.fileBase sg.fileName) with
  | .missing => .error .missing
  | .unreadable err => .error (.other err)
  | .data data => verifyArchiveData sg data

def lineRows : List Bytes → List AuditLogDO
  | [] => []
  | line :: lines =>
    if isFooterLine line then []
    else match AuditLogDO.unmarshal line with
      | some r => r :: lineRows lines
      | none => []

def archivedRows (dir : Dir) (sg : AuditSegmentDO) : List AuditLogDO :=
  match dir (Bytes.fileBase sg.fileName) with
  | .data data => lineRows ((Bytes.scanLines maxArchiveLine data).drop 1)
  | _ => []

theorem verifyLines_spec {sg : AuditSegmentDO} {m : Int} {prev : Bytes} {n : Int} {lines : List Bytes}
    (h : verifyLines sg (m + 1) prev n lines = .ok ()) :
    HashChain.Linked chain m prev (lineRows lines) ∧ sg.recordCount = n + (lineRows lines).length ∧
      sg.lastHash = HashChain.lastHash chain prev (lineRows lines) := by
  induction lines generalizing m prev n with
  | nil => simp [verifyLines] at h
  | cons line lines ih =>
    rw [verifyLines] at h
    rw [lineRows]
    split_ifs at h ⊢ with hf
    · unfold verifyFooter at h
      split at h
      · simp at h
      · split_ifs at h with hne
        simp only [not_or, not_not] at hne
        simp [← hne.2.1, hne.2.2.2]
    · rcases hr : AuditLogDO.unmarshal line with _ | r
      · simp [hr] at h
      simp only [hr] at h ⊢
      split_ifs at h with hl
      obtain ⟨h1, h2, h3⟩ := linksTo_iff.1 hl
      rw [h1] at h
      obtain ⟨i1, i2, i3⟩ := ih h
      refine ⟨⟨h1, h2, h3, i1⟩, ?_, i3⟩
      rw [i2, List.length_cons]; push_cast; ring

theorem verifyArchiveFile_spec {dir : Dir} {sg : AuditSegmentDO} (h : verifyArchiveFile dir sg = .ok ()) :
    HashChain.Linked chain (sg.firstSeq - 1) sg.firstPrevHash (archivedRows dir sg) ∧
      sg.recordCount = (archivedRows dir sg).length ∧
      sg.lastHash = HashChain.lastHash chain sg.firstPrevHash (archivedRows dir sg) := by
  unfold verifyArchiveFile at h
  unfold archivedRows
  rcases hd : dir (Bytes.fileBase sg.fileName) with _ | err | data <;> simp only [hd, reduceCtorEq] at h ⊢
  unfold verifyArchiveData at h
  split_ifs at h with hsum
  rcases hs : Bytes.scanLines maxArchiveLine data with _ | ⟨line, lines⟩ <;> simp only [hs, reduceCtorEq] at h ⊢
  rcases hu : SegmentHeader.unmarshal line with _ | hd <;> simp only [hu, reduceCtorEq] at h
  split_ifs at h with ht hm
  simp only [not_or, not_not] at hm
  rw [hm.1, hm.2.2, show sg.firstSeq = sg.firstSeq - 1 + 1 by ring] at h
  simpa using verifyLines_spec h

/-- What an exported segment records about the rows it was made from. -/
structure Exported (p : ArchivePlan) (rows : List AuditLogDO) (sg : AuditSegmentDO) : Prop where
  linked : HashChain.Linked chain (p.start - 1) p.prev rows
  segSeq : sg.segSeq = p.segSeq
  firstSeq : sg.firstSeq = p.start
  lastSeq : sg.lastSeq = p.start - 1 + rows.length
  recordCount : sg.recordCount = rows.length
  firstPrevHash : sg.firstPrevHash = p.prev
  lastHash : sg.lastHash = HashChain.lastHash chain p.prev rows
  prevSegHash : sg.prevSegHash = p.prevSeg
  segHash : sg.segHash = computeSegmentHash sg
  fileName : sg.fileName = segmentFileName sg.firstSeq sg.lastSeq
  fileSm3 : sg.fileSm3 = Sm3.sumHex (archiveFile sg.firstSeq sg.lastSeq sg.firstPrevHash sg.lastHash rows)

theorem exportSegment_spec {p : ArchivePlan} {last now : Int} {rows : List AuditLogDO} {sg : AuditSegmentDO}
    {file : Bytes} (h : exportSegment p last rows now = .ok (sg, file)) : Exported p rows sg := by
  unfold exportSegment at h
  rcases hc : checkChain p.start p.prev rows with e | ⟨exp, expPrev⟩
  · simp [hc] at h
  simp only [hc] at h
  split_ifs at h with hlast
  rw [show p.start = p.start - 1 + 1 by ring, checkChain_ok] at hc
  obtain ⟨hl, hq⟩ := hc
  obtain ⟨rfl, rfl⟩ := Prod.mk.inj hq
  simp only [Except.ok.injEq, Prod.mk.injEq] at h
  obtain ⟨rfl, -⟩ := h
  exact ⟨hl, rfl, rfl, by simp only; omega, rfl, rfl, rfl, rfl, rfl, rfl, rfl⟩

theorem exportSegment_last {p : ArchivePlan} {last now : Int} {rows : List AuditLogDO} {sg : AuditSegmentDO}
    {file : Bytes} (h : exportSegment p last rows now = .ok (sg, file)) : sg.lastSeq = last := by
  unfold exportSegment at h
  rcases hc : checkChain p.start p.prev rows with e | ⟨exp, expPrev⟩
  · simp [hc] at h
  simp only [hc] at h
  split_ifs at h
  simp only [Except.ok.injEq, Prod.mk.injEq] at h
  rw [← h.1]

end Audit
