import Privahub.Audit.Model
import Privahub.Lib.JsonWrite

/-!
# Rows written as JSON lines

What `json.Unmarshal` makes of the text `json.Marshal` writes for a row (`unmarshal_marshal`): the
same row, with the invalid bytes of its strings replaced. A row's text has no line break in it, and
for a row built from an event it is short enough for every reader of such lines
(`length_marshal_rowFromEvent`).
-/

namespace Audit

namespace AuditLogDO

open Json (member)

def members (r : AuditLogDO) : List (Bytes × Json) :=
  let s (b : Bytes) : Json := .str (Json.escape b)
  let n (i : Int) : Json := .num (Bytes.itoa i)
  [(str "id", n r.id), (str "seq", n r.seq), (str "eventId", s r.eventId), (str "tsMicro", n r.tsMicro),
    (str "actor", s r.actor), (str "actorType", s r.actorType), (str "ownerId", s r.ownerId), (str "ip", s r.ip),
    (str "action", s r.action), (str "resourceType", s r.resourceType), (str "resourceId", s r.resourceId),
    (str "result", s r.result), (str "reason", s r.reason), (str "traceId", s r.traceId), (str "extra", s r.extra),
    (str "prevHash", s r.prevHash), (str "hash", s r.hash)]

/-- The tree `marshal` writes. -/
def tree (r : AuditLogDO) : Json := .obj r.members

theorem render_tree (r : AuditLogDO) : Json.render r.tree = r.marshal := rfl

theorem wf_tree (r : AuditLogDO) : Json.Wf r.tree := by
  have hk : ∀ k ∈ fieldNames, Json.StrLit k := by decide
  have hs := Json.strLit_escape
  have hn := Json.numLit_itoa
  simp only [tree, members, Json.Wf, Json.WfMembers, hs, hn, and_true, true_and]
  simpa [fieldNames] using hk

structure Fits (r : AuditLogDO) : Prop where
  id : -2 ^ 63 ≤ r.id ∧ r.id < 2 ^ 63
  seq : -2 ^ 63 ≤ r.seq ∧ r.seq < 2 ^ 63
  tsMicro : -2 ^ 63 ≤ r.tsMicro ∧ r.tsMicro < 2 ^ 63

/-- The row with the invalid bytes of its strings replaced. -/
def repair (r : AuditLogDO) : AuditLogDO where
  id := r.id
  seq := r.seq
  eventId := Json.repair r.eventId
  tsMicro := r.tsMicro
  actor := Json.repair r.actor
  actorType := Json.repair r.actorType
  ownerId := Json.repair r.ownerId
  ip := Json.repair r.ip
  action := Json.repair r.action
  resourceType := Json.repair r.resourceType
  resourceId := Json.repair r.resourceId
  result := Json.repair r.result
  reason := Json.repair r.reason
  traceId := Json.repair r.traceId
  extra := Json.repair r.extra
  prevHash := Json.repair r.prevHash
  hash := Json.repair r.hash

theorem unmarshal_marshal {r : AuditLogDO} (h : r.Fits) : unmarshal r.marshal = some r.repair := by
  have hp : Json.parse r.marshal = some r.tree := by
    rw [← render_tree]
    exact Json.parse_render r.wf_tree (by simp [tree, members, Json.depth, Json.depthMembers, Json.maxNestingDepth])
  have hint : ∀ old n, (-2 ^ 63 ≤ n ∧ n < 2 ^ 63) → Json.decodeInt old (.num (Bytes.itoa n)) = some n :=
    fun old n hn => Json.parseInt64_itoa hn.1 hn.2
  have hstr : ∀ old b, Json.decodeStr old (.str (Json.escape b)) = some (Json.repair b) :=
    fun old b => congrArg some (Json.unquote_escape b)
  have hk : ∀ k ∈ fieldNames, Json.unquote k = k := by decide
  have hmem : ∀ m ∈ r.members, m.1 ∈ fieldNames := fun m hm => List.mem_map_of_mem (f := Prod.fst) hm
  rw [unmarshal, Json.decodeStruct_of_parse hp fun m hm => ⟨hk _ (hmem m hm), hmem m hm⟩]
  simp +decide only [members, List.foldlM_cons, List.foldlM_nil, setField, if_true, if_false, hint _ _ h.id, hint _ _ h.seq, hint _ _ h.tsMicro, hstr,
    Option.map_some, Option.bind_eq_bind, Option.bind_some]
  rfl

theorem le_of_mem_marshal {r : AuditLogDO} {b : UInt8} (hb : b ∈ r.marshal) : 32 ≤ b :=
  Json.le_of_mem_render r.tree r.wf_tree b hb

end AuditLogDO

theorem length_trimInvalid_le (k : Nat) (s : Bytes) : (trimInvalid k s).length ≤ s.length := by
  induction k generalizing s with
  | zero => exact le_rfl
  | succ k ih =>
    rw [trimInvalid]
    split_ifs
    · exact (ih _).trans (by rw [List.length_take]; omega)
    · exact le_rfl

theorem length_truncate_le (s : Bytes) (n : Nat) : (truncate s n).length ≤ n := by
  unfold truncate
  split_ifs with h
  · exact h
  · exact (length_trimInvalid_le n _).trans (by rw [List.length_take]; omega)

theorem length_quote_le (s : Bytes) : (Json.quote s).length ≤ 6 * s.length + 2 := by
  have := Json.length_escape_le s
  simp only [Json.quote, List.length_append, List.length_cons, List.length_nil]; omega

theorem length_intercalate_le {k : Nat} {ps : List Bytes} (h : ∀ p ∈ ps, p.length ≤ k) :
    (List.intercalate [44] ps).length ≤ ps.length * (k + 1) := by
  induction ps with
  | nil => simp
  | cons p ps ih =>
    have hp := h p (List.mem_cons_self ..)
    have hps := ih fun q hq => h q (.tail _ hq)
    cases ps with
    | nil => simp only [List.intercalate_singleton, List.length_cons, List.length_nil]; omega
    | cons q ps =>
      rw [List.intercalate_cons_cons, List.length_append, List.length_append, List.length_cons (a := p), Nat.succ_mul]
      simp only [List.length_singleton]; omega

theorem length_put_le (m : List (Bytes × Bytes)) (k v : Bytes) : (put m k v).length ≤ m.length + 1 := by
  have := List.length_filter_le (fun e : Bytes × Bytes => decide (e.1 ≠ k)) m
  simp only [put, List.length_append, List.length_singleton]; omega

theorem foldl_put_bounds (es acc : List (Bytes × Bytes))
    (h : ∀ e ∈ acc, e.1.length ≤ maxExtraKey ∧ e.2.length ≤ maxExtraValue) :
    let out := es.foldl (fun m e => put m (truncate e.1 maxExtraKey) (truncate e.2 maxExtraValue)) acc
    out.length ≤ acc.length + es.length ∧ ∀ e ∈ out, e.1.length ≤ maxExtraKey ∧ e.2.length ≤ maxExtraValue := by
  induction es generalizing acc with
  | nil => exact ⟨by simp, h⟩
  | cons e es ih =>
    obtain ⟨h1, h2⟩ := ih (put acc (truncate e.1 maxExtraKey) (truncate e.2 maxExtraValue)) fun x hx => by
      rcases List.mem_append.1 hx with hx | hx
      · exact h x (List.mem_filter.1 hx).1
      · rw [List.mem_singleton.1 hx]
        exact ⟨length_truncate_le .., length_truncate_le ..⟩
    have := length_put_le acc (truncate e.1 maxExtraKey) (truncate e.2 maxExtraValue)
    refine ⟨?_, h2⟩
    simp only [List.foldl_cons, List.length_cons]; omega

theorem length_canonicalExtra_le (m : List (Bytes × Bytes)) : (canonicalExtra m).length ≤ 120000 := by
  have hobj : ∀ ps : List Bytes, ps.length ≤ 32 → (∀ p ∈ ps, p.length ≤ 3461) → (Json.object ps).length ≤ 120000 := by
    intro ps h1 h2
    have h3 := length_intercalate_le h2
    have h4 : ps.length * (3461 + 1) ≤ 32 * (3461 + 1) := Nat.mul_le_mul_right _ h1
    simp only [Json.object, List.length_append, List.length_cons, List.length_nil]; omega
  unfold canonicalExtra
  split_ifs with hm
  · simp
  obtain ⟨h1, h2⟩ := foldl_put_bounds ((List.insertionSort (fun a b => bytesLe a.1 b.1 = true)
    (m.foldl (fun m e => put m e.1 e.2) [])).take maxExtraEntries) [] (by simp)
  refine hobj _ ?_ fun p hp => ?_
  · rw [List.length_take] at h1
    rw [List.length_map, List.length_insertionSort]
    refine h1.trans ?_
    rw [List.length_nil, Nat.zero_add]
    exact Nat.min_le_left ..
  · obtain ⟨e, he, rfl⟩ := List.mem_map.1 hp
    obtain ⟨h3, h4⟩ := h2 e ((List.mem_insertionSort _).1 he)
    have h5 := length_quote_le e.1
    have h6 := length_quote_le e.2
    unfold maxExtraKey at h3
    unfold maxExtraValue at h4
    simp only [List.length_append, List.length_cons]; omega

structure Spoolable (r : AuditLogDO) : Prop where
  fits : r.Fits
  short : r.marshal.length < 4 * 1024 * 1024
  eventId : r.eventId ≠ []
  text : Json.repair r.eventId = r.eventId

def isUuidByte (b : UInt8) : Bool := Bytes.isDigit b || (97 ≤ b && b ≤ 102) || b == 45

/-- What `uuid.NewString` returns: 36 hexadecimal digits and dashes. -/
structure Uuid where
  text : Bytes
  length : text.length = 36
  bytes : ∀ b ∈ text, isUuidByte b
deriving DecidableEq

theorem length_letters : (List.replicate 36 (97 : UInt8)).length = 36 := by simp

theorem letters_uuid : ∀ b ∈ List.replicate 36 (97 : UInt8), isUuidByte b := fun b hb => by rw [List.eq_of_mem_replicate hb]; decide

theorem sum_length_object (ps : List Bytes) : (Json.object ps).length ≤ (ps.map fun p => p.length + 1).sum + 2 := by
  have : ∀ ps : List Bytes, (List.intercalate [44] ps).length ≤ (ps.map fun p => p.length + 1).sum := by
    intro ps
    induction ps with
    | nil => simp
    | cons p ps ih =>
      cases ps with
      | nil => simp
      | cons q ps =>
        rw [List.intercalate_cons_cons, List.map_cons, List.sum_cons]
        simp only [List.length_append, List.length_singleton]; omega
  have := this ps
  simp only [Json.object, List.length_append, List.length_cons, List.length_nil]; omega

theorem length_marshal_le (r : AuditLogDO) : r.marshal.length ≤ 400 + (Bytes.itoa r.id).length + (Bytes.itoa r.seq).length +
    (Bytes.itoa r.tsMicro).length + 6 * (r.eventId.length + r.actor.length + r.actorType.length + r.ownerId.length +
      r.ip.length + r.action.length + r.resourceType.length + r.resourceId.length + r.result.length + r.reason.length +
      r.traceId.length + r.extra.length + r.prevHash.length + r.hash.length) := by
  have hm : ∀ k v : Bytes, (Json.member k v).length = k.length + 3 + v.length := fun k v => by
    simp only [Json.member, List.length_append, List.length_cons, List.length_nil]
  have hq := length_quote_le
  have hk : ∀ k ∈ AuditLogDO.fieldNames, k.length ≤ 12 := by decide
  simp only [AuditLogDO.fieldNames, List.forall_mem_cons] at hk
  refine (sum_length_object _).trans ?_
  simp only [List.map_cons, List.map_nil, List.sum_cons, List.sum_nil, hm]
  have h1 := hq r.eventId
  have h2 := hq r.actor
  have h3 := hq r.actorType
  have h4 := hq r.ownerId
  have h5 := hq r.ip
  have h6 := hq r.action
  have h7 := hq r.resourceType
  have h8 := hq r.resourceId
  have h9 := hq r.result
  have h10 := hq r.reason
  have h11 := hq r.traceId
  have h12 := hq r.extra
  have h13 := hq r.prevHash
  have h14 := hq r.hash
  omega

theorem repair_of_ascii {s : Bytes} (h : ∀ b ∈ s, b.toNat < 0x80) : Json.repair s = s := by
  induction s with
  | nil => rfl
  | cons b s ih =>
    have hb := h b (List.mem_cons_self ..)
    have hone : Utf8.encodeRune b.toNat = [b] := by rw [Utf8.encodeRune, if_pos hb, Utf8.ofNat_eq rfl]
    have hr := Utf8.runes_encodeRune_append (c := b.toNat) (.inl (by omega)) s
    have hne : Utf8.invalid (b.toNat, [b]) = false := by
      have : b.toNat ≠ Utf8.runeError := by unfold Utf8.runeError; omega
      simp [Utf8.invalid, this]
    rw [hone, List.singleton_append] at hr
    rw [Json.repair, hr, List.flatMap_cons, hne]
    have hs := ih fun x hx => h x (.tail _ hx)
    rw [Json.repair] at hs
    rw [hs]; rfl

theorem Uuid.ascii (id : Uuid) : ∀ b ∈ id.text, b.toNat < 0x80 := by
  intro b hb
  have h := id.bytes b hb
  simp only [isUuidByte, Bytes.isDigit, Bool.or_eq_true, Bool.and_eq_true, decide_eq_true_eq, beq_iff_eq,
    UInt8.le_iff_toNat_le] at h
  have h57 : (57 : UInt8).toNat = 57 := rfl
  have h102 : (102 : UInt8).toNat = 102 := rfl
  rcases h with (h | h) | rfl
  · omega
  · omega
  · decide

theorem spoolable_rowFromEvent (id : Uuid) (e : Event) : Spoolable (rowFromEvent id.text e) := by
  have hid : truncate id.text 64 = id.text := by
    unfold truncate
    rw [if_pos (by rw [id.length]; decide)]
  have ht := length_truncate_le
  have hts : -2 ^ 63 ≤ truncateTime e.time ∧ truncateTime e.time < 2 ^ 63 := by
    unfold truncateTime
    have h1 := Int.le_bmod (x := e.time / 1000) (m := 2 ^ 64) (by decide)
    have h2 := Int.bmod_lt (x := e.time / 1000) (m := 2 ^ 64) (by decide)
    omega
  have hz : -2 ^ 63 ≤ (0 : Int) ∧ (0 : Int) < 2 ^ 63 := by decide
  refine ⟨⟨hz, hz, hts⟩, ?_, ?_, ?_⟩
  · have hlen := length_marshal_le (rowFromEvent id.text e)
    have hmicro := Bytes.length_itoa_le hts.1 hts.2
    have hzero : (Bytes.itoa 0).length = 1 := rfl
    have hx := length_canonicalExtra_le e.extra
    have h1 := ht id.text 64
    have h2 := ht e.actor maxActor
    have h3 := ht e.actorType maxActorType
    have h4 := ht e.ownerId maxOwnerID
    have h5 := ht e.ip maxIP
    have h6 := ht e.action maxAction
    have h7 := ht e.resourceType maxResourceType
    have h8 := ht e.resourceId maxResourceID
    have h9 := ht e.result maxResult
    have h10 := ht e.reason maxReason
    have h11 := ht e.traceId maxTraceID
    simp only [rowFromEvent, List.length_nil, hzero] at hlen ⊢
    simp only [maxActor, maxActorType, maxOwnerID, maxIP, maxAction, maxResourceType, maxResourceID, maxResult, maxReason,
      maxTraceID] at *
    omega
  · simp only [rowFromEvent, hid]
    intro h
    have := id.length
    rw [h] at this
    simp at this
  · simp only [rowFromEvent, hid]
    exact repair_of_ascii id.ascii

end Audit
