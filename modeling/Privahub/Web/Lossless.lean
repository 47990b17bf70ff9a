import Privahub.Lib.Outcome
import Privahub.Lib.WholeNumber
import Privahub.Web.Serializers

/-!
# What the serializers keep

Each pair of serializers gives back what is stored, and what the editor holds but for the keys of rows, as far as nothing is missing that the other side
puts in: `Stored` and `Held` say what has to be there. A label of a bin is read as its bounds because numbers and infinities have no comma, blank
or bracket (`getBinBoundValue_label`).
-/

namespace Web.Serializers

open Json JsJson

section
variable {ν : Type}

/-- A condition first, others without connections, and connections for the first of these. -/
def StoredBranch (w : CaseWhenBranch ν) : Prop :=
  ∃ (c : CaseWhenCond ν) (cs : List (CaseWhenCond ν)) (ks : List Bytes), w.conds = some (some c :: cs.map some) ∧ (∀ x ∈ cs, x.connection = none) ∧
    w.connections = some ks ∧ ks.length ≤ cs.length ∧ [] ∉ ks

/-- No condition has a connection behind one that has none. -/
def HeldWhen (w : CaseWhenFormWhen ν) : Prop :=
  ∃ c cs n, ∃ ks : List Bytes, w.when = some c ∧ w.conds = some cs ∧ cs.map (·.connection) = ks.map some ++ List.replicate n none ∧ [] ∉ ks

theorem connect_stored {cs : List (CaseWhenCond ν)} {ks : List Bytes} (hcs : ∀ x ∈ cs, x.connection = none) (hlen : ks.length ≤ cs.length)
    (hks : [] ∉ ks) :
    (connect ks cs).map (·.rest) = cs ∧ ((connect ks cs).filterMap fun c => c.connection.filter (· ≠ [])) = ks := by
  induction cs generalizing ks with
  | nil =>
    obtain rfl := List.length_eq_zero_iff.1 (Nat.le_zero.1 hlen)
    exact ⟨rfl, rfl⟩
  | cons c cs ih =>
    obtain ⟨hc, hcs⟩ := List.forall_mem_cons.1 hcs
    have hrest : c.rest = c := by rw [CaseWhenCond.rest, ← hc]
    cases ks with
    | nil =>
      obtain ⟨hmap, hnone⟩ := ih hcs (Nat.zero_le _) hks
      rw [connect_nil] at hmap hnone ⊢
      refine ⟨by rw [List.map_cons, hrest, hmap], ?_⟩
      rw [List.filterMap_cons, hc]
      exact hnone
    | cons k ks =>
      obtain ⟨hk, hks⟩ := not_or.1 (mt List.mem_cons.2 hks)
      obtain ⟨hmap, hfilter⟩ := ih hcs (Nat.le_of_succ_le_succ hlen) hks
      rw [connect, List.map_cons, hmap, List.filterMap_cons, hfilter]
      refine ⟨congrArg (· :: cs) hrest, ?_⟩
      simp [Option.filter, Ne.symm hk]

theorem connect_held {cs : List (CaseWhenCond ν)} {ks : List Bytes} {n : Nat} (h : cs.map (·.connection) = ks.map some ++ List.replicate n none)
    (hks : [] ∉ ks) :
    (cs.filterMap fun c => c.connection.filter (· ≠ [])) = ks ∧ connect ks (cs.map (·.rest)) = cs := by
  induction cs generalizing ks n with
  | nil =>
    obtain ⟨hks, -⟩ := List.append_eq_nil_iff.1 h.symm
    obtain rfl := List.map_eq_nil_iff.1 hks
    exact ⟨rfl, rfl⟩
  | cons c cs ih =>
    cases ks with
    | nil =>
      cases n with
      | zero => cases h
      | succ n =>
        obtain ⟨hc, hcs⟩ := List.cons.inj h
        obtain ⟨hfilter, hconn⟩ := @ih [] n hcs hks
        have hrest : c.rest = c := by rw [CaseWhenCond.rest, ← show c.connection = none from hc]
        rw [connect_nil] at hconn ⊢
        refine ⟨?_, by rw [List.map_cons, hrest, hconn]⟩
        rw [List.filterMap_cons, show c.connection = none from hc]
        exact hfilter
    | cons k ks =>
      obtain ⟨hk, hks⟩ := not_or.1 (mt List.mem_cons.2 hks)
      obtain ⟨hc, hcs⟩ := List.cons.inj h
      obtain ⟨hfilter, hconn⟩ := ih hcs hks
      refine ⟨?_, ?_⟩
      · rw [List.filterMap_cons, show c.connection = some k from hc, hfilter]
        simp [Option.filter, Ne.symm hk]
      · rw [List.map_cons, connect, hconn, CaseWhenCond.rest, ← show c.connection = some k from hc]

theorem convert_revertWhen {w : CaseWhenBranch ν} (h : StoredBranch w) : convertWhen (revertWhen w) = w := by
  obtain ⟨conds, then', connections⟩ := w
  obtain ⟨c, cs, ks, rfl, hcs, rfl, hlen, hks⟩ := h
  obtain ⟨hmap, hfilter⟩ := connect_stored hcs hlen hks
  have hback : (cs.map some).map (·.getD {}) = cs := by simp
  have hconds : (connect ks cs).map (fun c => some c.rest) = cs.map some := by
    rw [← congrArg (List.map some) hmap, List.map_map]
    rfl
  simp only [convertWhen, revertWhen, Option.getD_some, List.map_cons, List.head?_cons, List.tail_cons, hback, hfilter, hconds]

theorem revert_convertWhen {w : CaseWhenFormWhen ν} (h : HeldWhen w) : revertWhen (convertWhen w) = w := by
  obtain ⟨when, conds, then'⟩ := w
  obtain ⟨c, cs, n, ks, rfl, rfl, hks, hne⟩ := h
  obtain ⟨hfilter, hconn⟩ := connect_held hks hne
  have hback : (cs.map fun c => some c.rest).map (·.getD {}) = cs.map (·.rest) := by simp
  simp only [convertWhen, revertWhen, Option.getD_some, List.map_cons, List.head?_cons, List.tail_cons, hback, hfilter, hconn]

def StoredNames : ColNames → Prop
  | .text s => s = []
  | .list l => l ≠ [] ∧ ∀ x ∈ l, x ≠ [] ∧ 44 ∉ x

/-- No name is empty, unless there is no text at all. -/
def HeldNames (s : Bytes) : Prop := s = [] ∨ [] ∉ s.splitOn 44

theorem split_join {n : ColNames} (h : StoredNames n) : splitNames n.join = n := by
  cases n with
  | text s =>
    obtain rfl := h
    rfl
  | list l =>
    obtain ⟨hne, hl⟩ := h
    have hjoin : List.intercalate [44] l ≠ [] := by
      obtain ⟨x, l, rfl⟩ := List.exists_cons_of_ne_nil hne
      obtain ⟨b, x, rfl⟩ := List.exists_cons_of_ne_nil (hl x List.mem_cons_self).1
      cases l <;> simp
    rw [ColNames.join, splitNames, if_neg hjoin, List.splitOn_intercalate 44 (fun x hx => (hl x hx).2) hne,
      List.filter_eq_self.2 fun x hx => decide_eq_true (hl x hx).1]

theorem join_split {s : Bytes} (h : HeldNames s) : (splitNames s).join = s := by
  unfold splitNames
  split_ifs with hs
  · rfl
  · have hall : (s.splitOn 44).filter (· ≠ []) = s.splitOn 44 :=
      List.filter_eq_self.2 fun x hx => decide_eq_true fun he => h.resolve_left hs (he ▸ hx)
    rw [hall]
    exact List.intercalate_splitOn 44
end

section
variable {ν : Type} [JsNumber ν] {v l r : StringOrNumber ν} {s : Bytes}

/-- A number that is written and read back, or an infinity. -/
def BoundOk : StringOrNumber ν → Prop
  | .string s => s = str "Infinity" ∨ s = str "-Infinity"
  | .number n => Sent n

structure Bounds (l r : StringOrNumber ν) : Prop where
  left : BoundOk l
  right : BoundOk r
  apart : ¬(l.isZero ∧ r.isZero)

/-- What bounds are written with. -/
def Plain (b : UInt8) : Prop := isNumeral b = true ∨ b ∈ str "-Infinity"

instance : DecidablePred Plain := fun _ => inferInstanceAs (Decidable (_ ∨ _))

theorem plain_cases {b : UInt8} (h : Plain b) : b.toNat < 128 ∧ isSpace (b.toNat, [b]) = false ∧ b ∉ [32, 40, 41, 44, 93] := by
  have hall : ∀ n < 256, Plain (UInt8.ofNat n) → n < 128 ∧ isSpace (n, [UInt8.ofNat n]) = false ∧ UInt8.ofNat n ∉ [32, 40, 41, 44, 93] := by
    decide +kernel
  have hb := hall b.toNat b.toNat_lt
  rw [UInt8.ofNat_toNat] at hb
  exact hb h

theorem text_plain (h : BoundOk v) : (∀ b ∈ v.text, Plain b) ∧ boundOf v.text = v := by
  cases v with
  | string s =>
    have hword : ∀ s ∈ [str "Infinity", str "-Infinity"], (∀ b ∈ s, Plain b) ∧ isInfinity s = true := by decide
    obtain ⟨hs, hinf⟩ := hword s (by rcases h with rfl | rfl <;> simp)
    exact ⟨hs, if_pos hinf⟩
  | number n =>
    have hnot : ¬isInfinity (JsNumber.text n) := by
      intro hin
      have hi : isNumeral 73 = true := h.numeral 73 ((of_decide_eq_true hin).subset (by decide))
      exact absurd hi (by decide)
    refine ⟨fun b hb => .inl (h.numeral b hb), ?_⟩
    show boundOf (JsNumber.text n) = _
    rw [boundOf, if_neg hnot, h.back]

theorem trim_plain (h : ∀ b ∈ s, Plain b) : trim s = s ∧ trim (32 :: s) = s := by
  have hruns : ∀ r ∈ Utf8.runes s, isSpace r = false := by
    intro r hr
    induction s with
    | nil => cases hr
    | cons b s ih =>
      obtain ⟨hb, hs⟩ := List.forall_mem_cons.1 h
      obtain ⟨hlt, hspace, -⟩ := plain_cases hb
      rw [Utf8.runes_ascii_cons s hlt] at hr
      rcases List.mem_cons.1 hr with rfl | hr
      · exact hspace
      · exact ih hs hr
  have hdrop : ∀ l : List (Nat × Bytes), (∀ r ∈ l, isSpace r = false) → l.dropWhile isSpace = l := by
    intro l hl
    cases l with
    | nil => rfl
    | cons r l => exact List.dropWhile_cons_of_neg (by rw [hl r List.mem_cons_self]; nofun)
  have htrim : trim s = s := by
    rw [trim, hdrop _ hruns, hdrop _ fun r hr => hruns r (List.mem_reverse.1 hr), List.reverse_reverse, Utf8.runes_flatten]
  refine ⟨htrim, ?_⟩
  rw [trim, Utf8.runes_ascii_cons s (by decide), List.dropWhile_cons_of_pos (by decide)]
  exact htrim

theorem label_ne (h : ¬(l.isZero ∧ r.isZero)) : getBinLabel l r ≠ str "ELSE" := by
  rw [getBinLabel, if_neg h]
  exact fun he => absurd (List.cons.inj he).1 (by decide)

/-- The label of a bin that is not the else bin is read as its bounds. -/
theorem getBinBoundValue_label (h : Bounds l r) : getBinBoundValue (getBinLabel l r) = some (l, r) := by
  obtain ⟨hl, hlb⟩ := text_plain h.left
  obtain ⟨hr, hrb⟩ := text_plain h.right
  have hout : ∀ {s : Bytes}, (∀ b ∈ s, Plain b) → ∀ c ∈ [32, 40, 41, 44, 93], c ∉ s := fun hs c hc hmem => (plain_cases (hs c hmem)).2.2 hc
  obtain ⟨x, hx, hlabel⟩ : ∃ x, (x = 41 ∨ x = 93) ∧ getBinLabel l r = List.intercalate [44] [40 :: l.text, 32 :: r.text ++ [x]] := by
    rw [getBinLabel, if_neg h.apart]
    refine ⟨rightBoundBracket r, ?_, by simp⟩
    cases r with
    | number n => exact .inr rfl
    | string s =>
      by_cases hs : isInfinity s = true
      · exact .inl (if_pos hs)
      · exact .inr (if_neg hs)
  have hsplit : (List.intercalate [44] [40 :: l.text, 32 :: r.text ++ [x]]).splitOn 44 = [40 :: l.text, 32 :: r.text ++ [x]] := by
    refine List.splitOn_intercalate 44 (fun s hs => ?_) (List.cons_ne_nil _ _)
    simp only [List.mem_cons, List.not_mem_nil, or_false] at hs
    rcases hs with rfl | rfl
    · simpa using hout hl 44 (by simp)
    · rcases hx with rfl | rfl <;> simpa using hout hr 44 (by simp)
  have hright : ((32 :: r.text ++ [x]).erase 93).erase 41 = 32 :: r.text := by
    have h93 : (93 : UInt8) ∉ 32 :: r.text := by simpa using hout hr 93 (by simp)
    have h41 : (41 : UInt8) ∉ 32 :: r.text := by simpa using hout hr 41 (by simp)
    rcases hx with rfl | rfl
    · have hnot : (93 : UInt8) ∉ 32 :: r.text ++ [41] := by simpa using h93
      rw [List.erase_of_not_mem hnot, List.erase_append_right _ h41, List.erase_cons_head, List.append_nil]
    · rw [List.erase_append_right _ h93, List.erase_cons_head, List.append_nil, List.erase_of_not_mem h41]
  have hne : getBinLabel l r ≠ str "ELSE" := label_ne h.apart
  rw [getBinBoundValue, if_neg hne, hlabel, hsplit]
  dsimp only
  rw [List.erase_cons_head, hright, (trim_plain hl).1, (trim_plain hr).2, hlb, hrb]

structure StoredBin (b : RawBin ν) : Prop where
  bounds : Bounds b.leftBound b.rightBound
  mark : b.markForMerge.isSome = true
  filling : ∀ n ∈ b.fillingValue, Sent n
  count : ∃ n, b.totalCount = some n ∧ Sent n

/-- The else bin as the serializer writes it. -/
structure StoredElse (b : RawBin ν) : Prop where
  left : b.leftBound = .number (JsNumber.ofNat 0)
  right : b.rightBound = .number (JsNumber.ofNat 0)
  mark : b.markForMerge = some false
  filling : ∀ n ∈ b.fillingValue, Sent n
  count : ∃ n, b.totalCount = some n ∧ Sent n

structure StoredRecord (r : RawRecord ν) : Prop where
  valid : ∀ b ∈ r.validBins, StoredBin b
  last : ∃ b, r.elseBin = some b ∧ StoredElse b
  type : r.featureType ≠ str "float"
  iv : r.isWoe = false → r.iv = none
  texts : ∀ s ∈ [r.featureName, r.featureType, r.partyName], Utf8.validString s = true
  numbers : Sent r.validBinCount ∧ ∀ n ∈ r.iv, Sent n

/-- A row has the one of `woe` and `order` that it is shown with. -/
structure HeldBin (isWoe : Bool) (b : BinFormItem ν) : Prop where
  other : if isWoe then b.order = none else b.woe = none
  filling : ∀ n ∈ if isWoe then b.woe else b.order, Sent n
  count : Sent b.totalCount

/-- The else bin comes last. -/
structure HeldRecord (r : BinningFormRecord ν) : Prop where
  bins : ∃ valid last, r.bins = valid ++ [last] ∧ (∀ b ∈ valid, ∃ x y : StringOrNumber ν, Bounds x y ∧ b.label = getBinLabel x y) ∧
    last.label = str "ELSE" ∧ last.markForMerge = false
  rows : ∀ b ∈ r.bins, HeldBin r.isWoe b
  type : r.type ≠ str "numeric"
  iv : r.isWoe = false → r.iv = none
  texts : ∀ s ∈ [r.feature, r.type, r.partyName], Utf8.validString s = true
  numbers : Sent r.binCount ∧ ∀ n ∈ r.iv, Sent n

def BinFormItem.renew (feature : Bytes) (i : Nat) (b : BinFormItem ν) : BinFormItem ν := { b with key := binKey feature i b.label }

/-- The record with the keys that it is read with. -/
def BinningFormRecord.renew (r : BinningFormRecord ν) : BinningFormRecord ν :=
  { r with key := r.feature, bins := r.bins.mapIdx (BinFormItem.renew r.feature) }

section
variable {α β γ : Type} {P : α → β → Prop} {as : List α} {bs : List β}

theorem mapM_mapIdx {f : Nat → β → γ} {g : γ → Option β} (h : ∀ b ∈ bs, ∀ i, g (f i b) = some b) : (bs.mapIdx f).mapM g = some bs := by
  induction bs generalizing f with
  | nil => rfl
  | cons b bs ih =>
    rw [List.mapIdx_cons, List.mapM_cons, h b List.mem_cons_self, ih fun x hx i => h x (List.mem_cons_of_mem _ hx) (i + 1)]
    rfl

theorem exists_mapM {g : α → Option β} (h : ∀ a ∈ as, ∃ b, g a = some b ∧ P a b) : ∃ bs, as.mapM g = some bs ∧ List.Forall₂ P as bs := by
  induction as with
  | nil => exact ⟨[], rfl, .nil⟩
  | cons a as ih =>
    obtain ⟨b, hb, hp⟩ := h a List.mem_cons_self
    obtain ⟨bs, hbs, hall⟩ := ih fun x hx => h x (List.mem_cons_of_mem _ hx)
    refine ⟨b :: bs, ?_, .cons hp hall⟩
    rw [List.mapM_cons, hb, hbs]
    rfl

theorem mapIdx_of_forall₂ {f : Nat → α → γ} {g : Nat → β → γ} (h : List.Forall₂ (fun a b => ∀ i, f i a = g i b) as bs) :
    as.mapIdx f = bs.mapIdx g := by
  induction as generalizing bs f g with
  | nil =>
    cases h
    rfl
  | cons a as ih =>
    obtain ⟨b, bs, hb, hbs, rfl⟩ := List.forall₂_cons_left_iff.1 h
    rw [List.mapIdx_cons, List.mapIdx_cons, hb 0, ih (hbs.imp fun _ _ hi i => hi (i + 1))]

theorem split_bins {l : List (BinFormItem α)} {last : BinFormItem α} (hv : ∀ b ∈ l, b.label ≠ str "ELSE") (hl : last.label = str "ELSE") :
    (l ++ [last]).find? (·.label = str "ELSE") = some last ∧ (l ++ [last]).filter (·.label ≠ str "ELSE") = l := by
  constructor
  · rw [List.find?_append, List.find?_eq_none.2 fun b hb => by simpa using hv b hb, Option.none_or]
    exact List.find?_cons_of_pos (decide_eq_true hl)
  · rw [List.filter_append, List.filter_eq_self.2 fun b hb => decide_eq_true (hv b hb), List.filter_cons_of_neg (by simpa using hl)]
    exact List.append_nil _
end

theorem label_zero (hzero : JsNumber.isZero (JsNumber.ofNat 0 : ν) = true) :
    getBinLabel (.number (JsNumber.ofNat 0 : ν)) (.number (JsNumber.ofNat 0)) = str "ELSE" := if_pos ⟨hzero, hzero⟩

theorem convert_revertBin {b : RawBin ν} (h : StoredBin b) (isWoe : Bool) (feature : Bytes) (i : Nat) :
    convertBin isWoe (revertBin isWoe feature i b) = some b := by
  obtain ⟨m, hm⟩ := Option.isSome_iff_exists.1 h.mark
  obtain ⟨n, hn, -⟩ := h.count
  rw [convertBin, revertBin]
  dsimp only
  rw [getBinBoundValue_label h.bounds, hm, hn]
  obtain ⟨mark, l, r, filling, count⟩ := b
  obtain rfl := hm
  obtain rfl := hn
  cases isWoe <;> rfl

/-- A type under its other name is read under its own. -/
theorem renamed_back {s a b : Bytes} (h : s ≠ b) : (if (if s = a then b else s) = b then a else if s = a then b else s) = s := by
  by_cases ha : s = a
  · rw [if_pos ha, if_pos rfl, ha]
  · rw [if_neg ha, if_neg h]

theorem convert_revertRecord (hzero : JsNumber.isZero (JsNumber.ofNat 0 : ν) = true) {r : RawRecord ν} (h : StoredRecord r) :
    convertRecord (revertRecord r) = some r := by
  obtain ⟨e, he, helse⟩ := h.last
  obtain ⟨n, hn, -⟩ := helse.count
  have hbins : (revertRecord r).bins =
      r.validBins.mapIdx (revertBin r.isWoe r.featureName) ++ [revertBin r.isWoe r.featureName r.validBins.length e] := by
    show (r.validBins ++ r.elseBin.toList).mapIdx _ = _
    rw [he, Option.toList_some, List.mapIdx_concat]
  have hvalid : ∀ b ∈ r.validBins.mapIdx (revertBin r.isWoe r.featureName), b.label ≠ str "ELSE" := by
    intro b hb
    obtain ⟨i, hi, rfl⟩ := List.mem_mapIdx.1 hb
    exact label_ne (h.valid _ (List.getElem_mem hi)).bounds.apart
  have hlast : (revertBin r.isWoe r.featureName r.validBins.length e).label = str "ELSE" := by
    show getBinLabel e.leftBound e.rightBound = _
    rw [helse.left, helse.right]
    exact label_zero hzero
  obtain ⟨hfind, hfilter⟩ := split_bins hvalid hlast
  have hmapM : (r.validBins.mapIdx (revertBin r.isWoe r.featureName)).mapM (convertBin r.isWoe) = some r.validBins :=
    mapM_mapIdx fun b hb i => convert_revertBin (h.valid b hb) r.isWoe r.featureName i
  have htype : (if (revertRecord r).type = str "float" then str "numeric" else (revertRecord r).type) = r.featureType := renamed_back h.type
  unfold convertRecord
  rw [hbins, hfind, hfilter, htype]
  show Option.map _ (List.mapM (convertBin r.isWoe) _) = _
  rw [hmapM, Option.map_some]
  have hiv := h.iv
  obtain ⟨feature, count, iv, type, valid, isWoe, els, party⟩ := r
  obtain rfl := he
  obtain ⟨mark, l, r', filling, total⟩ := e
  obtain ⟨rfl, rfl, rfl, -, -⟩ := helse
  obtain rfl := hn
  cases isWoe
  · obtain rfl := hiv rfl
    rfl
  · rfl

/-- A held row is renewed in its key only: the other one of `woe` and `order` is missing. -/
theorem HeldBin.renew_eq {isWoe : Bool} {b : BinFormItem ν} (h : HeldBin isWoe b) (feature : Bytes) (i : Nat) :
    b.renew feature i = { b with
      key := binKey feature i b.label
      woe := if isWoe then (if isWoe then b.woe else b.order) else none
      order := if isWoe then none else (if isWoe then b.woe else b.order) } := by
  have hother := h.other
  obtain ⟨key, label, mark, count, woe, order⟩ := b
  cases isWoe
  · obtain rfl : woe = none := hother
    rfl
  · obtain rfl : order = none := hother
    rfl

theorem revert_convertBin {isWoe : Bool} {b : BinFormItem ν} (h : HeldBin isWoe b) {x y : StringOrNumber ν} (hxy : Bounds x y)
    (hlabel : b.label = getBinLabel x y) (feature : Bytes) :
    ∃ raw, convertBin isWoe b = some raw ∧ StoredBin raw ∧ ∀ i, b.renew feature i = revertBin isWoe feature i raw := by
  refine ⟨_, by rw [convertBin, hlabel, getBinBoundValue_label hxy]; rfl, ⟨hxy, rfl, h.filling, _, rfl, h.count⟩, fun i => ?_⟩
  rw [h.renew_eq feature i, hlabel]
  rfl

/-- A record that is held is stored, and read with the keys of its rows put in anew. -/
theorem revert_convertRecord (hzero : JsNumber.isZero (JsNumber.ofNat 0 : ν) = true) {r : BinningFormRecord ν} (h : HeldRecord r) :
    ∃ raw, convertRecord r = some raw ∧ StoredRecord raw ∧ revertRecord raw = r.renew := by
  obtain ⟨valid, last, hbins, hlabels, hlast, hmark⟩ := h.bins
  have hvalid : ∀ b ∈ valid, b.label ≠ str "ELSE" := by
    intro b hb
    obtain ⟨x, y, hxy, hl⟩ := hlabels b hb
    rw [hl]
    exact label_ne hxy.apart
  obtain ⟨hfind, hfilter⟩ := split_bins hvalid hlast
  have hrows := h.rows
  rw [hbins] at hrows
  have hrow : ∀ b ∈ valid, ∃ raw, convertBin r.isWoe b = some raw ∧ StoredBin raw ∧
      ∀ i, b.renew r.feature i = revertBin r.isWoe r.feature i raw := by
    intro b hb
    obtain ⟨x, y, hxy, hl⟩ := hlabels b hb
    exact revert_convertBin (hrows b (List.mem_append_left _ hb)) hxy hl r.feature
  obtain ⟨raws, hmapM, hall⟩ := exists_mapM hrow
  have hlastRow := hrows last (List.mem_append_right _ (List.mem_singleton_self _))
  have hconvert : convertRecord r = some (RawRecord.mk r.feature r.binCount (if r.isWoe then r.iv else none)
      (if r.type = str "float" then str "numeric" else r.type) raws r.isWoe
      (some ⟨some false, .number (JsNumber.ofNat 0), .number (JsNumber.ofNat 0), if r.isWoe then last.woe else last.order, some last.totalCount⟩)
      r.partyName) := by
    unfold convertRecord
    rw [hbins, hfind, hfilter]
    show Option.map _ (List.mapM (convertBin r.isWoe) _) = _
    rw [hmapM]
    rfl
  have htexts := h.texts
  simp only [List.forall_mem_cons] at htexts
  obtain ⟨hfeature, htype, hparty, -⟩ := htexts
  refine ⟨_, hconvert, ⟨fun b hb => ?_, ⟨_, rfl, rfl, rfl, rfl, hlastRow.filling, _, rfl, hlastRow.count⟩, ?_, fun hw => ?_, ?_, h.numbers.1, ?_⟩, ?_⟩
  · obtain ⟨_, _, hstored, -⟩ := hall.exists_left b hb
    exact hstored
  · show (if r.type = str "float" then str "numeric" else r.type) ≠ str "float"
    split_ifs with hf
    · decide
    · exact hf
  · exact if_neg (by rw [show r.isWoe = false from hw]; nofun)
  · simp only [List.forall_mem_cons]
    refine ⟨hfeature, ?_, hparty, nofun⟩
    split_ifs
    · decide
    · exact htype
  · intro n hn
    cases hw : r.isWoe with
    | false => rw [hw] at hn; cases hn
    | true => rw [hw] at hn; exact h.numbers.2 n hn
  · have hnew : raws.mapIdx (revertBin r.isWoe r.feature) = valid.mapIdx (BinFormItem.renew r.feature) :=
      (mapIdx_of_forall₂ (hall.imp fun _ _ hb => hb.2)).symm
    have hiv : (if r.isWoe then (if r.isWoe then r.iv else none) else none) = r.iv := by
      cases hw : r.isWoe with
      | false => exact (h.iv hw).symm
      | true => rfl
    rw [revertRecord, BinningFormRecord.renew]
    dsimp only
    rw [renamed_back h.type, hiv, hbins, Option.toList_some, List.mapIdx_concat, List.mapIdx_concat, hnew, hall.length_eq,
      hlastRow.renew_eq, revertBin]
    dsimp only
    rw [label_zero hzero, hlast, hmark]
    rfl

end

end Web.Serializers
