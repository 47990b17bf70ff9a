import Privahub.Graph.Service
import Privahub.Lib.Strings
import Privahub.Sync.TimeText

/-!
# The rule of a scheduled read

`ReadPartitionRuleAnalysis` (partition_rule_service.go) makes the partition condition of an ODPS table from a rule that a user writes. With
partition columns to compare with, a condition that is accepted is a chain of comparisons (`accepted_chain`): each has one operator, a
partition column before it, and after it a word of the permitted characters, with or without a quote on each side, or anything that contains
`max_pt`. Times are held as days, and the clock's day is what the caller's location has.
-/

namespace Graph.PartitionRule

open Calendar
open Cronutil (getnumMax)
open Sync (appendInt)
open Bytes (cut pieces replaceAll Matcher)

def partitionMaxPt : Bytes := str "maxpt"
def odpsPartitionMaxPt : Bytes := str "max_pt"
def partitionOperators : List Bytes := [str ">=", str "<=", str "!=", str "=", str ">", str "<"]
def DataSourceTypeODPS : Bytes := str "ODPS"

inductive RuleErr
  /-- `inputRule format error`: the rule has a parenthesis. -/
  | format
  /-- The start date is none. -/
  | startDate
  /-- The number of days is no 64-bit integer. -/
  | days
  /-- `Invalid partition condition col must partition columns`. -/
  | column
  /-- `Invalid partition condition value`. -/
  | value
  deriving DecidableEq

def odpsMaxPtReplacement (tableName inputRule : Bytes) : Bytes :=
  replaceAll inputRule partitionMaxPt (odpsPartitionMaxPt ++ str "('" ++ tableName ++ str "')")

/-- `time.Parse("20060102", v)`. -/
def parseDay (v : Bytes) : Option Int := do
  let y ← if (v.take 4).length = 4 ∧ (v.take 4).all Bytes.isDigit then some (Json.digitsVal (v.take 4)) else none
  let (m, v) ← getnumMax (v.drop 4) true 1 12
  let (d, v) ← getnumMax v true 0 99
  if v = [] ∧ 1 ≤ d ∧ d ≤ monthLen (12 * y + (m - 1)) then some (monthStart (12 * y + (m - 1)) + d - 1) else none

/-- `Format("20060102")`. -/
def dayText (n : Int) : Bytes := appendInt (monthOf n / 12) 4 ++ appendInt (monthOf n % 12 + 1) 2 ++ appendInt (dayOf n) 2

def datePrefix : Bytes := str "$\x7byyyymmdd"

/-- `partitionDateRe` at the front: what its group has matched, and how long the match is. -/
def dateMatch (s : Bytes) : Option (Bytes × Nat) :=
  if datePrefix <+: s then
    let t := s.drop datePrefix.length
    let sub := match t with
      | b :: u => if b = 43 ∨ b = 45 then b :: u.takeWhile Bytes.isDigit else []
      | [] => []
    if (t.drop sub.length).head? = some 125 then some (sub, datePrefix.length + sub.length + 1) else none
  else none

def dateDays : Bytes → Except RuleErr Int
  | [] => .ok 0
  | b :: ds =>
    if ds = [] then .ok 0
    else if Json.digitsVal ds < 2 ^ 63 then .ok (if b = 45 then -(Json.digitsVal ds : Int) else Json.digitsVal ds)
    else .error .days

def dateValue (base : Int) (s : Bytes) : Except RuleErr Bytes :=
  (dateDays (((dateMatch s).map Prod.fst).getD [])).map fun days => str "'" ++ dayText (base + days) ++ str "'"

def odpsDateReplacement (today : Int) (inputRule scheduleExpectStartDate : Bytes) : Except RuleErr Bytes := do
  let base ← if scheduleExpectStartDate = [] then .ok today
    else match parseDay scheduleExpectStartDate with
      | some n => .ok n
      | none => .error RuleErr.startDate
  let parts := cut (fun s => (dateMatch s).map Prod.snd) inputRule
  let rest ← parts.2.mapM fun t => (dateValue base t.1).map (· ++ t.2)
  return parts.1 ++ rest.flatten

def odpsReadPartitionRuleAnalysis (today : Int) (tableName inputRule scheduleExpectStartDate : Bytes) : Except RuleErr Bytes :=
  if 40 ∈ inputRule ∨ 41 ∈ inputRule then .error .format
  else odpsDateReplacement today (odpsMaxPtReplacement tableName inputRule) scheduleExpectStartDate

/-- `\s` of a regular expression. -/
def isBlank (b : UInt8) : Bool := b = 9 || b = 10 || b = 12 || b = 13 || b = 32

/-- The length of `AND` or `OR` at the front, in letters of either case. -/
def wordMatch (s : Bytes) : Option Nat :=
  let upper := s.map fun b => if 97 ≤ b ∧ b ≤ 122 then b - 32 else b
  if str "AND" <+: upper then some 3 else if str "OR" <+: upper then some 2 else none

/-- `partitionSplitRe` at the front. -/
def splitMatch (s : Bytes) : Option Nat :=
  let before := s.takeWhile isBlank
  if before = [] then none
  else (wordMatch (s.drop before.length)).bind fun n =>
    let after := (s.drop (before.length + n)).takeWhile isBlank
    if after = [] then none else some (before.length + n + after.length)

def operatorMatch (s : Bytes) : Option Nat := (partitionOperators.find? fun op => decide (op <+: s)).map List.length

/-- `splitCondition`. -/
def splitCondition (cond : Bytes) : Option (Bytes × Bytes) :=
  match pieces operatorMatch cond with
  | [col, val] => some (col, val)
  | _ => none

def isValueByte (b : UInt8) : Bool := (97 ≤ b && b ≤ 122) || (65 ≤ b && b ≤ 90) || Bytes.isDigit b || b = 95 || b = 40 || b = 41

/-- `partitionValueRe`. -/
def isValue (val : Bytes) : Bool := decide (val ≠ []) && val.all isValueByte

/-- `strings.TrimSuffix(strings.TrimPrefix(val, "'"), "'")`. -/
def trimQuotes (val : Bytes) : Bytes :=
  let val := if val.head? = some 39 then val.tail else val
  if val.getLast? = some 39 then val.dropLast else val

def checkCondition (partitionColumns : List Bytes) (condition : Bytes) : Except RuleErr Unit :=
  match splitCondition (Utf8.trimSpace condition) with
  | none => .error .column
  | some (col, val) =>
    if Utf8.trimSpace col ∉ partitionColumns then .error .column
    else if ¬ odpsPartitionMaxPt <:+: trimQuotes (Utf8.trimSpace val) ∧ isValue (trimQuotes (Utf8.trimSpace val)) = false then .error .value
    else .ok ()

def isValidPartitionCondition (partitionCondition : Bytes) (partitionColumns : List Bytes) : Except RuleErr Unit :=
  if partitionColumns = [] then .ok ()
  else (pieces splitMatch partitionCondition).forM (checkCondition partitionColumns)

def ReadPartitionRuleAnalysis (u : CaseTables) (today : Int) (tableName dsType inputRule scheduleExpectStartDate : Bytes)
    (partitionColumns : List Bytes) : Except RuleErr Bytes :=
  if tableName = [] ∨ inputRule = [] then .ok []
  else if EqualFold u dsType DataSourceTypeODPS = false then .ok []
  else do
    let result ← odpsReadPartitionRuleAnalysis today tableName inputRule scheduleExpectStartDate
    isValidPartitionCondition result partitionColumns
    return result

/-- `AND` or `OR` between blanks. -/
def IsSeparator (s : Bytes) : Prop :=
  ∃ before word after, s = before ++ word ++ after ∧ before ≠ [] ∧ (∀ b ∈ before, isBlank b = true) ∧ after ≠ [] ∧
    (∀ b ∈ after, isBlank b = true) ∧ wordMatch word = some word.length

/-- A word of the permitted characters, with or without a quote on each side, or anything that contains `max_pt`. -/
def Permitted (val : Bytes) : Prop :=
  odpsPartitionMaxPt <:+: val ∨
    ∃ l w r, val = l ++ w ++ r ∧ l ∈ [[], str "'"] ∧ r ∈ [[], str "'"] ∧ w ≠ [] ∧ ∀ b ∈ w, isValueByte b = true

def IsComparison (partitionColumns : List Bytes) (s : Bytes) : Prop :=
  ∃ col op val, Utf8.trimSpace s = col ++ op ++ val ∧ Utf8.trimSpace col ∈ partitionColumns ∧ op ∈ partitionOperators ∧
    (∀ b ∈ col ++ val, b ∉ str "<=>") ∧ Permitted (Utf8.trimSpace val)

def IsChain (partitionColumns : List Bytes) (s : Bytes) : Prop :=
  ∃ (first : Bytes) (rest : List (Bytes × Bytes)), s = first ++ rest.flatMap (fun t => t.1 ++ t.2) ∧ IsComparison partitionColumns first ∧
    ∀ t ∈ rest, IsSeparator t.1 ∧ IsComparison partitionColumns t.2

/-- Parentheses are only in what stands for `maxpt`. -/
structure FromRule (today : Int) (tableName inputRule scheduleExpectStartDate condition : Bytes) : Prop where
  noParens : 40 ∉ inputRule ∧ 41 ∉ inputRule
  replaced : odpsDateReplacement today (odpsMaxPtReplacement tableName inputRule) scheduleExpectStartDate = .ok condition

variable {cols : List Bytes} {s c col val : Bytes}

theorem operatorMatch_some {n : Nat} (h : operatorMatch s = some n) : ∃ op ∈ partitionOperators, op <+: s ∧ op.length = n := by
  obtain ⟨op, hop, hlen⟩ := Option.map_eq_some_iff.1 h
  have hpre := List.find?_some hop
  exact ⟨op, List.mem_of_find?_eq_some hop, of_decide_eq_true hpre, hlen⟩

theorem matcher_operator : Matcher operatorMatch := by
  intro s n h
  obtain ⟨op, hop, hpre, rfl⟩ := operatorMatch_some h
  have hpos : ∀ op ∈ partitionOperators, 0 < op.length := by decide
  exact ⟨hpos op hop, hpre.length_le⟩

theorem operator_of_match {op rest : Bytes} (h : operatorMatch (op ++ rest) = some op.length) : op ∈ partitionOperators := by
  obtain ⟨op', hop, hpre, hlen⟩ := operatorMatch_some h
  obtain rfl := (List.prefix_of_prefix_length_le hpre (List.prefix_append op rest) hlen.le).eq_of_length hlen
  exact hop

theorem no_operator {b : UInt8} {rest : Bytes} (h : operatorMatch (b :: rest) = none) : b ∉ str "<=>" := by
  intro hb
  have hnone := List.find?_eq_none.1 (Option.map_eq_none_iff.1 h) [b]
  have hop : ∀ b ∈ str "<=>", [b] ∈ partitionOperators := by decide
  exact hnone (hop b hb) (decide_eq_true ⟨rest, rfl⟩)

theorem wordMatch_some {n : Nat} (h : wordMatch s = some n) : n ≤ s.length ∧ wordMatch (s.take n) = some (s.take n).length := by
  unfold wordMatch at h ⊢
  dsimp only at h ⊢
  split_ifs at h with hand hor
  · obtain rfl := Option.some.inj h
    have hle : 3 ≤ s.length := by
      have := hand.length_le
      rwa [List.length_map] at this
    refine ⟨hle, ?_⟩
    rw [List.map_take, if_pos (List.prefix_take_iff.2 ⟨hand, by decide⟩), List.length_take_of_le hle]
  · obtain rfl := Option.some.inj h
    have hle : 2 ≤ s.length := by
      have := hor.length_le
      rwa [List.length_map] at this
    refine ⟨hle, ?_⟩
    rw [List.map_take, if_neg fun h => hand (h.trans (List.take_prefix _ _)), if_pos (List.prefix_take_iff.2 ⟨hor, by decide⟩),
      List.length_take_of_le hle]

theorem splitMatch_some {n : Nat} (h : splitMatch s = some n) : 0 < n ∧ n ≤ s.length ∧ IsSeparator (s.take n) := by
  unfold splitMatch at h
  dsimp only at h
  obtain ⟨r, hr⟩ := List.takeWhile_prefix isBlank (l := s)
  have hblank : ∀ b ∈ s.takeWhile isBlank, isBlank b = true := fun b hb => List.mem_takeWhile_imp hb
  generalize s.takeWhile isBlank = before at h hr hblank
  obtain rfl := hr
  split_ifs at h with hbefore
  rw [List.drop_left] at h
  obtain ⟨k, hk, h⟩ := Option.bind_eq_some_iff.1 h
  obtain ⟨hle, hword⟩ := wordMatch_some hk
  rw [List.drop_append, List.drop_eq_nil_of_le (Nat.le_add_right _ _), List.nil_append, Nat.add_sub_cancel_left] at h
  obtain ⟨rest, hrest⟩ := List.takeWhile_prefix isBlank (l := r.drop k)
  have hafter : ∀ b ∈ (r.drop k).takeWhile isBlank, isBlank b = true := fun b hb => List.mem_takeWhile_imp hb
  generalize (r.drop k).takeWhile isBlank = after at h hrest hafter
  split_ifs at h with hne
  obtain rfl := Option.some.inj h
  have hsplit : before ++ r = before ++ r.take k ++ after ++ rest := by
    rw [List.append_assoc, List.append_assoc, hrest, List.take_append_drop]
  have hlen : (before ++ r.take k ++ after).length = before.length + k + after.length := by
    rw [List.length_append, List.length_append, List.length_take_of_le hle]
  refine ⟨?_, ?_, before, r.take k, after, ?_, hbefore, hblank, hne, hafter, hword⟩
  · have := List.length_pos_iff.2 hbefore
    omega
  · rw [← hlen, hsplit]
    exact (List.prefix_append _ _).length_le
  · rw [hsplit, ← hlen, List.take_left]

theorem matcher_split : Matcher splitMatch := fun _ _ h => ⟨(splitMatch_some h).1, (splitMatch_some h).2.1⟩

theorem permitted_of_trimQuotes (h : odpsPartitionMaxPt <:+: trimQuotes val ∨ isValue (trimQuotes val) = true) : Permitted val := by
  obtain ⟨l, r, hl, hr, hval⟩ : ∃ l r, l ∈ [[], str "'"] ∧ r ∈ [[], str "'"] ∧ val = l ++ trimQuotes val ++ r := by
    have hhead : ∃ l, l ∈ [[], str "'"] ∧ val = l ++ if val.head? = some 39 then val.tail else val := by
      split_ifs with hq
      · exact ⟨str "'", by decide, (List.cons_head?_tail hq).symm⟩
      · exact ⟨[], by decide, rfl⟩
    obtain ⟨l, hl, hval⟩ := hhead
    unfold trimQuotes
    dsimp only
    generalize (if val.head? = some 39 then val.tail else val) = v at hval ⊢
    split_ifs with hq
    · exact ⟨l, str "'", hl, by decide, by rw [List.append_assoc, hval]; exact congrArg (l ++ ·) (List.dropLast_append_getLast? 39 hq).symm⟩
    · exact ⟨l, [], hl, by decide, by rw [List.append_nil]; exact hval⟩
  obtain h | h := h
  · exact .inl (h.trans ⟨l, r, hval.symm⟩)
  · obtain ⟨hne, hall⟩ := Bool.and_eq_true_iff.1 h
    exact .inr ⟨l, trimQuotes val, r, hval, hl, hr, of_decide_eq_true hne, List.all_eq_true.1 hall⟩

theorem splitCondition_some (h : splitCondition s = some (col, val)) :
    ∃ op ∈ partitionOperators, s = col ++ op ++ val ∧ ∀ b ∈ col ++ val, b ∉ str "<=>" := by
  have hjoin := Bytes.cut_join matcher_operator s
  have hmatch := Bytes.cut_match matcher_operator s
  have hpiece := Bytes.cut_piece matcher_operator s
  unfold splitCondition at h
  unfold pieces at h hpiece
  generalize cut operatorMatch s = parts at h hjoin hmatch hpiece
  obtain ⟨col', _ | ⟨⟨op, val'⟩, _ | ⟨t, ts⟩⟩⟩ := parts
  · cases h
  · obtain ⟨rfl, rfl⟩ := Prod.mk.inj (Option.some.inj h)
    refine ⟨op, ?_, ?_, fun b hb => ?_⟩
    · obtain ⟨rest, hrest⟩ := hmatch (op, val') List.mem_cons_self
      exact operator_of_match hrest
    · rw [← hjoin, List.append_assoc]
      exact congrArg (col' ++ ·) (List.append_nil _)
    · obtain ⟨p, hp, hbp⟩ : ∃ p ∈ [col', val'], b ∈ p := by simpa using hb
      obtain ⟨rest, hrest⟩ := hpiece p hp b hbp
      exact no_operator hrest
  · cases h

theorem isComparison_of_check (h : checkCondition cols c = .ok ()) : IsComparison cols c := by
  unfold checkCondition at h
  cases hsplit : splitCondition (Utf8.trimSpace c) with
  | none =>
    rw [hsplit] at h
    cases h
  | some sides =>
    rw [hsplit] at h
    dsimp only at h
    split_ifs at h with hcol hval
    obtain ⟨op, hop, heq, hno⟩ := splitCondition_some hsplit
    refine ⟨sides.1, op, sides.2, heq, hcol, hop, hno, permitted_of_trimQuotes ?_⟩
    by_contra hnot
    rw [not_or, Bool.not_eq_true] at hnot
    exact hval hnot

theorem isChain_of_valid (hcols : cols ≠ []) (h : isValidPartitionCondition c cols = .ok ()) : IsChain cols c := by
  rw [isValidPartitionCondition, if_neg hcols] at h
  have hall : ∀ p ∈ pieces splitMatch c, IsComparison cols p := fun p hp => isComparison_of_check (Except.ok_of_forM h p hp)
  refine ⟨(cut splitMatch c).1, (cut splitMatch c).2, (Bytes.cut_join matcher_split c).symm, hall _ List.mem_cons_self, fun t ht => ⟨?_, ?_⟩⟩
  · obtain ⟨rest, hrest⟩ := Bytes.cut_match matcher_split c t ht
    have hsep := (splitMatch_some hrest).2.2
    rwa [List.take_left] at hsep
  · exact hall _ (List.mem_cons_of_mem _ (List.mem_map_of_mem ht))

/-- With partition columns, what is accepted is nothing, where there is no table, no rule or no ODPS source, or a chain of comparisons made
from a rule without parentheses. -/
theorem accepted_chain {u : CaseTables} {today : Int} {tableName dsType inputRule scheduleExpectStartDate condition : Bytes} (hcols : cols ≠ [])
    (h : ReadPartitionRuleAnalysis u today tableName dsType inputRule scheduleExpectStartDate cols = .ok condition) :
    (tableName = [] ∨ inputRule = [] ∨ EqualFold u dsType DataSourceTypeODPS = false) ∧ condition = [] ∨
      FromRule today tableName inputRule scheduleExpectStartDate condition ∧ IsChain cols condition := by
  unfold ReadPartitionRuleAnalysis at h
  split_ifs at h with hempty hodps
  · exact .inl ⟨by tauto, (Except.ok.inj h).symm⟩
  · exact .inl ⟨.inr (.inr hodps), (Except.ok.inj h).symm⟩
  · obtain ⟨result, hresult, h⟩ := Except.ok_of_bind h
    obtain ⟨_, hvalid, h⟩ := Except.ok_of_bind h
    obtain rfl := Except.ok.inj h
    unfold odpsReadPartitionRuleAnalysis at hresult
    split_ifs at hresult with hparens
    exact .inr ⟨⟨not_or.1 hparens, hresult⟩, isChain_of_valid hcols hvalid⟩

def IsLiteral (tableName val : Bytes) : Prop :=
  val = odpsPartitionMaxPt ++ str "('" ++ tableName ++ str "')" ∨ ∃ w, val = str "'" ++ w ++ str "'" ∧ w ≠ [] ∧ ∀ b ∈ w, isValueByte b = true

theorem getLast_of_isLiteral {tableName : Bytes} (h : IsLiteral tableName val) : val.getLast? = some 41 ∨ val.getLast? = some 39 := by
  obtain rfl | ⟨w, rfl, -⟩ := h
  · exact .inl (by rw [List.getLast?_append]; rfl)
  · exact .inr (by rw [List.getLast?_append]; rfl)

def analysis (inputRule : String) : Except RuleErr Bytes :=
  ReadPartitionRuleAnalysis .asciiCase 0 (str "tbl") DataSourceTypeODPS (str inputRule) (str "20240301") [str "dt"]

theorem analysis_ok {inputRule condition : String} (h : (analysis inputRule).toOption = some (str condition)) :
    analysis inputRule = .ok (str condition) := by
  cases hres : analysis inputRule with
  | error e =>
    rw [hres] at h
    cases h
  | ok c =>
    rw [hres] at h
    exact congrArg Except.ok (Option.some.inj h)

theorem no_literal {text : Bytes} (hlast : text.getLast? = some 120) :
    ¬∃ col op val, text = col ++ op ++ val ∧ op ∈ partitionOperators ∧ IsLiteral (str "tbl") val := by
  rintro ⟨col, op, val, heq, -, hval⟩
  rw [heq, List.getLast?_append] at hlast
  obtain h | h := getLast_of_isLiteral hval
  · rw [h] at hlast
    cases hlast
  · rw [h] at hlast
    cases hlast

/-- Text goes on behind a call of `max_pt`, a quote stays open, and a word stands without quotes. -/
theorem analysis_other :
    (analysis "dt=maxpt; DROP TABLE x" = .ok (str "dt=max_pt('tbl'); DROP TABLE x") ∧ ¬∃ col op val,
      str "dt=max_pt('tbl'); DROP TABLE x" = col ++ op ++ val ∧ op ∈ partitionOperators ∧ IsLiteral (str "tbl") val) ∧
    (analysis "dt='x" = .ok (str "dt='x") ∧ ¬∃ col op val, str "dt='x" = col ++ op ++ val ∧ op ∈ partitionOperators ∧ IsLiteral (str "tbl") val) ∧
    analysis "dt=x" = .ok (str "dt=x") ∧ ¬∃ col op val, str "dt=x" = col ++ op ++ val ∧ op ∈ partitionOperators ∧ IsLiteral (str "tbl") val :=
  ⟨⟨analysis_ok (by decide +kernel), no_literal (by decide +kernel)⟩, ⟨analysis_ok (by decide +kernel), no_literal (by decide +kernel)⟩,
    analysis_ok (by decide +kernel), no_literal (by decide +kernel)⟩

theorem accepted_chain_dates :
    FromRule 0 (str "tbl") (str "dt=$\x7byyyymmdd-1\x7d or dt>=maxpt") (str "20240301") (str "dt='20240229' or dt>=max_pt('tbl')") ∧
      IsChain [str "dt"] (str "dt='20240229' or dt>=max_pt('tbl')") := by
  have hok : analysis "dt=$\x7byyyymmdd-1\x7d or dt>=maxpt" = .ok (str "dt='20240229' or dt>=max_pt('tbl')") := analysis_ok (by decide +kernel)
  exact (accepted_chain (by decide) hok).resolve_left fun h => absurd h.2 (by decide)

end Graph.PartitionRule
