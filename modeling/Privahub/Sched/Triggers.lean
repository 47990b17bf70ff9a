import Privahub.Lib.Outcome
import Privahub.Sched.Cronutil
import Mathlib.Data.List.Perm.Subperm

/-!
# What an expression expands to

`Expr.On` says on which days an expression fires. When none of its days is further than three months from the next, `Next` finds the first trigger
after a time (`next_spec`), and `TriggerTimes` lists each trigger in the range once, or fails because there are too many (`triggersFrom_spec`).
-/

namespace Cronutil

open Calendar

/-- The time `secs` seconds into day `n`. -/
def momentOf (zone n secs : Int) : Int := (n * 86400 + secs - zone) * 1000000000

def Expr.secs (e : Expr) : Int := e.hour * 3600 + e.minute * 60 + e.second

def Expr.domOn (e : Expr) (n : Int) : Bool := e.anyDOM || e.doms.contains (dayOf n) || e.lastDOM && dayOf (n + 1) == 1

def Expr.dowOn (e : Expr) (n : Int) : Bool := e.anyDOW || e.dows.contains (weekday n)

def Expr.On (e : Expr) (n : Int) : Bool :=
  if e.noDOW then e.domOn n else if e.noDOM then e.dowOn n else e.domOn n && e.dowOn n

structure Expr.Recurring (e : Expr) : Prop where
  secs : 0 ≤ e.secs ∧ e.secs < 86400
  back : ∀ n, ∃ k, n < k ∧ k ≤ n + 93 ∧ e.On k = true

variable {zone n k s : Int} {e : Expr} {t cur start stop now : Int} {out times : List Int}

theorem localDay_momentOf (h0 : 0 ≤ s) (h1 : s < 86400) : localDay zone (momentOf zone n s) = n := by
  unfold localDay momentOf
  omega

theorem lt_of_momentOf_lt (h : momentOf zone n s < momentOf zone k s) : n < k := by
  unfold momentOf at h
  omega

theorem localDay_le (h0 : 0 ≤ s) (h1 : s < 86400) (h : t ≤ momentOf zone n s) : localDay zone t ≤ n := by
  unfold momentOf at h
  unfold localDay
  omega

theorem date_eq (zone : Int) (t : Int) (i h m s ns : Int) :
    date zone (year zone t) (month zone t) (day zone t + i) h m s ns = momentOf zone (localDay zone t + i) (h * 3600 + m * 60 + s) + ns := by
  have hday := monthStart_dayOf (localDay zone t)
  unfold date year month day momentOf
  rw [show 12 * (monthOf (localDay zone t) / 12) + (monthOf (localDay zone t) % 12 + 1 - 1) = monthOf (localDay zone t) by omega]
  omega

theorem day_nextDate (zone : Int) (t : Int) : day zone (nextDate zone t) = dayOf (localDay zone t + 1) := by
  have hd : localDay zone (nextDate zone t) = localDay zone t + 1 := by
    rw [nextDate, date_eq]
    unfold localDay momentOf
    omega
  rw [day, hd]

theorem matchDay_eq (e : Expr) (t : Int) : e.matchDay zone t = e.On (localDay zone t) := by
  unfold Expr.matchDay Expr.domOK Expr.dowOK
  rw [day_nextDate]
  rfl

theorem scan_spec (left : Nat) (i : Int) (hk : localDay zone cur + i ≤ k) (hleft : k < localDay zone cur + i + left)
    (hon : e.On k = true) (hcur : cur < momentOf zone k e.secs) :
    ∃ n, e.scan zone cur (year zone cur) (month zone cur) (day zone cur) left i = some (momentOf zone n e.secs) ∧ e.On n = true ∧
      cur < momentOf zone n e.secs ∧ ∀ k, localDay zone cur + i ≤ k → e.On k = true → cur < momentOf zone k e.secs → n ≤ k := by
  induction left generalizing i with
  | zero => omega
  | succ left ih =>
    have hday : date zone (year zone cur) (month zone cur) (day zone cur + i) 0 0 0 0 = momentOf zone (localDay zone cur + i) 0 := by
      rw [date_eq]
      unfold momentOf
      omega
    have hlocal : localDay zone (momentOf zone (localDay zone cur + i) 0) = localDay zone cur + i := localDay_momentOf le_rfl (by decide)
    have hcand := date_eq zone (momentOf zone (localDay zone cur + i) 0) 0 e.hour e.minute e.second 0
    rw [Int.add_zero, Int.add_zero, Int.add_zero, hlocal] at hcand
    rw [Expr.scan]
    simp only [hday, matchDay_eq, hlocal, hcand]
    by_cases hhit : e.On (localDay zone cur + i) = true ∧ cur < momentOf zone (localDay zone cur + i) e.secs
    · exact ⟨_, if_pos hhit, hhit.1, hhit.2, fun k hk _ _ => hk⟩
    · have hne : k ≠ localDay zone cur + i := fun h => hhit ⟨h ▸ hon, h ▸ hcur⟩
      obtain ⟨n, hscan, hn, hlt, hfirst⟩ := ih (i + 1) (by omega) (by omega)
      refine ⟨n, (if_neg hhit).trans hscan, hn, hlt, fun j hj hjon hjcur => ?_⟩
      have hj' : j ≠ localDay zone cur + i := fun h => hhit ⟨h ▸ hjon, h ▸ hjcur⟩
      exact hfirst j (by omega) hjon hjcur

theorem next_spec (he : e.Recurring) (zone : Int) (cur : Int) :
    ∃ n, e.Next zone cur = some (momentOf zone n e.secs) ∧ e.On n = true ∧ cur < momentOf zone n e.secs ∧
      ∀ k, e.On k = true → cur < momentOf zone k e.secs → n ≤ k := by
  obtain ⟨k, hk1, hk2, hon⟩ := he.back (localDay zone cur)
  have hcur : cur < momentOf zone k e.secs := by
    have := he.secs.1
    unfold localDay at hk1
    unfold momentOf
    omega
  have hmax : (maxScanDays : Int) = 2928 := rfl
  obtain ⟨n, hscan, hn, hlt, hfirst⟩ := scan_spec maxScanDays 0 (by omega) (by omega) hon hcur
  exact ⟨n, hscan, hn, hlt, fun j hj hjcur => hfirst j (by have := localDay_le he.secs.1 he.secs.2 (le_of_lt hjcur); omega) hj hjcur⟩

/-- `t` is a trigger of the expression after `cur`, in the range and not in the past. -/
def Expr.Hit (e : Expr) (zone : Int) (cur stop now t : Int) : Prop :=
  ∃ n, e.On n = true ∧ cur < momentOf zone n e.secs ∧ momentOf zone n e.secs ≤ stop ∧ now ≤ momentOf zone n e.secs ∧ t = momentOf zone n e.secs

theorem hit_next (hn : e.On n = true) (hcur : cur < momentOf zone n e.secs) (hstop : momentOf zone n e.secs ≤ stop)
    (hfirst : ∀ k, e.On k = true → cur < momentOf zone k e.secs → n ≤ k) :
    e.Hit zone cur stop now t ↔ now ≤ momentOf zone n e.secs ∧ t = momentOf zone n e.secs ∨ e.Hit zone (momentOf zone n e.secs) stop now t := by
  constructor
  · rintro ⟨k, hk, hlt, hle, hnow, rfl⟩
    rcases eq_or_lt_of_le (hfirst k hk hlt) with rfl | hnk
    · exact .inl ⟨hnow, rfl⟩
    · refine .inr ⟨k, hk, ?_, hle, hnow, rfl⟩
      unfold momentOf
      omega
  · rintro (⟨hnow, rfl⟩ | ⟨k, hk, hlt, hle, hnow, rfl⟩)
    · exact ⟨n, hn, hcur, hstop, hnow, rfl⟩
    · exact ⟨k, hk, lt_trans hcur hlt, hle, hnow, rfl⟩

/-- `out` is in order and not after `cur`. -/
def Upto (out : List Int) (cur : Int) : Prop := out.Pairwise (· < ·) ∧ ∀ t ∈ out, t ≤ cur

theorem Upto.mono (h : Upto out cur) (hle : cur ≤ t) : Upto out t := ⟨h.1, fun x hx => (h.2 x hx).trans hle⟩

theorem Upto.snoc (h : Upto out cur) (hlt : cur < t) : Upto (out ++ [t]) t := by
  constructor
  · rw [List.pairwise_append]
    refine ⟨h.1, List.pairwise_singleton _ _, fun x hx y hy => ?_⟩
    rw [List.mem_singleton.1 hy]
    exact lt_of_le_of_lt (h.2 x hx) hlt
  · intro x hx
    rcases List.mem_append.1 hx with hx | hx
    · exact (h.2 x hx).trans (le_of_lt hlt)
    · exact le_of_eq (List.mem_singleton.1 hx)

/-- The loop adds the triggers after `cur`, `a` being no later than the day of the first and `fuel` days enough; or it finds too many. -/
theorem matchingFrom_spec (he : e.Recurring) (fuel : Nat) {a : Int} (ha : ∀ n, cur < momentOf zone n e.secs → a ≤ n)
    (hfuel : ∀ n, momentOf zone n e.secs ≤ stop → n < a + fuel) (hout : Upto out cur) :
    Outcome (matchingFrom zone e stop now fuel cur out)
      (fun res => res.Pairwise (· < ·) ∧ ∀ t, t ∈ res ↔ t ∈ out ∨ e.Hit zone cur stop now t)
      (fun _ => ∃ l : List Int, l.Pairwise (· < ·) ∧ MaxTriggerTimes < l.length ∧ ∀ t ∈ l, t ∈ out ∨ e.Hit zone cur stop now t) := by
  induction fuel generalizing cur out a with
  | zero =>
    refine ⟨hout.1, fun t => ⟨.inl, ?_⟩⟩
    rintro (h | ⟨n, -, hlt, hle, -, -⟩)
    · exact h
    · have h1 := ha n hlt
      have h2 := hfuel n hle
      omega
  | succ fuel ih =>
    obtain ⟨n, hnext, hn, hlt, hfirst⟩ := next_spec he zone cur
    rw [matchingFrom, hnext]
    simp only
    by_cases hstop : stop < momentOf zone n e.secs
    · rw [if_pos hstop]
      refine ⟨hout.1, fun t => ⟨.inl, ?_⟩⟩
      rintro (h | ⟨k, hk, hklt, hkle, -, -⟩)
      · exact h
      · have hnk := hfirst k hk hklt
        unfold momentOf at *
        omega
    rw [if_neg hstop]
    have hstep : ∀ t, e.Hit zone cur stop now t ↔ _ := fun t => hit_next hn hlt (not_lt.1 hstop) hfirst
    have ha' : ∀ k, momentOf zone n e.secs < momentOf zone k e.secs → n + 1 ≤ k := fun k hk => lt_of_momentOf_lt hk
    have hfuel' : ∀ k, momentOf zone k e.secs ≤ stop → k < n + 1 + fuel := by
      intro k hk
      have h1 := hfuel k hk
      have h2 := ha n hlt
      push_cast at h1
      omega
    by_cases hnow : momentOf zone n e.secs < now
    · rw [if_pos hnow]
      have hsame : ∀ t, e.Hit zone cur stop now t ↔ e.Hit zone (momentOf zone n e.secs) stop now t := by
        intro t
        rw [hstep]
        exact or_iff_right fun h => absurd h.1 (not_le.2 hnow)
      refine (ih ha' hfuel' (hout.mono (le_of_lt hlt))).mono (fun res hres => ?_) fun _ herr => ?_
      · exact ⟨hres.1, fun t => by rw [hres.2, hsame]⟩
      · obtain ⟨l, hl, hlen, hmem⟩ := herr
        exact ⟨l, hl, hlen, fun t ht => by rw [hsame]; exact hmem t ht⟩
    rw [if_neg hnow]
    have hmore : ∀ t, t ∈ out ++ [momentOf zone n e.secs] ∨ e.Hit zone (momentOf zone n e.secs) stop now t ↔ t ∈ out ∨ e.Hit zone cur stop now t := by
      intro t
      rw [hstep, List.mem_append, List.mem_singleton, or_assoc, and_iff_right (not_lt.1 hnow)]
    by_cases hmax : MaxTriggerTimes < (out ++ [momentOf zone n e.secs]).length
    · rw [if_pos hmax]
      refine ⟨_, (hout.snoc hlt).1, hmax, fun t ht => (hmore t).1 (.inl ht)⟩
    · rw [if_neg hmax]
      refine (ih ha' hfuel' (hout.snoc hlt)).mono (fun res hres => ?_) fun _ herr => ?_
      · exact ⟨hres.1, fun t => by rw [hres.2, hmore]⟩
      · obtain ⟨l, hl, hlen, hmem⟩ := herr
        exact ⟨l, hl, hlen, fun t ht => (hmore t).1 (hmem t ht)⟩

theorem matchingTimes_spec {expr : Bytes} (hparse : Parse expr = .ok e) (he : e.Recurring) (zone : Int) (start stop now : Int) :
    Outcome (MatchingTimes zone expr start stop now)
      (fun res => res.Pairwise (· < ·) ∧ ∀ t, t ∈ res ↔ e.Hit zone (start - 1) stop now t)
      (fun _ => ∃ l : List Int, l.Pairwise (· < ·) ∧ MaxTriggerTimes < l.length ∧ ∀ t ∈ l, e.Hit zone (start - 1) stop now t) := by
  have hdays : ∀ n, momentOf zone n e.secs ≤ stop → n < localDay zone (start - 1) + (localDay zone stop - localDay zone (start - 1) + 1).toNat := by
    intro n hn
    have hn' : n ≤ localDay zone stop := by
      unfold momentOf at hn
      have := he.secs
      unfold localDay
      omega
    omega
  rw [MatchingTimes, hparse]
  refine (matchingFrom_spec he _ (fun n hn => localDay_le he.secs.1 he.secs.2 (le_of_lt hn)) hdays ⟨List.Pairwise.nil, nofun⟩).mono (fun res hres => ?_) fun _ herr => ?_
  · exact ⟨hres.1, fun t => (hres.2 t).trans (or_iff_right List.not_mem_nil)⟩
  · obtain ⟨l, hl, hlen, hmem⟩ := herr
    exact ⟨l, hl, hlen, fun t ht => (hmem t ht).resolve_left List.not_mem_nil⟩

/-- `t` is a trigger of one of the expressions, in the range and not in the past. -/
def Fired (zone start stop now : Int) (exprs : List Bytes) (t : Int) : Prop :=
  ∃ expr ∈ exprs, ∃ e, Parse expr = .ok e ∧ e.Hit zone (start - 1) stop now t

theorem fired_cons {expr : Bytes} {exprs : List Bytes} (hparse : Parse expr = .ok e) :
    Fired zone start stop now (expr :: exprs) t ↔ e.Hit zone (start - 1) stop now t ∨ Fired zone start stop now exprs t := by
  constructor
  · rintro ⟨x, hx, e', he', hit⟩
    rcases List.mem_cons.1 hx with rfl | hx
    · rw [hparse] at he'
      cases he'
      exact .inl hit
    · exact .inr ⟨x, hx, e', he', hit⟩
  · rintro (hit | ⟨x, hx, e', he', hit⟩)
    · exact ⟨expr, List.mem_cons_self, e, hparse, hit⟩
    · exact ⟨x, List.mem_cons_of_mem _ hx, e', he', hit⟩

theorem Expr.Hit.whole (h : e.Hit zone cur stop now t) : t % 1000000000 = 0 := by
  obtain ⟨n, -, -, -, -, rfl⟩ := h
  unfold momentOf
  omega

structure Distinct (out : List Trigger) : Prop where
  nodup : (out.map Trigger.time).Nodup
  whole : ∀ t ∈ out.map Trigger.time, t % 1000000000 = 0

theorem Distinct.snoc {out : List Trigger} (cron : Bytes) (h : Distinct out) (ht : t % 1000000000 = 0) (hnew : t ∉ out.map Trigger.time) :
    Distinct (out ++ [⟨t, cron⟩]) where
  nodup := by
    rw [List.map_append, List.nodup_append]
    refine ⟨h.nodup, List.nodup_singleton _, fun a ha b hb hab => hnew ?_⟩
    obtain rfl := List.mem_singleton.1 hb
    exact hab ▸ ha
  whole x hx := by
    rw [List.map_append] at hx
    rcases List.mem_append.1 hx with hx | hx
    · exact h.whole x hx
    · obtain rfl := List.mem_singleton.1 hx
      exact ht

theorem addTimes_spec {out : List Trigger} (cron : Bytes) (h : Distinct out) (ht : ∀ t ∈ times, t % 1000000000 = 0) :
    Distinct (addTimes cron out times) ∧ ∀ t, t ∈ (addTimes cron out times).map Trigger.time ↔ t ∈ out.map Trigger.time ∨ t ∈ times := by
  induction times generalizing out with
  | nil => exact ⟨h, fun t => (or_iff_left List.not_mem_nil).symm⟩
  | cons t times ih =>
    have hrest : ∀ t ∈ times, t % 1000000000 = 0 := fun s hs => ht s (List.mem_cons_of_mem _ hs)
    have hseen : (out.any fun o => o.time / 1000000000 == t / 1000000000) = true ↔ t ∈ out.map Trigger.time := by
      rw [List.any_eq_true, List.mem_map]
      constructor
      · rintro ⟨o, ho, heq⟩
        have h1 := h.whole _ (List.mem_map_of_mem ho)
        have h2 := ht t List.mem_cons_self
        have h3 := beq_iff_eq.1 heq
        exact ⟨o, ho, by omega⟩
      · rintro ⟨o, ho, rfl⟩
        exact ⟨o, ho, beq_self_eq_true _⟩
    rw [addTimes, List.foldl_cons]
    by_cases hold : t ∈ out.map Trigger.time
    · rw [if_pos (hseen.2 hold)]
      obtain ⟨h1, h2⟩ := ih h hrest
      refine ⟨h1, fun x => (h2 x).trans ?_⟩
      rw [List.mem_cons]
      constructor
      · exact Or.imp_right .inr
      · rintro (hx | rfl | hx)
        exacts [.inl hx, .inl hold, .inr hx]
    · rw [if_neg fun hc => hold (hseen.1 hc)]
      obtain ⟨h1, h2⟩ := ih (h.snoc cron (ht t List.mem_cons_self) hold) hrest
      refine ⟨h1, fun x => (h2 x).trans ?_⟩
      rw [List.map_append, List.mem_append, List.map_singleton, List.mem_singleton, List.mem_cons, or_assoc]

theorem triggersFrom_spec {exprs : List Bytes} (hexprs : ∀ expr ∈ exprs, ∃ e, Parse expr = .ok e ∧ e.Recurring) {out : List Trigger} (hout : Distinct out) :
    Outcome (triggersFrom zone start stop now exprs out)
      (fun res => Distinct res ∧ ∀ t, t ∈ res.map Trigger.time ↔ t ∈ out.map Trigger.time ∨ Fired zone start stop now exprs t)
      (fun _ => ∃ l : List Int, l.Nodup ∧ MaxTriggerTimes < l.length ∧ ∀ t ∈ l, t ∈ out.map Trigger.time ∨ Fired zone start stop now exprs t) := by
  induction exprs generalizing out with
  | nil =>
    refine ⟨hout, fun t => (or_iff_left ?_).symm⟩
    rintro ⟨expr, hexpr, -⟩
    exact List.not_mem_nil hexpr
  | cons expr exprs ih =>
    obtain ⟨e, hparse, he⟩ := hexprs expr List.mem_cons_self
    have hrest : ∀ expr ∈ exprs, ∃ e, Parse expr = .ok e ∧ e.Recurring := fun x hx => hexprs x (List.mem_cons_of_mem _ hx)
    have htimes := matchingTimes_spec hparse he zone start stop now
    refine Outcome.bind (r := fun res => Distinct res ∧ ∀ t, t ∈ res.map Trigger.time ↔ t ∈ out.map Trigger.time ∨ Fired zone start stop now (expr :: exprs) t)
      htimes (fun times hres => ?_) fun _ herr => ?_
    · obtain ⟨hadd, hmem⟩ := addTimes_spec expr hout fun t ht => ((hres.2 t).1 ht).whole
      have hall : ∀ t, t ∈ (addTimes expr out times).map Trigger.time ∨ Fired zone start stop now exprs t ↔
          t ∈ out.map Trigger.time ∨ Fired zone start stop now (expr :: exprs) t := by
        intro t
        rw [hmem, hres.2, fired_cons hparse, or_assoc]
      show Outcome (if _ then _ else _) _ _
      by_cases hmax : MaxTriggerTimes < (addTimes expr out times).length
      · rw [if_pos hmax]
        exact ⟨_, hadd.nodup, by rwa [List.length_map], fun t ht => (hall t).1 (.inl ht)⟩
      · rw [if_neg hmax]
        refine (ih hrest hadd).mono (fun res hres => ⟨hres.1, fun t => (hres.2 t).trans (hall t)⟩) fun _ herr => ?_
        obtain ⟨l, hl, hlen, hin⟩ := herr
        exact ⟨l, hl, hlen, fun t ht => (hall t).1 (hin t ht)⟩
    · obtain ⟨l, hl, hlen, hin⟩ := herr
      exact ⟨l, hl.imp fun h => ne_of_lt h, hlen, fun t ht => .inr ((fired_cons hparse).2 (.inl (hin t ht)))⟩

theorem length_le_of_days (zone s first : Int) {l : List Int} {days : Nat} (hl : l.Nodup)
    (h : ∀ t ∈ l, ∃ n, first ≤ n ∧ n < first + days ∧ t = momentOf zone n s) : l.length ≤ days := by
  have hsub : l ⊆ (List.range days).map fun i : Nat => momentOf zone (first + i) s := by
    intro t ht
    obtain ⟨n, h1, h2, rfl⟩ := h t ht
    refine List.mem_map.2 ⟨(n - first).toNat, List.mem_range.2 (by omega), ?_⟩
    rw [show first + ((n - first).toNat : Int) = n by omega]
  have hlen := (hl.subperm hsub).length_le
  rwa [List.length_map, List.length_range] at hlen

theorem triggerTimes_spec (zone start stop now : Int) {exprs : List Bytes} (hexprs : ∀ expr ∈ exprs, ∃ e, Parse expr = .ok e ∧ e.Recurring) :
    Outcome (TriggerTimes zone exprs start stop now)
      (fun res => ∀ t, t ∈ res.map Trigger.time ↔ Fired zone start stop now exprs t)
      (fun _ => ∃ l : List Int, l.Nodup ∧ MaxTriggerTimes < l.length ∧ ∀ t ∈ l, Fired zone start stop now exprs t) := by
  have h : Outcome (triggersFrom zone start stop now exprs []) _ _ := triggersFrom_spec hexprs ⟨List.nodup_nil, nofun⟩
  unfold TriggerTimes
  cases hrun : triggersFrom zone start stop now exprs [] with
  | error err =>
    obtain ⟨l, hl, hlen, hin⟩ := h.of_error hrun
    exact ⟨l, hl, hlen, fun t ht => (hin t ht).resolve_left List.not_mem_nil⟩
  | ok res =>
    intro t
    refine Iff.trans ?_ (((h.of_ok hrun).2 t).trans (or_iff_right List.not_mem_nil))
    show t ∈ (res.mergeSort _).map Trigger.time ↔ _
    rw [List.mem_map, List.mem_map]
    exact exists_congr fun o => and_congr_left fun _ => List.mem_mergeSort

end Cronutil
