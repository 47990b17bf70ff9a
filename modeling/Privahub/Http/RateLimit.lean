import Privahub.Lib.Budget
import Privahub.Lib.Bytes
import Mathlib.Algebra.Order.Field.Rat
import Mathlib.Data.List.Count

/-!
# Rate limits

`KeyedLimiter` of ratelimit.go: a token bucket for each key, dropped once it has not been used for an hour. Tokens are rational numbers; a time is
the nanoseconds since the zero `time.Time`. What is let through of one key in any time is bounded by the burst and the larger of the rate and one
burst an hour, since a bucket that is dropped comes back full (`Allow_bound`).
-/

namespace Http

/-- `Time.Sub`: a duration is 64 bits wide and stops at its ends. -/
def TimeSub (t u : Int) : Int := max (-2 ^ 63) (min (2 ^ 63 - 1) (t - u))

def Seconds (d : Int) : ℚ := d / 10 ^ 9

def Hour : Int := 3600 * 10 ^ 9

structure TokenBucket where
  tokens : ℚ
  maxTokens : ℚ
  refillRate : ℚ
  lastRefill : Int

def TokenBucket.refill (b : TokenBucket) (now : Int) : TokenBucket :=
  let tokens := b.tokens + Seconds (TimeSub now b.lastRefill) * b.refillRate
  { b with tokens := if tokens > b.maxTokens then b.maxTokens else tokens, lastRefill := now }

def TokenBucket.allow (b : TokenBucket) (now : Int) : Bool × TokenBucket :=
  let b := b.refill now
  if b.tokens ≥ 1 then (true, { b with tokens := b.tokens - 1 }) else (false, b)

structure KeyedLimiter (κ : Type) where
  buckets : κ → Option TokenBucket
  rate : ℚ
  burst : ℚ
  idleTTL : Int
  lastScan : Int

variable {κ : Type}

def NewKeyedLimiter (permits : ℚ) (window : Int) (burst : ℚ) : Option (KeyedLimiter κ) :=
  if permits ≤ 0 ∨ window ≤ 0 then none
  else some { buckets := fun _ => none, rate := permits / Seconds window, burst := if burst < 1 then 1 else burst, idleTTL := Hour, lastScan := 0 }

namespace KeyedLimiter

def scan (l : KeyedLimiter κ) (now : Int) : KeyedLimiter κ :=
  if TimeSub now l.lastScan > l.idleTTL then
    { l with buckets := fun k => (l.buckets k).filter (fun b => !decide (TimeSub now b.lastRefill > l.idleTTL)), lastScan := now }
  else l

def bucket (l : KeyedLimiter κ) (now : Int) (key : κ) : TokenBucket :=
  (l.buckets key).getD { tokens := l.burst, maxTokens := l.burst, refillRate := l.rate, lastRefill := now }

variable [DecidableEq κ]

def put (l : KeyedLimiter κ) (key : κ) (b : TokenBucket) : KeyedLimiter κ := { l with buckets := Function.update l.buckets key (some b) }

def Allow (l : Option (KeyedLimiter κ)) (now : Int) (key : κ) : Bool × Option (KeyedLimiter κ) :=
  match l with
  | none => (true, none)
  | some l =>
    let l := l.scan now
    let called := (l.bucket now key).allow now
    (called.1, some (l.put key called.2))

/-- The calls that are let through, of calls at some time with some key each. -/
def allowed (l : Option (KeyedLimiter κ)) : List (Int × κ) → List (Int × κ)
  | [] => []
  | c :: calls => if (Allow l c.1 c.2).1 then c :: allowed (Allow l c.1 c.2).2 calls else allowed (Allow l c.1 c.2).2 calls

/-- How many calls with a key are let through from one time to another. -/
def count (l : Option (KeyedLimiter κ)) (calls : List (Int × κ)) (key : κ) (start stop : Int) : Nat :=
  (allowed l calls).countP fun c => decide (c.2 = key ∧ start ≤ c.1 ∧ c.1 ≤ stop)

/-- The calls that a bucket of its own lets through, which is made at the first of them and never dropped. -/
def passed (rate burst : ℚ) : Option TokenBucket → List Int → List Int
  | _, [] => []
  | q, t :: ts =>
    let called := (q.getD ⟨burst, burst, rate, t⟩).allow t
    if called.1 then t :: passed rate burst (some called.2) ts else passed rate burst (some called.2) ts

section Invariant

omit [DecidableEq κ]

variable {l : KeyedLimiter κ} {key : κ} {start time now : Int} {n : Nat} {b : TokenBucket} {q : Option TokenBucket}

theorem seconds_sub (t u : Int) : Seconds (t - u) = Seconds t - Seconds u := by
  simp only [Seconds]
  push_cast
  ring

theorem seconds_mono {t u : Int} (h : t ≤ u) : Seconds t ≤ Seconds u := by
  simp only [Seconds]
  gcongr

theorem seconds_lt {t u : Int} (h : t < u) : Seconds t < Seconds u := by
  simp only [Seconds]
  gcongr

theorem seconds_zero : Seconds 0 = 0 := by norm_num [Seconds]

theorem seconds_elapsed {t u : Int} (h : u ≤ t) : 0 ≤ Seconds (TimeSub t u) ∧ Seconds (TimeSub t u) ≤ Seconds t - Seconds u := by
  rw [← seconds_sub]
  have hsub : 0 ≤ TimeSub t u ∧ TimeSub t u ≤ t - u := by
    rw [TimeSub]
    omega
  exact ⟨seconds_zero ▸ seconds_mono hsub.1, seconds_mono hsub.2⟩

def bound (l : KeyedLimiter κ) : ℚ := max l.rate (l.burst / Seconds Hour)

theorem burst_le_bound : l.burst ≤ l.bound * Seconds Hour := by
  rw [← div_le_iff₀ (by norm_num [Seconds, Hour])]
  exact le_max_right ..

structure Sound (l : KeyedLimiter κ) (now : Int) (b : TokenBucket) : Prop where
  maxTokens : b.maxTokens = l.burst
  refillRate : b.refillRate = l.rate
  nonneg : 0 ≤ b.tokens
  capped : b.tokens ≤ l.burst
  last : b.lastRefill ≤ now

/-- The limiter as it is at any time up to now, with `n` calls of the key let through since the start. -/
structure Kept (l : KeyedLimiter κ) (start : Int) (key : κ) (n : Nat) (now : Int) : Prop where
  rate : 0 ≤ l.rate
  burst : 1 ≤ l.burst
  ttl : l.idleTTL = Hour
  sound : ∀ k b, l.buckets k = some b → l.Sound now b
  within : Budget.Within l.burst l.bound (Seconds start) n (l.bucket now key).tokens (Seconds (l.bucket now key).lastRefill)

theorem Kept.bound_nonneg (h : l.Kept start key n now) : 0 ≤ l.bound := h.rate.trans (le_max_left ..)

theorem Kept.bucket_sound (h : l.Kept start key n now) (k : κ) : l.Sound now (l.bucket now k) := by
  rw [bucket]
  cases hk : l.buckets k with
  | some b => exact h.sound k b hk
  | none => exact ⟨rfl, rfl, zero_le_one.trans h.burst, le_rfl, le_rfl⟩

@[simp] theorem scan_rate : (l.scan now).rate = l.rate := by
  rw [scan]
  split_ifs <;> rfl

@[simp] theorem scan_burst : (l.scan now).burst = l.burst := by
  rw [scan]
  split_ifs <;> rfl

@[simp] theorem scan_idleTTL : (l.scan now).idleTTL = l.idleTTL := by
  rw [scan]
  split_ifs <;> rfl

@[simp] theorem scan_bound : (l.scan now).bound = l.bound := by simp only [bound, scan_rate, scan_burst]

theorem scan_buckets (l : KeyedLimiter κ) (now : Int) (key : κ) : (l.scan now).buckets key = l.buckets key ∨
    (l.scan now).buckets key = none ∧ ∃ b, l.buckets key = some b ∧ l.idleTTL < TimeSub now b.lastRefill := by
  rw [scan]
  split_ifs
  · dsimp only
    cases hb : l.buckets key with
    | none => exact .inl rfl
    | some b =>
      by_cases hidle : TimeSub now b.lastRefill > l.idleTTL
      · exact .inr ⟨by simp [Option.filter, hidle], b, rfl, hidle⟩
      · exact .inl (by simp [Option.filter, hidle])
  · exact .inl rfl

theorem Kept.scan (h : l.Kept start key n time) (htime : time ≤ now) : (l.scan now).Kept start key n now := by
  refine ⟨by rw [scan_rate]; exact h.rate, by rw [scan_burst]; exact h.burst, by rw [scan_idleTTL]; exact h.ttl, fun k b hb => ?_, ?_⟩
  · have hk : l.buckets k = some b := by
      obtain heq | ⟨hnone, -⟩ := scan_buckets l now k
      · rwa [← heq]
      · exact nomatch hnone.symm.trans hb
    have hs := h.sound k b hk
    exact ⟨by rw [scan_burst]; exact hs.maxTokens, by rw [scan_rate]; exact hs.refillRate, hs.nonneg, by rw [scan_burst]; exact hs.capped,
      hs.last.trans htime⟩
  · have hwithin := h.within
    rw [scan_burst, scan_bound]
    obtain heq | ⟨hnone, b, hb, hidle⟩ := scan_buckets l now key
    · rw [bucket, heq, scan_burst, scan_rate]
      cases hb : l.buckets key with
      | some b => rwa [bucket, hb] at hwithin
      | none =>
        rw [bucket, hb] at hwithin
        have hgain : 0 ≤ l.bound * (Seconds now - Seconds time) := mul_nonneg h.bound_nonneg (sub_nonneg.2 (seconds_mono htime))
        exact hwithin.wait (seconds_mono htime) le_rfl (le_add_of_nonneg_right hgain)
    · rw [bucket, hb] at hwithin
      rw [bucket, hnone, scan_burst]
      have hs := h.sound key b hb
      have hlast : b.lastRefill ≤ now := hs.last.trans htime
      refine hwithin.wait (seconds_mono hlast) le_rfl ?_
      -- a bucket that is dropped has been idle for the hour that refills it
      calc l.burst ≤ l.bound * Seconds Hour := burst_le_bound
        _ ≤ l.bound * Seconds (TimeSub now b.lastRefill) := mul_le_mul_of_nonneg_left (seconds_mono (h.ttl ▸ hidle).le) h.bound_nonneg
        _ ≤ l.bound * (Seconds now - Seconds b.lastRefill) := mul_le_mul_of_nonneg_left (seconds_elapsed hlast).2 h.bound_nonneg
        _ ≤ b.tokens + l.bound * (Seconds now - Seconds b.lastRefill) := le_add_of_nonneg_left hs.nonneg

theorem Sound.refill (hs : l.Sound now b) (hrate : 0 ≤ l.rate) : l.Sound now (b.refill now) ∧
    (b.refill now).tokens ≤ b.tokens + l.bound * (Seconds now - Seconds b.lastRefill) := by
  obtain ⟨h0, hle⟩ := seconds_elapsed hs.last
  have hgain : Seconds (TimeSub now b.lastRefill) * b.refillRate ≤ l.bound * (Seconds now - Seconds b.lastRefill) := by
    rw [hs.refillRate, mul_comm]
    exact mul_le_mul (le_max_left ..) hle h0 (hrate.trans (le_max_left ..))
  have hnonneg : 0 ≤ Seconds (TimeSub now b.lastRefill) * b.refillRate := mul_nonneg h0 (hs.refillRate ▸ hrate)
  have htokens := hs.nonneg
  refine ⟨⟨hs.maxTokens, hs.refillRate, ?_, ?_, le_rfl⟩, ?_⟩
  · rw [TokenBucket.refill]
    dsimp only
    split_ifs
    · exact hs.maxTokens ▸ htokens.trans hs.capped
    · exact add_nonneg htokens hnonneg
  · rw [TokenBucket.refill, ← hs.maxTokens]
    dsimp only
    split_ifs with hmax
    · exact le_rfl
    · exact not_lt.1 hmax
  · rw [TokenBucket.refill]
    dsimp only
    split_ifs with hmax
    · exact hmax.le.trans (by gcongr)
    · gcongr

theorem Sound.allow (hs : l.Sound now b) (hrate : 0 ≤ l.rate) : l.Sound now (b.allow now).2 ∧ (b.allow now).2.lastRefill = now ∧
    (b.allow now).2.tokens = (b.refill now).tokens - if (b.allow now).1 then 1 else 0 := by
  have hrefill := (hs.refill hrate).1
  by_cases hone : (b.refill now).tokens ≥ 1
  · have heq : b.allow now = (true, { b.refill now with tokens := (b.refill now).tokens - 1 }) := if_pos hone
    rw [heq, if_pos rfl]
    exact ⟨⟨hrefill.maxTokens, hrefill.refillRate, sub_nonneg.2 hone, (sub_le_self _ zero_le_one).trans hrefill.capped, le_rfl⟩, rfl, rfl⟩
  · have heq : b.allow now = (false, b.refill now) := if_neg hone
    rw [heq, if_neg Bool.false_ne_true, sub_zero]
    exact ⟨hrefill, rfl, rfl⟩

/-- The limiter holds the bucket `q` of the key, or has dropped it after an idle hour. -/
def Holds (l : KeyedLimiter κ) (key : κ) (q : Option TokenBucket) (now : Int) : Prop :=
  l.buckets key = q ∨ l.buckets key = none ∧ ∃ b, q = some b ∧ l.Sound now b ∧ Hour < TimeSub now b.lastRefill

/-- A bucket that has been idle for the hour is as full as a new one. -/
theorem Sound.refill_idle (hs : l.Sound now b) (hrate : 0 ≤ l.rate) (hhour : l.burst ≤ l.rate * Seconds Hour) (hidle : Hour < TimeSub now b.lastRefill) :
    b.refill now = (⟨l.burst, l.burst, l.rate, now⟩ : TokenBucket).refill now := by
  have hgain : l.burst ≤ b.tokens + Seconds (TimeSub now b.lastRefill) * l.rate := by
    calc l.burst ≤ l.rate * Seconds Hour := hhour
      _ ≤ l.rate * Seconds (TimeSub now b.lastRefill) := mul_le_mul_of_nonneg_left (seconds_mono hidle.le) hrate
      _ = Seconds (TimeSub now b.lastRefill) * l.rate := mul_comm ..
      _ ≤ b.tokens + Seconds (TimeSub now b.lastRefill) * l.rate := le_add_of_nonneg_left hs.nonneg
  have hfull : (⟨l.burst, l.burst, l.rate, now⟩ : TokenBucket).refill now = ⟨l.burst, l.burst, l.rate, now⟩ := by
    simp [TokenBucket.refill, TimeSub, Seconds]
  rw [hfull]
  simp only [TokenBucket.refill, hs.maxTokens, hs.refillRate, TokenBucket.mk.injEq, and_true]
  split_ifs with hmax
  · rfl
  · exact le_antisymm (not_lt.1 hmax) hgain

theorem Holds.allow_eq (h : l.Holds key q now) (hrate : 0 ≤ l.rate) (hhour : l.burst ≤ l.rate * Seconds Hour) :
    (l.bucket now key).allow now = (q.getD ⟨l.burst, l.burst, l.rate, now⟩).allow now := by
  obtain heq | ⟨hnone, b, rfl, hs, hidle⟩ := h
  · rw [bucket, heq]
  · rw [bucket, hnone, Option.getD_none, Option.getD_some]
    simp only [TokenBucket.allow, hs.refill_idle hrate hhour hidle]

theorem Holds.scan (h : l.Holds key q time) (hkept : l.Kept start key n time) (htime : time ≤ now) : (l.scan now).Holds key q now := by
  have hsound {b : TokenBucket} (hs : l.Sound time b) : (l.scan now).Sound now b :=
    ⟨by rw [scan_burst]; exact hs.maxTokens, by rw [scan_rate]; exact hs.refillRate, hs.nonneg, by rw [scan_burst]; exact hs.capped,
      hs.last.trans htime⟩
  obtain heq | ⟨hnone, b, hb, hidle⟩ := scan_buckets l now key
  · obtain hq | ⟨hnone, b, hb, hs, hidle⟩ := h
    · exact .inl (heq.trans hq)
    · refine .inr ⟨heq.trans hnone, b, hb, hsound hs, hidle.trans_le ?_⟩
      simp only [TimeSub]
      omega
  · obtain rfl | ⟨hnone', -⟩ := h
    · exact .inr ⟨hnone, b, hb, hsound (hkept.sound key b hb), hkept.ttl ▸ hidle⟩
    · rw [hnone'] at hb
      cases hb

end Invariant

variable {l : KeyedLimiter κ} {b : TokenBucket} {q : Option TokenBucket} {calls : List (Int × κ)} {key : κ} {start stop time now : Int} {n : Nat}

@[simp] theorem put_rate (k : κ) : (l.put k b).rate = l.rate := rfl

@[simp] theorem put_burst (k : κ) : (l.put k b).burst = l.burst := rfl

@[simp] theorem put_bound (k : κ) : (l.put k b).bound = l.bound := rfl

theorem put_buckets_self (k : κ) : (l.put k b).buckets k = some b := Function.update_self ..

theorem put_buckets_of_ne {k k' : κ} (h : k' ≠ k) : (l.put k b).buckets k' = l.buckets k' := Function.update_of_ne h ..

theorem Kept.put {k : κ} {m : Nat} (h : l.Kept start key n now) (hb : l.Sound now b)
    (hkey : k = key → Budget.Within l.burst l.bound (Seconds start) m b.tokens (Seconds b.lastRefill)) (hother : k ≠ key → m = n) :
    (l.put k b).Kept start key m now := by
  refine ⟨h.rate, h.burst, h.ttl, fun k' b' hb' => ?_, ?_⟩
  · have hs : l.Sound now b' := by
      by_cases hk : k' = k
      · rw [hk, put_buckets_self] at hb'
        exact Option.some.inj hb' ▸ hb
      · rw [put_buckets_of_ne hk] at hb'
        exact h.sound k' b' hb'
    exact ⟨hs.maxTokens, hs.refillRate, hs.nonneg, hs.capped, hs.last⟩
  · rw [put_burst, put_bound, bucket]
    by_cases hk : k = key
    · rw [← hk, put_buckets_self]
      exact hkey hk
    · rw [put_buckets_of_ne (Ne.symm hk), hother hk]
      exact h.within

theorem Kept.take (h : l.Kept start key n now) (k : κ) : (l.put k ((l.bucket now k).allow now).2).Kept start key
    (n + if ((l.bucket now k).allow now).1 ∧ k = key ∧ start ≤ now then 1 else 0) now := by
  have hs := h.bucket_sound k
  obtain ⟨hsound, hlast, htokens⟩ := hs.allow h.rate
  refine h.put hsound (fun hk => ?_) fun hk => by rw [if_neg fun hand => hk hand.2.1, add_zero]
  subst hk
  have hfull := h.within.wait (seconds_mono hs.last) (hs.refill h.rate).1.capped (hs.refill h.rate).2
  rw [hlast, htokens]
  by_cases hok : ((l.bucket now k).allow now).1 = true
  · rw [if_pos hok]
    by_cases hstart : start ≤ now
    · rw [if_pos ⟨hok, rfl, hstart⟩]
      exact hfull.take h.bound_nonneg (seconds_mono hstart)
    · rw [if_neg fun hand => hstart hand.2.2]
      exact hfull.early (seconds_lt (not_le.1 hstart)) (sub_le_self _ zero_le_one)
  · rw [if_neg hok, if_neg fun hand => hok hand.1, sub_zero]
    exact hfull

theorem allowed_sublist (l : Option (KeyedLimiter κ)) (calls : List (Int × κ)) : (allowed l calls).Sublist calls := by
  induction calls generalizing l with
  | nil => exact List.Sublist.slnil
  | cons c calls ih =>
    rw [allowed]
    split_ifs
    · exact (ih _).cons_cons c
    · exact (ih _).cons c

theorem count_cons {c : Int × κ} (l : Option (KeyedLimiter κ)) (calls : List (Int × κ)) (hin : c.1 ≤ stop) : count l (c :: calls) key start stop =
    (if (Allow l c.1 c.2).1 ∧ c.2 = key ∧ start ≤ c.1 then 1 else 0) + count (Allow l c.1 c.2).2 calls key start stop := by
  rw [count, allowed]
  by_cases hok : (Allow l c.1 c.2).1 = true
  · rw [if_pos hok, List.countP_cons]
    simp [count, hok, hin, add_comm]
  · rw [if_neg hok, if_neg fun hand => hok hand.1, zero_add]
    rfl

theorem count_after {l : Option (KeyedLimiter κ)} (h : ∀ c ∈ calls, stop < c.1) : count l calls key start stop = 0 := by
  refine List.countP_eq_zero.2 fun c hc => ?_
  have hlt := h c ((allowed_sublist l calls).subset hc)
  simp [not_le.2 hlt]

omit [DecidableEq κ] in
theorem Kept.le (h : l.Kept start key n time) (htime : time ≤ stop) (hstop : start ≤ stop) :
    (n : ℚ) ≤ l.burst + l.bound * Seconds (stop - start) := by
  have hsound := h.bucket_sound key
  rw [seconds_sub]
  exact h.within.le (zero_le_one.trans h.burst) h.bound_nonneg hsound.nonneg (seconds_mono (hsound.last.trans htime)) (seconds_mono hstop)

theorem Kept.count (h : l.Kept start key n time) (hcalls : calls.Pairwise fun c d => c.1 ≤ d.1) (hafter : ∀ c ∈ calls, time ≤ c.1)
    (htime : time ≤ stop) (hstop : start ≤ stop) :
    (n : ℚ) + KeyedLimiter.count (some l) calls key start stop ≤ l.burst + l.bound * Seconds (stop - start) := by
  have hle := h.le htime hstop
  induction calls generalizing l n time with
  | nil => simpa [KeyedLimiter.count, allowed] using hle
  | cons c calls ih =>
    rw [List.pairwise_cons] at hcalls
    by_cases hin : c.1 ≤ stop
    · have hkept := (h.scan (hafter c List.mem_cons_self)).take c.2
      have hrest := ih hkept hcalls.2 hcalls.1 hin (hkept.le hin hstop)
      rw [put_burst, put_bound, scan_burst, scan_bound] at hrest
      rw [count_cons _ _ hin, Nat.cast_add, ← add_assoc, ← Nat.cast_add]
      exact hrest
    · have hzero : KeyedLimiter.count (some l) (c :: calls) key start stop = 0 := by
        refine count_after fun d hd => ?_
        obtain rfl | hd := List.mem_cons.1 hd
        · exact not_le.1 hin
        · exact (not_le.1 hin).trans_le (hcalls.1 d hd)
      rw [hzero, Nat.cast_zero, add_zero]
      exact hle

theorem allowed_none (calls : List (Int × κ)) : allowed none calls = calls := by
  induction calls with
  | nil => rfl
  | cons c calls ih => exact congrArg (c :: ·) ih

omit [DecidableEq κ] in
theorem New_kept (permits burst : ℚ) (window : Int) (hpermits : 0 < permits) (hwindow : 0 < window) (start : Int) (key : κ) (time : Int) :
    ∃ l, NewKeyedLimiter permits window burst = some l ∧ l.burst = max burst 1 ∧ l.rate = permits / Seconds window ∧ l.Kept start key 0 time := by
  have hburst : (if burst < 1 then 1 else burst) = max burst 1 := (max_def_lt ..).symm
  have hrate : 0 ≤ permits / Seconds window := div_nonneg hpermits.le (seconds_zero ▸ seconds_mono hwindow.le)
  refine ⟨_, if_neg (not_or.2 ⟨not_le.2 hpermits, not_le.2 hwindow⟩), hburst, rfl, hrate, ?_, rfl, nofun, .full⟩
  exact hburst ▸ le_max_right ..

/-- Without permits or a window everything is let through. Else a time lets through at most a burst, of one call at least, and what comes back in it
at the rate or at one burst an hour, whichever is more; when the rate brings a burst back within the hour, this is the rate. -/
theorem Allow_bound (permits burst : ℚ) (window : Int) (calls : List (Int × κ)) (hcalls : calls.Pairwise fun c d => c.1 ≤ d.1) (key : κ)
    (start stop : Int) (hstop : start ≤ stop) :
    (permits ≤ 0 ∨ window ≤ 0 → allowed (NewKeyedLimiter permits window burst) calls = calls) ∧
    (0 < permits → 0 < window → (count (NewKeyedLimiter permits window burst) calls key start stop : ℚ) ≤
      max burst 1 + max (permits / Seconds window) (max burst 1 / Seconds Hour) * Seconds (stop - start)) ∧
    (0 < permits → 0 < window → max burst 1 ≤ permits / Seconds window * Seconds Hour →
      (count (NewKeyedLimiter permits window burst) calls key start stop : ℚ) ≤ max burst 1 + permits / Seconds window * Seconds (stop - start)) := by
  have hbound (hpermits : 0 < permits) (hwindow : 0 < window) : (count (NewKeyedLimiter permits window burst) calls key start stop : ℚ) ≤
      max burst 1 + max (permits / Seconds window) (max burst 1 / Seconds Hour) * Seconds (stop - start) := by
    -- a time that is before every call
    obtain ⟨time, hafter, htime⟩ : ∃ time, (∀ c ∈ calls, time ≤ c.1) ∧ time ≤ stop := by
      cases calls with
      | nil => exact ⟨stop, nofun, le_rfl⟩
      | cons c calls =>
        refine ⟨min c.1 stop, fun d hd => (min_le_left ..).trans ?_, min_le_right ..⟩
        obtain rfl | hd := List.mem_cons.1 hd
        · exact le_rfl
        · exact List.rel_of_pairwise_cons hcalls hd
    obtain ⟨l, hl, hburst, hrate, hkept⟩ := New_kept permits burst window hpermits hwindow start key time
    have hcount := hkept.count hcalls hafter htime hstop
    rw [bound, hburst, hrate, Nat.cast_zero, zero_add] at hcount
    exact hl ▸ hcount
  refine ⟨fun hnil => ?_, hbound, fun hpermits hwindow hrefill => ?_⟩
  · rw [NewKeyedLimiter, if_pos hnil]
    exact allowed_none calls
  · have hmax : max (permits / Seconds window) (max burst 1 / Seconds Hour) = permits / Seconds window :=
      max_eq_left ((div_le_iff₀ (by norm_num [Seconds, Hour])).2 hrefill)
    exact hmax ▸ hbound hpermits hwindow

/-- Two calls of alice, a little more than an hour apart. -/
private def twice : List (Int × Bytes) := [(64 * 10 ^ 18, str "alice"), (64 * 10 ^ 18 + Hour + 1, str "alice")]

/-- Of the two calls both are let through by a limiter of one call a day, by a limiter without permits, and by one without a burst the first. -/
theorem not_bound :
    ¬(count (NewKeyedLimiter 1 (24 * Hour) 1) twice (str "alice") (64 * 10 ^ 18) (64 * 10 ^ 18 + Hour + 1) : ℚ) ≤
      1 + 1 / Seconds (24 * Hour) * Seconds (Hour + 1) ∧
    ¬(count (NewKeyedLimiter 0 Hour 1) twice (str "alice") (64 * 10 ^ 18) (64 * 10 ^ 18 + Hour + 1) : ℚ) ≤ 1 + 0 / Seconds Hour * Seconds (Hour + 1) ∧
    ¬(count (NewKeyedLimiter 1 Hour 0) twice (str "alice") (64 * 10 ^ 18) (64 * 10 ^ 18) : ℚ) ≤ 0 + 1 / Seconds Hour * Seconds 0 := by
  decide +kernel

theorem Allow_bound_twice : (count (NewKeyedLimiter 1 (24 * Hour) 1) twice (str "alice") (64 * 10 ^ 18) (64 * 10 ^ 18 + Hour + 1) : ℚ) ≤
    max 1 1 + max (1 / Seconds (24 * Hour)) (max 1 1 / Seconds Hour) * Seconds (64 * 10 ^ 18 + Hour + 1 - 64 * 10 ^ 18) ∧
    (count (NewKeyedLimiter 20 (60 * 10 ^ 9) 5) twice (str "alice") (64 * 10 ^ 18) (64 * 10 ^ 18) : ℚ) ≤
      max 5 1 + 20 / Seconds (60 * 10 ^ 9) * Seconds (64 * 10 ^ 18 - 64 * 10 ^ 18) :=
  ⟨(Allow_bound 1 1 (24 * Hour) twice (by decide +kernel) (str "alice") _ _ (by decide)).2.1 (by norm_num) (by decide),
    (Allow_bound 20 5 (60 * 10 ^ 9) twice (by decide +kernel) (str "alice") _ _ le_rfl).2.2 (by norm_num) (by norm_num)
      (by norm_num [Seconds, Hour])⟩

theorem Holds.allowed (h : l.Holds key q time) (hkept : l.Kept start key n time) (hhour : l.burst ≤ l.rate * Seconds Hour)
    (hcalls : calls.Pairwise fun c d => c.1 ≤ d.1) (hafter : ∀ c ∈ calls, time ≤ c.1) :
    ((allowed (some l) calls).filter fun c => decide (c.2 = key)).map Prod.fst =
      passed l.rate l.burst q ((calls.filter fun c => decide (c.2 = key)).map Prod.fst) := by
  induction calls generalizing l q time n with
  | nil => rfl
  | cons c calls ih =>
    obtain ⟨t, k⟩ := c
    obtain ⟨hle, hcalls⟩ := List.pairwise_cons.1 hcalls
    have htime : time ≤ t := hafter _ (List.mem_cons_self ..)
    have hscan := h.scan hkept htime
    have hcons : KeyedLimiter.allowed (some l) ((t, k) :: calls) = if (((l.scan t).bucket t k).allow t).1 then
        (t, k) :: KeyedLimiter.allowed (some ((l.scan t).put k (((l.scan t).bucket t k).allow t).2)) calls
      else KeyedLimiter.allowed (some ((l.scan t).put k (((l.scan t).bucket t k).allow t).2)) calls := rfl
    have hput {q' : Option TokenBucket} (hq : ((l.scan t).put k (((l.scan t).bucket t k).allow t).2).Holds key q' t) :=
      ih hq ((hkept.scan htime).take k) (by simpa using hhour) hcalls hle
    simp only [put_rate, put_burst, scan_rate, scan_burst] at hput
    rw [hcons]
    by_cases hk : k = key
    · subst hk
      have hcalled := hscan.allow_eq (by simpa using hkept.rate) (by simpa using hhour)
      rw [scan_rate, scan_burst] at hcalled
      rw [List.filter_cons_of_pos (by simp), List.map_cons, passed, ← hcalled, ← hput (.inl (put_buckets_self k))]
      split_ifs
      · rw [List.filter_cons_of_pos (by simp), List.map_cons]
      · rfl
    · have hother : ((l.scan t).put k (((l.scan t).bucket t k).allow t).2).Holds key q t := by
        rw [Holds, put_buckets_of_ne (Ne.symm hk)]
        exact hscan.imp_right fun ⟨hnone, b, hb, hs, hidle⟩ =>
          ⟨hnone, b, hb, ⟨hs.maxTokens, hs.refillRate, hs.nonneg, hs.capped, hs.last⟩, hidle⟩
      rw [List.filter_cons_of_neg (by simpa using hk), ← hput hother]
      split_ifs
      · rw [List.filter_cons_of_neg (by simpa using hk)]
      · rfl

/-- When a burst comes back within the hour, the dropping of idle buckets goes unnoticed and no key sees the calls of another: of each key is let
through what a bucket of its own lets through. -/
theorem allowed_of_key (permits burst : ℚ) (window : Int) (hpermits : 0 < permits) (hwindow : 0 < window)
    (hhour : max burst 1 ≤ permits / Seconds window * Seconds Hour) (calls : List (Int × κ)) (hcalls : calls.Pairwise fun c d => c.1 ≤ d.1) (key : κ) :
    ((allowed (NewKeyedLimiter permits window burst) calls).filter fun c => decide (c.2 = key)).map Prod.fst =
      passed (permits / Seconds window) (max burst 1) none ((calls.filter fun c => decide (c.2 = key)).map Prod.fst) := by
  have hnew : NewKeyedLimiter (κ := κ) permits window burst = _ := if_neg (not_or.2 ⟨not_le.2 hpermits, not_le.2 hwindow⟩)
  cases calls with
  | nil => rw [hnew]; rfl
  | cons c calls =>
    obtain ⟨l, hl, hburst, hrate, hkept⟩ := New_kept permits burst window hpermits hwindow c.1 key c.1
    have hnone : l.buckets key = none := by rw [← Option.some.inj (hnew.symm.trans hl)]
    rw [hl, ← hburst, ← hrate]
    refine Holds.allowed (.inl hnone) hkept (by rwa [hburst, hrate]) hcalls fun d hd => ?_
    obtain rfl | hd := List.mem_cons.1 hd
    · exact le_rfl
    · exact List.rel_of_pairwise_cons hcalls hd

/-- Of six calls of alice at once five are let through, whatever bob does. -/
theorem allowed_of_key_alice : ((allowed (NewKeyedLimiter 20 (60 * 10 ^ 9) 5)
    ((10 ^ 18, str "bob") :: List.replicate 6 (10 ^ 18, str "alice"))).filter fun c => decide (c.2 = str "alice")).length = 5 := by
  have h := allowed_of_key 20 5 (60 * 10 ^ 9) (by norm_num) (by norm_num) (by norm_num [Seconds, Hour])
    ((10 ^ 18, str "bob") :: List.replicate 6 (10 ^ 18, str "alice")) (by decide) (str "alice")
  rw [← List.length_map, h]
  decide +kernel

end KeyedLimiter

end Http
