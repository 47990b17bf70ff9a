import Mathlib.Data.List.Dedup
import Mathlib.Data.List.Perm.Subperm
import Mathlib.Logic.Function.Basic
import Privahub.Lib.Bytes

/-!
# The nonces of signed votes

`nonceCache` of `votehandler/signature.go`: a map and a list, newest first, of the nonces that were checked, each with the digest of its message and the
time it is remembered until. `Memory` is what the cache stands for, a memory without bound: as long as the clock does not go back and the nonces
that are remembered at a time fit, what the cache drops has expired (`Recalls.push`).
-/

namespace Nonces

structure nonceEntry where
  nonce : Bytes
  digest : Bytes
  expires : Int
  deriving DecidableEq

/-- An element of the list is its entry, which is not written to once it is there. -/
structure NonceCache where
  max : Nat
  items : Bytes → Option nonceEntry
  order : List nonceEntry

def newNonceCache (max : Nat) : NonceCache := ⟨max, fun _ => none, []⟩

/-- One check: the nonce and the body of a message, and the time. -/
structure Check where
  nonce : Bytes
  body : Bytes
  now : Int
  deriving DecidableEq

namespace NonceCache

variable (c : NonceCache) (e : nonceEntry)

/-- `order.Remove(el)` and `delete(items, nonce)`. -/
def remove : NonceCache := { c with items := Function.update c.items e.nonce none, order := c.order.erase e }

def dropBack : NonceCache :=
  match c.order.getLast? with
  | none => c
  | some old => { c with items := Function.update c.items old.nonce none, order := c.order.dropLast }

def push : NonceCache :=
  let c := { c with items := Function.update c.items e.nonce (some e), order := e :: c.order }
  dropBack^[c.order.length - c.max] c

end NonceCache

section
variable (sha256 : Bytes → Bytes) (NonceTTL : Int)

def check (c : NonceCache) (x : Check) : Bool × NonceCache :=
  let e : nonceEntry := ⟨x.nonce, sha256 x.body, x.now + NonceTTL⟩
  match c.items x.nonce with
  | none => (true, c.push e)
  | some old => if x.now < old.expires then (decide (old.digest = sha256 x.body), c) else (true, (c.remove old).push e)

def run (max : Nat) (ops : List Check) : NonceCache := ops.foldl (fun c x => (check sha256 NonceTTL c x).2) (newNonceCache max)
end

abbrev Memory := Bytes → Option Check

section
variable (NonceTTL : Int)

def Live (m : Memory) (now : Int) (nonce : Bytes) : Prop := ∃ s, m nonce = some s ∧ now < s.now + NonceTTL

instance (m : Memory) (now : Int) (nonce : Bytes) : Decidable (Live NonceTTL m now nonce) :=
  match h : m nonce with
  | none => .isFalse fun ⟨_, hs, _⟩ => by rw [h] at hs; cases hs
  | some s => decidable_of_iff (now < s.now + NonceTTL) ⟨fun hlt => ⟨s, h, hlt⟩, fun ⟨t, ht, hlt⟩ => by rw [h] at ht; cases ht; exact hlt⟩

def remember (m : Memory) (x : Check) : Memory := if Live NonceTTL m x.now x.nonce then m else Function.update m x.nonce (some x)

def memory (ops : List Check) : Memory := ops.foldl (remember NonceTTL) fun _ => none

/-- The nonces of the checks that are live at a time, each once. -/
def liveNonces (ops : List Check) (now : Int) : List Bytes :=
  (ops.map (·.nonce)).dedup.filter fun n => decide (Live NonceTTL (memory NonceTTL ops) now n)

/-- After each check there are not more live nonces than the cache has room for. -/
def Fits (max : Nat) (ops : List Check) : Prop := ∀ pre ∈ ops.inits, ∀ x ∈ pre.getLast?, (liveNonces NonceTTL pre x.now).length ≤ max

instance (max : Nat) (ops : List Check) : Decidable (Fits NonceTTL max ops) := inferInstanceAs (Decidable (∀ pre ∈ ops.inits, _))

def Timely (ops : List Check) : Prop := ops.Pairwise fun x y => x.now ≤ y.now

instance (ops : List Check) : Decidable (Timely ops) := inferInstanceAs (Decidable (ops.Pairwise _))
end

/-- The map and the list hold the same entries, one for each nonce. -/
structure Matched (c : NonceCache) : Prop where
  nodup : (c.order.map (·.nonce)).Nodup
  same : ∀ n e, c.items n = some e ↔ e ∈ c.order ∧ e.nonce = n

structure Consistent (c : NonceCache) : Prop extends Matched c where
  room : c.order.length ≤ c.max

variable {c : NonceCache} {e old : nonceEntry}

theorem Matched.eq_of_nonce (h : Matched c) {a b : nonceEntry} (ha : a ∈ c.order) (hb : b ∈ c.order) (he : a.nonce = b.nonce) : a = b :=
  List.inj_on_of_nodup_map h.nodup ha hb he

theorem Matched.without {order : List nonceEntry} (h : Matched c) (hsub : order.Sublist c.order)
    (hmem : ∀ a ∈ c.order, a ∈ order ↔ a.nonce ≠ e.nonce) :
    Matched { c with items := Function.update c.items e.nonce none, order := order } where
  nodup := h.nodup.sublist (hsub.map _)
  same n a := by
    show Function.update c.items e.nonce none n = some a ↔ a ∈ order ∧ a.nonce = n
    by_cases hn : n = e.nonce
    · subst hn
      rw [Function.update_self]
      refine ⟨nofun, fun ⟨ha, he⟩ => ?_⟩
      exact absurd he ((hmem a (hsub.subset ha)).1 ha)
    · rw [Function.update_of_ne hn, h.same]
      constructor
      · rintro ⟨ha, rfl⟩
        exact ⟨(hmem a ha).2 hn, rfl⟩
      · rintro ⟨ha, rfl⟩
        exact ⟨hsub.subset ha, rfl⟩

theorem Matched.remove (h : Matched c) (he : old ∈ c.order) : Matched (c.remove old) := by
  have hnd : c.order.Nodup := h.nodup.of_map _
  refine h.without List.erase_sublist fun a ha => ?_
  rw [hnd.mem_erase_iff]
  exact ⟨fun ⟨hne, _⟩ hn => hne (h.eq_of_nonce ha he hn), fun hn => ⟨fun he => hn (congrArg _ he), ha⟩⟩

theorem Matched.dropBack (h : Matched c) : Matched c.dropBack := by
  unfold NonceCache.dropBack
  cases hl : c.order.getLast? with
  | none => exact h
  | some old =>
    have hsplit : c.order.dropLast ++ [old] = c.order := List.dropLast_append_getLast? old hl
    have hnd := h.nodup
    rw [← hsplit, List.map_append, List.nodup_append] at hnd
    refine h.without (List.dropLast_sublist _) fun a ha => ⟨fun hd => ?_, fun hn => ?_⟩
    · exact hnd.2.2 _ (List.mem_map_of_mem hd) _ (List.mem_singleton_self _)
    · rw [← hsplit] at ha
      rcases List.mem_append.1 ha with hd | hd
      · exact hd
      · exact absurd (congrArg nonceEntry.nonce (List.mem_singleton.1 hd)) hn

theorem length_dropBack (c : NonceCache) : c.dropBack.order.length = c.order.length - 1 := by
  unfold NonceCache.dropBack
  cases hl : c.order.getLast? with
  | none => rw [List.getLast?_eq_none_iff.1 hl]; rfl
  | some old => exact List.length_dropLast

theorem Matched.front (h : Matched c) (he : c.items e.nonce = none) :
    Matched { c with items := Function.update c.items e.nonce (some e), order := e :: c.order } where
  nodup := by
    refine List.nodup_cons.2 ⟨fun hmem => ?_, h.nodup⟩
    obtain ⟨a, ha, hn⟩ := List.mem_map.1 hmem
    exact absurd ((h.same _ a).2 ⟨ha, hn⟩) (by rw [he]; exact nofun)
  same n a := by
    show Function.update c.items e.nonce (some e) n = some a ↔ a ∈ e :: c.order ∧ a.nonce = n
    rw [List.mem_cons]
    by_cases hn : n = e.nonce
    · subst hn
      rw [Function.update_self]
      constructor
      · intro h
        obtain rfl := Option.some.inj h
        exact ⟨.inl rfl, rfl⟩
      · rintro ⟨rfl | ha, hn⟩
        · rfl
        · exact absurd ((h.same _ a).2 ⟨ha, hn⟩) (by rw [he]; exact nofun)
    · rw [Function.update_of_ne hn, h.same]
      constructor
      · rintro ⟨ha, rfl⟩
        exact ⟨.inr ha, rfl⟩
      · rintro ⟨rfl | ha, hn'⟩
        · exact absurd hn'.symm hn
        · exact ⟨ha, hn'⟩

@[simp] theorem max_dropBack (c : NonceCache) : c.dropBack.max = c.max := by
  unfold NonceCache.dropBack
  cases c.order.getLast? <;> rfl

theorem Matched.rounds (h : Matched c) (k : Nat) : Matched (NonceCache.dropBack^[k] c) ∧
    (NonceCache.dropBack^[k] c).order.length = c.order.length - k ∧ (NonceCache.dropBack^[k] c).max = c.max := by
  induction k generalizing c with
  | zero => exact ⟨h, rfl, rfl⟩
  | succ k ih =>
    obtain ⟨hm, hlen, hmax⟩ := ih h.dropBack
    rw [Function.iterate_succ_apply]
    refine ⟨hm, ?_, by rw [hmax, max_dropBack]⟩
    rw [hlen, length_dropBack]
    omega

theorem Matched.push (h : Matched c) (he : c.items e.nonce = none) : Consistent (c.push e) ∧ (c.push e).max = c.max := by
  obtain ⟨hm, hlen, hmax⟩ := (h.front he).rounds ((e :: c.order).length - c.max)
  refine ⟨⟨hm, ?_⟩, hmax⟩
  show _ ≤ (c.push e).max
  rw [NonceCache.push, hmax, hlen]
  show (e :: c.order).length - _ ≤ c.max
  omega

section
variable {sha256 : Bytes → Bytes} {NonceTTL : Int} {x : Check}

theorem check_cases (sha256 : Bytes → Bytes) (NonceTTL : Int) (h : Matched c) (x : Check) :
    (∃ e ∈ c.order, e.nonce = x.nonce ∧ x.now < e.expires ∧ check sha256 NonceTTL c x = (decide (e.digest = sha256 x.body), c)) ∨
    ∃ c', check sha256 NonceTTL c x = (true, c'.push ⟨x.nonce, sha256 x.body, x.now + NonceTTL⟩) ∧ c'.items x.nonce = none ∧ c'.max = c.max ∧
      (c' = c ∨ ∃ old ∈ c.order, old.nonce = x.nonce ∧ old.expires ≤ x.now ∧ c' = c.remove old) := by
  unfold check
  cases hit : c.items x.nonce with
  | none => exact .inr ⟨c, rfl, hit, rfl, .inl rfl⟩
  | some old =>
    obtain ⟨hold, hn⟩ := (h.same _ old).1 hit
    by_cases hlive : x.now < old.expires
    · exact .inl ⟨old, hold, hn, hlive, if_pos hlive⟩
    · refine .inr ⟨c.remove old, if_neg hlive, ?_, rfl, .inr ⟨old, hold, hn, by omega, rfl⟩⟩
      show Function.update c.items old.nonce none x.nonce = none
      rw [hn, Function.update_self]

theorem Consistent.check (h : Consistent c) (x : Check) :
    Consistent (check sha256 NonceTTL c x).2 ∧ (Nonces.check sha256 NonceTTL c x).2.max = c.max := by
  obtain ⟨e, -, -, -, heq⟩ | ⟨c', heq, hnone, hmax, hc⟩ := check_cases sha256 NonceTTL h.toMatched x
  · rw [heq]
    exact ⟨h, rfl⟩
  · have hm : Matched c' := by
      obtain rfl | ⟨old, hold, -, -, rfl⟩ := hc
      · exact h.toMatched
      · exact h.toMatched.remove hold
    rw [heq, ← hmax]
    exact hm.push hnone

theorem run_concat (max : Nat) (ops : List Check) (x : Check) :
    run sha256 NonceTTL max (ops ++ [x]) = (check sha256 NonceTTL (run sha256 NonceTTL max ops) x).2 := by
  rw [run, List.foldl_concat]
  rfl

theorem consistent_run (max : Nat) (ops : List Check) :
    Consistent (run sha256 NonceTTL max ops) ∧ (run sha256 NonceTTL max ops).max = max := by
  induction ops using List.reverseRecOn with
  | nil => exact ⟨⟨⟨List.nodup_nil, fun n e => ⟨nofun, fun h => absurd h.1 List.not_mem_nil⟩⟩, Nat.zero_le _⟩, rfl⟩
  | append_singleton ops x ih =>
    rw [run_concat]
    exact ⟨(ih.1.check x).1, (ih.1.check x).2.trans ih.2⟩

theorem memory_concat (ops : List Check) (x : Check) : memory NonceTTL (ops ++ [x]) = remember NonceTTL (memory NonceTTL ops) x :=
  List.foldl_concat ..

theorem mem_of_memory {ops : List Check} {n : Bytes} {s : Check} (h : memory NonceTTL ops n = some s) : s ∈ ops ∧ s.nonce = n := by
  induction ops using List.reverseRecOn with
  | nil => cases h
  | append_singleton ops x ih =>
    rw [memory_concat, remember] at h
    split_ifs at h with hlive
    · exact ⟨List.mem_append_left _ (ih h).1, (ih h).2⟩
    · by_cases hn : n = x.nonce
      · subst hn
        rw [Function.update_self] at h
        obtain rfl := Option.some.inj h
        exact ⟨List.mem_append_right _ (List.mem_singleton_self _), rfl⟩
      · rw [Function.update_of_ne hn] at h
        exact ⟨List.mem_append_left _ (ih h).1, (ih h).2⟩

theorem length_le_of_live {ops : List Check} {now : Int} {l : List Bytes} (hl : l.Nodup) (h : ∀ n ∈ l, Live NonceTTL (memory NonceTTL ops) now n) :
    l.length ≤ (liveNonces NonceTTL ops now).length := by
  refine (List.subperm_of_subset hl fun n hn => ?_).length_le
  obtain ⟨s, hs, hlt⟩ := h n hn
  refine List.mem_filter.2 ⟨List.mem_dedup.2 (List.mem_map.2 ⟨s, mem_of_memory hs⟩), decide_eq_true ⟨s, hs, hlt⟩⟩

structure Recalls (sha256 : Bytes → Bytes) (NonceTTL : Int) (c : NonceCache) (m : Memory) (now : Int) : Prop extends Matched c where
  known : ∀ e ∈ c.order, ∃ s, m e.nonce = some s ∧ e.digest = sha256 s.body ∧ e.expires = s.now + NonceTTL
  kept : ∀ n, Live NonceTTL m now n → ∃ e ∈ c.order, e.nonce = n
  sorted : c.order.Pairwise fun a b => b.expires ≤ a.expires
  past : ∀ e ∈ c.order, e.expires ≤ now + NonceTTL

variable {m : Memory} {now now' : Int} {c' : NonceCache}

theorem Recalls.mono (h : Recalls sha256 NonceTTL c m now) (hle : now ≤ now') : Recalls sha256 NonceTTL c m now' where
  toMatched := h.toMatched
  known := h.known
  kept n := by
    rintro ⟨s, hs, hlt⟩
    exact h.kept n ⟨s, hs, by omega⟩
  sorted := h.sorted
  past e he := (h.past e he).trans (by omega)

theorem Recalls.without (h : Recalls sha256 NonceTTL c m now) (hm : Matched c') (hsub : c'.order.Sublist c.order)
    (hexp : ∀ e ∈ c.order, e ∉ c'.order → e.expires ≤ now) : Recalls sha256 NonceTTL c' m now where
  toMatched := hm
  known e he := h.known e (hsub.subset he)
  kept n := by
    rintro ⟨s, hs, hlt⟩
    obtain ⟨e, he, rfl⟩ := h.kept n ⟨s, hs, hlt⟩
    refine ⟨e, by_contra fun hne => ?_, rfl⟩
    obtain ⟨s', hs', -, hexpires⟩ := h.known e he
    obtain rfl := Option.some.inj (hs.symm.trans hs')
    have := hexp e he hne
    omega
  sorted := h.sorted.sublist hsub
  past e he := h.past e (hsub.subset he)

theorem Recalls.front (h : Recalls sha256 NonceTTL c m x.now) (hnone : c.items x.nonce = none) :
    Recalls sha256 NonceTTL { c with items := Function.update c.items x.nonce (some ⟨x.nonce, sha256 x.body, x.now + NonceTTL⟩)
                                     order := ⟨x.nonce, sha256 x.body, x.now + NonceTTL⟩ :: c.order }
      (Function.update m x.nonce (some x)) x.now where
  toMatched := h.toMatched.front (e := ⟨x.nonce, sha256 x.body, x.now + NonceTTL⟩) hnone
  known e he := by
    rcases List.mem_cons.1 he with rfl | he
    · exact ⟨x, Function.update_self .., rfl, rfl⟩
    · have hne : e.nonce ≠ x.nonce := by
        intro hn
        exact absurd ((h.same _ e).2 ⟨he, hn⟩) (by rw [hnone]; exact nofun)
      rw [Function.update_of_ne hne]
      exact h.known e he
  kept n := by
    rintro ⟨s, hs, hlt⟩
    by_cases hn : n = x.nonce
    · exact ⟨_, List.mem_cons_self, hn.symm⟩
    · rw [Function.update_of_ne hn] at hs
      obtain ⟨e, he, hen⟩ := h.kept n ⟨s, hs, hlt⟩
      exact ⟨e, List.mem_cons_of_mem _ he, hen⟩
  sorted := List.pairwise_cons.2 ⟨h.past, h.sorted⟩
  past e he := by
    rcases List.mem_cons.1 he with rfl | he
    · exact le_rfl
    · exact h.past e he

theorem Recalls.live_of_last (h : Recalls sha256 NonceTTL c m now) {old : nonceEntry} (hl : c.order.getLast? = some old) (hlive : now < old.expires) :
    ∀ n ∈ c.order.map (·.nonce), Live NonceTTL m now n := by
  intro n hn
  obtain ⟨e, he, rfl⟩ := List.mem_map.1 hn
  obtain ⟨s, hs, -, hexp⟩ := h.known e he
  refine ⟨s, hs, ?_⟩
  have hsplit : c.order.dropLast ++ [old] = c.order := List.dropLast_append_getLast? old hl
  have hsorted := h.sorted
  rw [← hsplit] at he hsorted
  have hle : old.expires ≤ e.expires := by
    rcases List.mem_append.1 he with he | he
    · exact (List.pairwise_append.1 hsorted).2.2 e he old (List.mem_singleton_self _)
    · rw [List.mem_singleton.1 he]
  omega

theorem Recalls.push (h : Recalls sha256 NonceTTL c m x.now) (hnone : c.items x.nonce = none) (hroom : c.order.length ≤ c.max)
    (hfit : ∀ l : List Bytes, l.Nodup → (∀ n ∈ l, Live NonceTTL (Function.update m x.nonce (some x)) x.now n) → l.length ≤ c.max) :
    Recalls sha256 NonceTTL (c.push ⟨x.nonce, sha256 x.body, x.now + NonceTTL⟩) (Function.update m x.nonce (some x)) x.now := by
  have hfront := h.front hnone
  unfold NonceCache.push
  show Recalls _ _ (NonceCache.dropBack^[c.order.length + 1 - c.max] _) _ _
  rcases Nat.lt_or_ge c.order.length c.max with hlt | hge
  · rw [Nat.sub_eq_zero_of_le hlt]
    exact hfront
  · obtain hone : c.order.length + 1 - c.max = 1 := by omega
    rw [hone, Function.iterate_one]
    generalize hc : ({ c with items := _, order := _ } : NonceCache) = c₁ at hfront ⊢
    have hlen : c₁.order.length = c.max + 1 := by
      rw [← hc]
      show c.order.length + 1 = _
      omega
    obtain ⟨old, hl⟩ : ∃ old, c₁.order.getLast? = some old := by
      cases hl : c₁.order.getLast? with
      | none => rw [List.getLast?_eq_none_iff.1 hl] at hlen; cases hlen
      | some old => exact ⟨old, rfl⟩
    have hexp : old.expires ≤ x.now := by
      refine Int.not_lt.1 fun hlive => ?_
      have := hfit _ hfront.nodup (hfront.live_of_last hl hlive)
      rw [List.length_map] at this
      omega
    have hdrop : c₁.dropBack.order = c₁.order.dropLast := by
      rw [NonceCache.dropBack, hl]
    refine hfront.without hfront.dropBack (hdrop ▸ List.dropLast_sublist _) fun e he hne => ?_
    rw [hdrop] at hne
    rw [← List.dropLast_append_getLast? old hl] at he
    rcases List.mem_append.1 he with he | he
    · exact absurd he hne
    · rwa [List.mem_singleton.1 he]

theorem Recalls.answer (h : Recalls sha256 NonceTTL c m x.now) {s : Check} (hs : m x.nonce = some s) (hlt : x.now < s.now + NonceTTL) :
    (check sha256 NonceTTL c x).1 = decide (sha256 s.body = sha256 x.body) := by
  obtain ⟨e, he, hn⟩ := h.kept _ ⟨s, hs, hlt⟩
  obtain ⟨s', hs', hdig, hexp⟩ := h.known e he
  rw [hn] at hs'
  obtain rfl := Option.some.inj (hs.symm.trans hs')
  rw [check, (h.same _ e).2 ⟨he, hn⟩]
  show (if x.now < e.expires then _ else _ : Bool × NonceCache).1 = _
  rw [if_pos (by omega), hdig]

theorem Recalls.check (h : Recalls sha256 NonceTTL c m x.now) (hroom : c.order.length ≤ c.max)
    (hfit : ∀ l : List Bytes, l.Nodup → (∀ n ∈ l, Live NonceTTL (remember NonceTTL m x) x.now n) → l.length ≤ c.max) :
    Recalls sha256 NonceTTL (check sha256 NonceTTL c x).2 (remember NonceTTL m x) x.now := by
  obtain ⟨e, he, hn, hlt, heq⟩ | ⟨c', heq, hnone, hmax, hc⟩ := check_cases sha256 NonceTTL h.toMatched x
  · obtain ⟨s, hs, -, hexp⟩ := h.known e he
    have hlive : Live NonceTTL m x.now x.nonce := ⟨s, hn ▸ hs, by omega⟩
    rw [heq, remember, if_pos hlive]
    exact h
  · have hdead : ¬ Live NonceTTL m x.now x.nonce := by
      intro hlive
      obtain ⟨e, he, hn⟩ := h.kept _ hlive
      have hitem := (h.same _ e).2 ⟨he, hn⟩
      obtain rfl | ⟨old, hold, hno, hexp, -⟩ := hc
      · rw [hnone] at hitem
        cases hitem
      · obtain rfl := h.toMatched.eq_of_nonce he hold (hn.trans hno.symm)
        obtain ⟨s, hs, hlt⟩ := hlive
        obtain ⟨s', hs', -, hexp'⟩ := h.known e he
        rw [hn] at hs'
        obtain rfl := Option.some.inj (hs.symm.trans hs')
        omega
    rw [remember, if_neg hdead] at hfit ⊢
    rw [heq]
    obtain rfl | ⟨old, hold, -, hexp, rfl⟩ := hc
    · exact h.push hnone hroom hfit
    · have hsub : (c.remove old).order.Sublist c.order := List.erase_sublist
      refine (h.without (h.toMatched.remove hold) hsub fun e he hne => ?_).push hnone (hsub.length_le.trans hroom) hfit
      have heq : e = old := by_contra fun hne' => hne ((List.mem_erase_of_ne hne').2 he)
      rwa [heq]

theorem recalls_run {max : Nat} {ops : List Check} (htime : Timely ops) (hfit : Fits NonceTTL max ops) (hnow : ∀ x ∈ ops, x.now ≤ now) :
    Recalls sha256 NonceTTL (run sha256 NonceTTL max ops) (memory NonceTTL ops) now := by
  induction ops using List.reverseRecOn generalizing now with
  | nil =>
    obtain ⟨hc, -⟩ : Consistent (run sha256 NonceTTL max []) ∧ _ := consistent_run max []
    exact ⟨hc.toMatched, nofun, fun _ ⟨_, hs, _⟩ => (nomatch hs), .nil, nofun⟩
  | append_singleton ops x ih =>
    obtain ⟨hops, -, hlast⟩ := List.pairwise_append.1 htime
    have hbefore : ∀ y ∈ ops, y.now ≤ x.now := fun y hy => hlast y hy x (List.mem_singleton_self _)
    have hpre : Fits NonceTTL max ops := fun pre hp => hfit pre (List.mem_inits _ _ |>.2 ((List.mem_inits _ _ |>.1 hp).trans (List.prefix_append ..)))
    obtain ⟨hc, hmax⟩ : Consistent (run sha256 NonceTTL max ops) ∧ _ := consistent_run max ops
    have hstep := (ih hops hpre hbefore).check hc.room fun l hl hlive => by
      rw [← memory_concat] at hlive
      rw [hmax]
      exact (length_le_of_live hl hlive).trans (hfit _ (List.mem_inits _ _ |>.2 List.prefix_rfl) x (by simp))
    rw [run_concat, memory_concat]
    exact hstep.mono (hnow x (by simp))

/-- Always the map and the list hold the same nonces, at most as many as the capacity. As long as the clock does not go back and the live nonces
fit, a live nonce is accepted with the body its lifetime began with, and with no other unless the two bodies have one digest. -/
theorem nonce_bound (sha256 : Bytes → Bytes) (NonceTTL : Int) (max : Nat) (ops : List Check) :
    Matched (run sha256 NonceTTL max ops) ∧ (run sha256 NonceTTL max ops).order.length ≤ max ∧
    ∀ x s, Timely (ops ++ [x]) → Fits NonceTTL max ops → memory NonceTTL ops x.nonce = some s → x.now < s.now + NonceTTL →
      (sha256 s.body = sha256 x.body → s.body = x.body) →
      ((check sha256 NonceTTL (run sha256 NonceTTL max ops) x).1 = true ↔ x.body = s.body) := by
  obtain ⟨hc, hmax⟩ : Consistent (run sha256 NonceTTL max ops) ∧ _ := consistent_run max ops
  refine ⟨hc.toMatched, hc.room.trans hmax.le, fun x s htime hfit hs hlt hsha => ?_⟩
  obtain ⟨hops, -, hlast⟩ := List.pairwise_append.1 htime
  have hrec : Recalls sha256 NonceTTL (run sha256 NonceTTL max ops) (memory NonceTTL ops) x.now :=
    recalls_run hops hfit fun y hy => hlast y hy x (List.mem_singleton_self _)
  rw [hrec.answer hs hlt, decide_eq_true_iff]
  exact ⟨fun h => (hsha h).symm, fun h => by rw [h]⟩

end

/-- In a cache for two, the third nonce takes the place of one that has expired. -/
theorem nonce_bound_three :
    (check id 10 (run id 10 2 [⟨str "a", str "x", 0⟩, ⟨str "b", str "y", 5⟩, ⟨str "c", str "z", 12⟩]) ⟨str "b", str "w", 13⟩).1 = true ↔
      str "w" = str "y" :=
  (nonce_bound id 10 2 [⟨str "a", str "x", 0⟩, ⟨str "b", str "y", 5⟩, ⟨str "c", str "z", 12⟩]).2.2 ⟨str "b", str "w", 13⟩ ⟨str "b", str "y", 5⟩
    (by decide) (by decide) (by decide) (by decide) id

/-- A check at an earlier time leaves an entry that expires first in front of one that is live: the live one is dropped. -/
theorem clock_back :
    let ops : List Check := [⟨str "a", str "x", 15⟩, ⟨str "b", str "y", 0⟩, ⟨str "c", str "z", 11⟩]
    let x : Check := ⟨str "a", str "w", 12⟩
    Fits 10 2 (ops ++ [x]) ∧ memory 10 ops x.nonce = some ⟨str "a", str "x", 15⟩ ∧ x.now < 15 + 10 ∧
      (check id 10 (run id 10 2 ops) x).1 = true ∧ x.body ≠ str "x" := by
  decide

end Nonces
