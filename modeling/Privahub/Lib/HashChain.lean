import Mathlib.Data.List.Basic
import Mathlib.Data.List.Induction
import Mathlib.Data.List.Pairwise
import Mathlib.Tactic.Common
import Mathlib.Tactic.Ring

/-!
# Hash-linked lists of numbered records

`Linked n h rs`: the records `rs` continue a chain whose last number is `n` and whose last hash is
`h`: they are numbered `n + 1, n + 2, …`, every record carries the hash of the one before it, and
every record's stored hash is the digest of its content. `Linked.body_eq` is the reason such a
chain is tamper evident: two chains of one length with the same last hash agree in everything the
digest covers, when the digest is injective on their records.
-/

namespace HashChain

universe u v w

/-- How a record type stores its number, its link and its hash, and what its hash should be. -/
structure Scheme (R : Type u) (H : Type v) where
  seq : R → Int
  prev : R → H
  hash : R → H
  digest : R → H

variable {R : Type u} {H : Type v} {B : Type w} (S : Scheme R H)

/-- `rs` continues a chain that ends with number `n` and hash `h`. -/
def Linked : Int → H → List R → Prop
  | _, _, [] => True
  | n, h, r :: rs => S.seq r = n + 1 ∧ S.prev r = h ∧ S.hash r = S.digest r ∧ Linked (n + 1) (S.hash r) rs

/-- The hash a chain with last hash `h` ends with after `rs`. -/
def lastHash : H → List R → H
  | h, [] => h
  | _, r :: rs => lastHash (S.hash r) rs

variable {S} {n : Int} {h h' : H} {rs ss : List R} {r : R}

@[simp] theorem linked_nil : Linked S n h [] := trivial

@[simp] theorem lastHash_nil : lastHash S h [] = h := rfl

@[simp] theorem lastHash_cons : lastHash S h (r :: rs) = lastHash S (S.hash r) rs := rfl

@[simp] theorem lastHash_append : lastHash S h (rs ++ ss) = lastHash S (lastHash S h rs) ss := by
  induction rs generalizing h with
  | nil => rfl
  | cons r rs ih => exact ih

theorem lastHash_eq : lastHash S h rs = (rs.getLast?.map S.hash).getD h := by
  induction rs using List.reverseRecOn with
  | nil => rfl
  | append_singleton rs r _ => simp

theorem lastHash_concat : lastHash S h (rs ++ [r]) = S.hash r := by simp

theorem linked_append :
    Linked S n h (rs ++ ss) ↔ Linked S n h rs ∧ Linked S (n + rs.length) (lastHash S h rs) ss := by
  induction rs generalizing n h with
  | nil => simp
  | cons r rs ih =>
    simp only [List.cons_append, Linked, ih, lastHash_cons, List.length_cons]
    rw [show n + 1 + (rs.length : Int) = n + ((rs.length + 1 : Nat) : Int) by push_cast; ring]
    simp only [and_assoc]

namespace Linked

theorem seq_getElem (hl : Linked S n h rs) {i : Nat} (hi : i < rs.length) : S.seq rs[i] = n + 1 + i := by
  induction rs generalizing n h i with
  | nil => simp at hi
  | cons r rs ih =>
    cases i with
    | zero => simpa using hl.1
    | succ i =>
      have := ih hl.2.2.2 (i := i) (by simpa using hi)
      simp only [List.getElem_cons_succ, this]; push_cast; ring

theorem seq_getLast? (hl : Linked S n h rs) (hr : rs.getLast? = some r) : S.seq r = n + rs.length := by
  obtain ⟨ss, rfl⟩ := List.getLast?_eq_some_iff.1 hr
  have := hl.seq_getElem (i := ss.length) (by simp)
  rw [List.getElem_concat_length rfl] at this
  rw [this, List.length_append, List.length_singleton]; push_cast; ring

theorem seq_of_mem (hl : Linked S n h rs) (hr : r ∈ rs) : n < S.seq r ∧ S.seq r ≤ n + rs.length := by
  obtain ⟨i, hi, rfl⟩ := List.getElem_of_mem hr
  rw [hl.seq_getElem hi]; omega

theorem digest_of_mem (hl : Linked S n h rs) (hr : r ∈ rs) : S.hash r = S.digest r := by
  induction rs generalizing n h with
  | nil => simp at hr
  | cons s rs ih =>
    rcases List.mem_cons.1 hr with rfl | hr
    · exact hl.2.2.1
    · exact ih hl.2.2.2 hr

theorem pairwise_seq (hl : Linked S n h rs) : rs.Pairwise fun a b => S.seq a < S.seq b := by
  induction rs generalizing n h with
  | nil => simp
  | cons r rs ih =>
    refine List.pairwise_cons.2 ⟨fun b hb => ?_, ih hl.2.2.2⟩
    have := (hl.2.2.2.seq_of_mem hb).1
    rw [hl.1]; exact this

theorem exists_seq (hl : Linked S n h rs) {k : Int} (h1 : n < k) (h2 : k ≤ n + rs.length) :
    ∃ r ∈ rs, S.seq r = k := by
  have hi : (k - n - 1).toNat < rs.length := by omega
  exact ⟨_, List.getElem_mem hi, by rw [hl.seq_getElem hi]; omega⟩

theorem eq_of_seq_eq (hl : Linked S n h rs) {a b : R} (ha : a ∈ rs) (hb : b ∈ rs)
    (he : S.seq a = S.seq b) : a = b := by
  obtain ⟨i, hi, rfl⟩ := List.getElem_of_mem ha
  obtain ⟨j, hj, rfl⟩ := List.getElem_of_mem hb
  rw [hl.seq_getElem hi, hl.seq_getElem hj] at he
  have : i = j := by omega
  subst this; rfl

theorem lastHash_take (hl : Linked S n h rs) (hr : r ∈ rs) :
    lastHash S h (rs.take (S.seq r - n).toNat) = S.hash r := by
  obtain ⟨i, hi, rfl⟩ := List.getElem_of_mem hr
  rw [hl.seq_getElem hi, show (n + 1 + (i : Int) - n).toNat = i + 1 by omega,
    List.take_succ_eq_append_getElem hi, lastHash_concat]

theorem prev_getElem (hl : Linked S n h rs) {i : Nat} (hi : i < rs.length) :
    S.prev rs[i] = if i = 0 then h else S.hash rs[i - 1] := by
  induction rs generalizing n h i with
  | nil => simp at hi
  | cons r rs ih =>
    cases i with
    | zero => exact hl.2.1
    | succ i =>
      rw [List.getElem_cons_succ, ih hl.2.2.2 (by simpa using hi)]
      cases i <;> rfl

theorem filter_seq (hl : Linked S n h rs) (i j : Nat) :
    (rs.filter fun r => decide (n + i < S.seq r) && decide (S.seq r ≤ n + j)) = (rs.take j).drop i := by
  have hlt : ∀ {l : List R}, (l.Pairwise fun a b => S.seq a < S.seq b) → l.Nodup := fun h =>
    h.imp fun hlt he => by rw [he] at hlt; omega
  have hs := hl.pairwise_seq
  have hs' : ((rs.take j).drop i).Pairwise fun a b => S.seq a < S.seq b :=
    hs.sublist ((List.drop_sublist ..).trans (List.take_sublist ..))
  refine ((List.perm_ext_iff_of_nodup (hlt (hs.filter _)) (hlt hs')).2 fun r => ?_).eq_of_pairwise
    (fun a b _ _ hab hba => by omega) (hs.filter _) hs'
  simp only [List.mem_filter, Bool.and_eq_true, decide_eq_true_eq]
  constructor
  · rintro ⟨hr, h1, h2⟩
    obtain ⟨m, hm, rfl⟩ := List.getElem_of_mem hr
    rw [hl.seq_getElem hm] at h1 h2
    exact List.mem_drop_iff_getElem.2 ⟨m - i, by rw [List.length_take]; omega, by
      simp only [List.getElem_take, show i + (m - i) = m by omega]⟩
  · intro hr
    obtain ⟨m, hm, rfl⟩ := List.mem_drop_iff_getElem.1 hr
    rw [List.length_take] at hm
    rw [List.getElem_take, hl.seq_getElem (by omega)]
    exact ⟨List.getElem_mem _, by omega, by omega⟩

theorem body_eq {body : R → B} (hprev : ∀ a b, body a = body b → S.prev a = S.prev b) {m : Int}
    (hr : Linked S n h rs) (hs : Linked S m h' ss) (hlen : rs.length = ss.length)
    (hinj : ∀ a ∈ rs, ∀ b ∈ ss, S.digest a = S.digest b → body a = body b)
    (hlast : lastHash S h rs = lastHash S h' ss) : rs.map body = ss.map body := by
  induction rs using List.reverseRecOn generalizing ss with
  | nil => rw [List.length_eq_zero_iff.1 hlen.symm]
  | append_singleton rs a ih =>
    rcases List.eq_nil_or_concat' ss with rfl | ⟨ss, b, rfl⟩
    · simp at hlen
    rw [lastHash_concat, lastHash_concat] at hlast
    have hdig : S.digest a = S.digest b := by
      rw [← hr.digest_of_mem (r := a) (by simp), ← hs.digest_of_mem (r := b) (by simp), hlast]
    have hab : body a = body b := hinj a (by simp) b (by simp) hdig
    obtain ⟨hr, ha⟩ := linked_append.1 hr
    obtain ⟨hs, hb⟩ := linked_append.1 hs
    have hih := ih hr hs (by simpa using hlen)
      (fun x hx y hy => hinj x (by simp [hx]) y (by simp [hy]))
      (ha.2.1.symm.trans ((hprev a b hab).trans hb.2.1))
    simp only [List.map_append, List.map_cons, List.map_nil, hih, hab]

end Linked

end HashChain
