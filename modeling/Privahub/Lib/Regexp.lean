import Privahub.Lib.Bytes

/-!
# Leftmost-first regular expressions without alternatives

A pattern is a sequence of pieces; a starred class takes as many bytes as it can or, when lazy, as few,
and gives back what the rest of the pattern needs, in that order of preference (`starRun`). `find`
returns the text of the group that ends the pattern, at the leftmost position where all of it matches.
A class is one of bytes: the bytes of a multi-byte rune and the bytes that are no rune are all outside
ASCII, so a class of ASCII runes or its complement means the same byte by byte.
-/

namespace Regexp

inductive Piece where
  | byte (b : UInt8)
  | opt (b : UInt8)
  | one (p : UInt8 → Bool)
  | star (p : UInt8 → Bool) (greedy : Bool)

variable {R : Type}

def starRun (p : UInt8 → Bool) (greedy : Bool) (k : Bytes → Option R) : Bytes → Option R
  | [] => k []
  | a :: s =>
    if p a then
      if greedy then (starRun p greedy k s).orElse fun _ => k (a :: s)
      else (k (a :: s)).orElse fun _ => starRun p greedy k s
    else k (a :: s)

/-- The pieces in turn, then `k` on what is left. -/
def run : List Piece → (Bytes → Option R) → Bytes → Option R
  | [], k, s => k s
  | .byte b :: ps, k, s =>
    match s with
    | a :: t => if a = b then run ps k t else none
    | [] => none
  | .opt b :: ps, k, s =>
    match s with
    | a :: t => if a = b then (run ps k t).orElse fun _ => run ps k s else run ps k s
    | [] => run ps k []
  | .one p :: ps, k, s =>
    match s with
    | a :: t => if p a then run ps k t else none
    | [] => none
  | .star p greedy :: ps, k, s => starRun p greedy (run ps k) s

def group (ps : List Piece) (s : Bytes) : Option Bytes := run ps (fun rest => some (s.take (s.length - rest.length))) s

def matchHere (ps g : List Piece) (s : Bytes) : Option Bytes := run ps (group g) s

def find (ps g : List Piece) : Bytes → Option Bytes
  | [] => matchHere ps g []
  | a :: s => (matchHere ps g (a :: s)).orElse fun _ => find ps g s

def literal (s : Bytes) : List Piece := s.map .byte

variable {p : UInt8 → Bool} {k : Bytes → Option R} {w rest : Bytes} {r : R}

theorem starRun_greedy (hw : ∀ a ∈ w, p a) (hr : ∀ a ∈ rest.head?, p a = false) (hk : k rest = some r) :
    starRun p true k (w ++ rest) = some r := by
  induction w with
  | nil =>
    cases rest with
    | nil => exact hk
    | cons a t => rw [List.nil_append, starRun, hr a rfl]; exact hk
  | cons a w ih =>
    rw [List.cons_append, starRun, if_pos (hw a (List.mem_cons_self ..)), if_pos rfl,
      ih fun b hb => hw b (List.mem_cons_of_mem _ hb)]
    rfl

theorem starRun_lazy (hw : ∀ a ∈ w, p a) (hno : ∀ a ∈ w, ∀ t, k (a :: t) = none) (hk : k rest = some r) :
    starRun p false k (w ++ rest) = some r := by
  induction w with
  | nil =>
    cases rest with
    | nil => exact hk
    | cons a t =>
      rw [List.nil_append, starRun]
      by_cases hp : p a
      · rw [if_pos hp, if_neg Bool.false_ne_true, hk]; rfl
      · rw [if_neg hp, hk]
  | cons a w ih =>
    rw [List.cons_append, starRun, if_pos (hw a (List.mem_cons_self ..)), if_neg Bool.false_ne_true,
      hno a (List.mem_cons_self ..)]
    exact ih (fun b hb => hw b (List.mem_cons_of_mem _ hb)) fun b hb => hno b (List.mem_cons_of_mem _ hb)

theorem run_literal (s : Bytes) (ps : List Piece) : run (literal s ++ ps) k (s ++ rest) = run ps k rest := by
  induction s with
  | nil => rfl
  | cons a s ih => simpa [literal, run] using ih

theorem run_byte_ne {a b : UInt8} (h : a ≠ b) (ps : List Piece) (t : Bytes) : run (.byte b :: ps) k (a :: t) = none := if_neg h

theorem find_skip {b : UInt8} {ps g : List Piece} (hw : ∀ a ∈ w, a ≠ b) {x : Bytes}
    (h : find (.byte b :: ps) g rest = some x) : find (.byte b :: ps) g (w ++ rest) = some x := by
  induction w with
  | nil => exact h
  | cons a w ih =>
    rw [List.cons_append, find, matchHere, run_byte_ne (hw a (List.mem_cons_self ..))]
    exact ih fun c hc => hw c (List.mem_cons_of_mem _ hc)

theorem find_here {ps g : List Piece} {s x : Bytes} (h : matchHere ps g s = some x) : find ps g s = some x := by
  cases s with
  | nil => exact h
  | cons a s => rw [find, h]; rfl

theorem group_eq {ps : List Piece} {x : Bytes} (h : ∀ k : Bytes → Option Bytes, ∀ y, k rest = some y → run ps k (x ++ rest) = some y) :
    group ps (x ++ rest) = some x := by
  refine h _ _ ?_
  simp

end Regexp
