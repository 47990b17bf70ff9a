import Mathlib.Data.List.Induction
import Privahub.Lib.Bytes

/-!
# Directories, files and symbolic links

A file system as its entries by their location, the names from the root down. `walk` resolves a path the way a kernel does: a link is
replaced by its target, `..` goes up from the directory that is reached, and only so many links are followed. `Walks` is what it does as a
relation, with the number of links that are followed (`walk_map_ok`): a path can be walked in two parts (`walks_append`), entries may be added
(`Walks.extends`), and what is reached is no link and lies in directories (`Walks.located`).
-/

namespace FileTree

inductive Entry
  | dir
  | file (content : Bytes)
  | other
  | link (target : Bytes)
  deriving DecidableEq

def dot : Bytes := [46]
def dotdot : Bytes := [46, 46]

structure NameOK (n : Bytes) : Prop where
  ne_nil : n ≠ []
  ne_dot : n ≠ dot
  ne_dotdot : n ≠ dotdot
  no_slash : 47 ∉ n
  no_nul : 0 ∉ n

instance (n : Bytes) : Decidable (NameOK n) :=
  decidable_of_iff (n ≠ [] ∧ n ≠ dot ∧ n ≠ dotdot ∧ 47 ∉ n ∧ 0 ∉ n)
    ⟨fun ⟨h1, h2, h3, h4, h5⟩ => ⟨h1, h2, h3, h4, h5⟩, fun ⟨h1, h2, h3, h4, h5⟩ => ⟨h1, h2, h3, h4, h5⟩⟩

/-- The root is a directory, and every other entry is in one. -/
structure Tree where
  node : List Bytes → Option Entry
  root : node [] = some .dir
  parent : ∀ p n, node (p ++ [n]) ≠ none → node p = some .dir
  name : ∀ p n, node (p ++ [n]) ≠ none → NameOK n

def elems : Bytes → List Bytes
  | [] => [[]]
  | b :: s => if b = 47 then [] :: elems s else match elems s with
    | [] => [[b]]
    | e :: es => (b :: e) :: es

inductive Errno
  | noent
  | notdir
  | loop
  deriving DecidableEq

def walkOn (t : Tree) (follow : List Bytes → List Bytes → Except Errno (List Bytes × Nat)) (left : Nat) :
    List Bytes → List Bytes → Except Errno (List Bytes × Nat)
  | loc, [] => .ok (loc, left)
  | loc, c :: cs =>
    if t.node loc ≠ some .dir then .error .notdir
    else if c = [] ∨ c = dot then walkOn t follow left loc cs
    else if c = dotdot then walkOn t follow left loc.dropLast cs
    else match t.node (loc ++ [c]) with
      | none => .error .noent
      | some (.link target) => follow (if target.head? = some 47 then [] else loc) (elems target ++ cs)
      | some _ => walkOn t follow left (loc ++ [c]) cs

def walk (t : Tree) : Nat → List Bytes → List Bytes → Except Errno (List Bytes × Nat)
  | 0 => walkOn t (fun _ _ => .error .loop) 0
  | n + 1 => walkOn t (walk t n) (n + 1)

/-- The path `cs` leads from `loc` to `m`, over so many links. -/
inductive Walks (t : Tree) : List Bytes → List Bytes → List Bytes → Nat → Prop
  | done (loc : List Bytes) : Walks t loc [] loc 0
  | stays {loc cs m : List Bytes} {c : Bytes} {k : Nat} (hdir : t.node loc = some .dir) (hc : c = [] ∨ c = dot) (h : Walks t loc cs m k) :
      Walks t loc (c :: cs) m k
  | up {loc cs m : List Bytes} {k : Nat} (hdir : t.node loc = some .dir) (h : Walks t loc.dropLast cs m k) : Walks t loc (dotdot :: cs) m k
  | down {loc cs m : List Bytes} {c : Bytes} {k : Nat} {e : Entry} (hdir : t.node loc = some .dir) (hc : c ≠ [] ∧ c ≠ dot ∧ c ≠ dotdot)
      (he : t.node (loc ++ [c]) = some e) (hlink : ∀ target, e ≠ .link target) (h : Walks t (loc ++ [c]) cs m k) : Walks t loc (c :: cs) m k
  | link {loc cs m : List Bytes} {c target : Bytes} {k : Nat} (hdir : t.node loc = some .dir) (hc : c ≠ [] ∧ c ≠ dot ∧ c ≠ dotdot)
      (he : t.node (loc ++ [c]) = some (.link target))
      (h : Walks t (if target.head? = some 47 then [] else loc) (elems target ++ cs) m k) : Walks t loc (c :: cs) m (k + 1)

variable {t t' : Tree} {n k left : Nat} {loc m cs as bs : List Bytes} {c : Bytes}

theorem walk_eq (n : Nat) : ∃ follow, walk t n = walkOn t follow n ∧ ∀ n', n = n' + 1 → follow = walk t n' := by
  cases n with
  | zero => exact ⟨_, rfl, nofun⟩
  | succ n => exact ⟨_, rfl, fun n' h => by rw [Nat.succ.inj h]⟩

theorem walk_nil : walk t n loc [] = .ok (loc, n) := by
  obtain ⟨follow, heq, -⟩ := walk_eq (t := t) n
  rw [heq, walkOn]

theorem walk_stays (hdir : t.node loc = some .dir) (hc : c = [] ∨ c = dot) : walk t n loc (c :: cs) = walk t n loc cs := by
  obtain ⟨follow, heq, -⟩ := walk_eq (t := t) n
  rw [heq, walkOn, if_neg (not_not.2 hdir), if_pos hc]

theorem walk_up (hdir : t.node loc = some .dir) : walk t n loc (dotdot :: cs) = walk t n loc.dropLast cs := by
  obtain ⟨follow, heq, -⟩ := walk_eq (t := t) n
  rw [heq, walkOn, if_neg (not_not.2 hdir), if_neg (by decide), if_pos rfl]

theorem walk_down {e : Entry} (hdir : t.node loc = some .dir) (hc : c ≠ [] ∧ c ≠ dot ∧ c ≠ dotdot) (he : t.node (loc ++ [c]) = some e)
    (hlink : ∀ target, e ≠ .link target) : walk t n loc (c :: cs) = walk t n (loc ++ [c]) cs := by
  obtain ⟨follow, heq, -⟩ := walk_eq (t := t) n
  rw [heq, walkOn, if_neg (not_not.2 hdir), if_neg (not_or.2 ⟨hc.1, hc.2.1⟩), if_neg hc.2.2, he]
  cases e with
  | link target => exact absurd rfl (hlink target)
  | _ => rfl

theorem walk_link {target : Bytes} (hdir : t.node loc = some .dir) (hc : c ≠ [] ∧ c ≠ dot ∧ c ≠ dotdot)
    (he : t.node (loc ++ [c]) = some (.link target)) :
    walk t (n + 1) loc (c :: cs) = walk t n (if target.head? = some 47 then [] else loc) (elems target ++ cs) := by
  show walkOn t (walk t n) (n + 1) loc (c :: cs) = _
  rw [walkOn, if_neg (not_not.2 hdir), if_neg (not_or.2 ⟨hc.1, hc.2.1⟩), if_neg hc.2.2, he]

theorem walk_of_walks (h : Walks t loc cs m k) : walk t (k + left) loc cs = .ok (m, left) := by
  induction h with
  | done loc => rw [walk_nil, Nat.zero_add]
  | stays hdir hc _ ih => rw [walk_stays hdir hc, ih]
  | up hdir _ ih => rw [walk_up hdir, ih]
  | down hdir hc he hlink _ ih => rw [walk_down hdir hc he hlink, ih]
  | link hdir hc he _ ih => rw [Nat.add_right_comm, walk_link hdir hc he, ih]

theorem walks_of_walkOn {follow : List Bytes → List Bytes → Except Errno (List Bytes × Nat)}
    (hfollow : ∀ loc cs, follow loc cs = .ok (m, left) → ∃ k, Walks t loc cs m k ∧ k + 1 + left = n)
    (h : walkOn t follow n loc cs = .ok (m, left)) : ∃ k, Walks t loc cs m k ∧ k + left = n := by
  induction cs generalizing loc with
  | nil =>
    obtain ⟨rfl, rfl⟩ := Prod.mk.inj (Except.ok.inj h)
    exact ⟨0, .done _, Nat.zero_add _⟩
  | cons c cs ih =>
    rw [walkOn] at h
    split_ifs at h with hdir hc hup
    · obtain ⟨k, hk, hn⟩ := ih h
      exact ⟨k, .stays (not_not.1 hdir) hc hk, hn⟩
    · obtain ⟨k, hk, hn⟩ := ih h
      exact ⟨k, hup ▸ .up (not_not.1 hdir) hk, hn⟩
    · have hne : c ≠ [] ∧ c ≠ dot ∧ c ≠ dotdot := ⟨(not_or.1 hc).1, (not_or.1 hc).2, hup⟩
      split at h
      · cases h
      · next target he =>
        obtain ⟨k, hk, hn⟩ := hfollow _ _ h
        exact ⟨k + 1, .link (not_not.1 hdir) hne he hk, hn⟩
      · next e hlink he =>
        obtain ⟨k, hk, hn⟩ := ih h
        exact ⟨k, .down (not_not.1 hdir) hne he hlink hk, hn⟩

theorem walks_of_walk (h : walk t n loc cs = .ok (m, left)) : ∃ k, Walks t loc cs m k ∧ k + left = n := by
  induction n generalizing loc cs with
  | zero =>
    have hon : walkOn t (fun _ _ => .error .loop) 0 loc cs = .ok (m, left) := h
    refine walks_of_walkOn ?_ hon
    exact nofun
  | succ n ih =>
    refine walks_of_walkOn (fun loc cs hfollow => ?_) h
    obtain ⟨k, hk, hn⟩ := ih hfollow
    exact ⟨k, hk, by rw [Nat.add_right_comm, hn]⟩

theorem walk_map_ok : (walk t n loc cs).map Prod.fst = .ok m ↔ ∃ k, k ≤ n ∧ Walks t loc cs m k := by
  refine ⟨fun h => ?_, fun ⟨k, hk, h⟩ => ?_⟩
  · cases hwalk : walk t n loc cs with
    | error e =>
      rw [hwalk] at h
      cases h
    | ok r =>
      rw [hwalk] at h
      obtain rfl := Except.ok.inj h
      obtain ⟨k, hk, hn⟩ := walks_of_walk hwalk
      exact ⟨k, hn ▸ Nat.le_add_right k _, hk⟩
  · obtain ⟨left, rfl⟩ := Nat.exists_eq_add_of_le hk
    rw [walk_of_walks h]
    rfl

theorem Walks.append {m' : List Bytes} {k' : Nat} (h : Walks t loc as m k) (h' : Walks t m bs m' k') : Walks t loc (as ++ bs) m' (k + k') := by
  induction h with
  | done loc => rwa [List.nil_append, Nat.zero_add]
  | stays hdir hc _ ih => exact .stays hdir hc (ih h')
  | up hdir _ ih => exact .up hdir (ih h')
  | down hdir hc he hlink _ ih => exact .down hdir hc he hlink (ih h')
  | link hdir hc he _ ih =>
    have hrest := ih h'
    rw [List.append_assoc] at hrest
    rw [Nat.add_right_comm]
    exact .link hdir hc he hrest

theorem walks_append {m' : List Bytes} : Walks t loc (as ++ bs) m' n ↔ ∃ m k k', Walks t loc as m k ∧ Walks t m bs m' k' ∧ k + k' = n := by
  refine ⟨fun h => ?_, fun ⟨m, k, k', h, h', hn⟩ => hn ▸ h.append h'⟩
  generalize hcs : as ++ bs = cs at h
  induction h generalizing as with
  | done loc =>
    obtain ⟨rfl, rfl⟩ := List.append_eq_nil_iff.1 hcs
    exact ⟨loc, 0, 0, .done loc, .done loc, rfl⟩
  | @stays loc cs m' c k hdir hc h ih =>
    cases as with
    | nil =>
      obtain rfl := hcs
      exact ⟨loc, 0, k, .done loc, .stays hdir hc h, Nat.zero_add k⟩
    | cons a as =>
      obtain ⟨rfl, rfl⟩ := List.cons.inj hcs
      obtain ⟨m, k, k', hm, hm', hn⟩ := ih rfl
      exact ⟨m, k, k', .stays hdir hc hm, hm', hn⟩
  | @up loc cs m' k hdir h ih =>
    cases as with
    | nil =>
      obtain rfl := hcs
      exact ⟨loc, 0, k, .done loc, .up hdir h, Nat.zero_add k⟩
    | cons a as =>
      obtain ⟨rfl, rfl⟩ := List.cons.inj hcs
      obtain ⟨m, k, k', hm, hm', hn⟩ := ih rfl
      exact ⟨m, k, k', .up hdir hm, hm', hn⟩
  | @down loc cs m' c k e hdir hc he hlink h ih =>
    cases as with
    | nil =>
      obtain rfl := hcs
      exact ⟨loc, 0, k, .done loc, .down hdir hc he hlink h, Nat.zero_add k⟩
    | cons a as =>
      obtain ⟨rfl, rfl⟩ := List.cons.inj hcs
      obtain ⟨m, k, k', hm, hm', hn⟩ := ih rfl
      exact ⟨m, k, k', .down hdir hc he hlink hm, hm', hn⟩
  | @link loc cs m' c target k hdir hc he h ih =>
    cases as with
    | nil =>
      obtain rfl := hcs
      exact ⟨loc, 0, k + 1, .done loc, .link hdir hc he h, Nat.zero_add _⟩
    | cons a as =>
      obtain ⟨rfl, rfl⟩ := List.cons.inj hcs
      obtain ⟨m, k, k', hm, hm', hn⟩ := ih (List.append_assoc ..)
      exact ⟨m, k + 1, k', .link hdir hc he hm, hm', by rw [Nat.add_right_comm, hn]⟩

theorem Walks.unique {m' : List Bytes} {k' : Nat} (h : Walks t loc cs m k) (h' : Walks t loc cs m' k') : m = m' ∧ k = k' := by
  have hwalk : walk t (k + k') loc cs = .ok (m, k') := walk_of_walks h
  have hwalk' : walk t (k' + k) loc cs = .ok (m', k) := walk_of_walks h'
  rw [Nat.add_comm k' k, hwalk] at hwalk'
  obtain ⟨rfl, rfl⟩ := Prod.mk.inj (Except.ok.inj hwalk')
  exact ⟨rfl, rfl⟩

def Extends (t t' : Tree) : Prop := ∀ p e, t.node p = some e → t'.node p = some e

theorem Walks.extends (hext : Extends t t') (h : Walks t loc cs m k) : Walks t' loc cs m k := by
  induction h with
  | done loc => exact .done loc
  | stays hdir hc _ ih => exact .stays (hext _ _ hdir) hc ih
  | up hdir _ ih => exact .up (hext _ _ hdir) ih
  | down hdir hc he hlink _ ih => exact .down (hext _ _ hdir) hc (hext _ _ he) hlink ih
  | link hdir hc he _ ih => exact .link (hext _ _ hdir) hc (hext _ _ he) ih

def IsLink (t : Tree) (p : List Bytes) : Prop := ∃ target, t.node p = some (.link target)

def Located (t : Tree) (p : List Bytes) : Prop := (∃ e, t.node p = some e) ∧ ¬ IsLink t p

theorem located_of_dir (h : t.node loc = some .dir) : Located t loc := ⟨⟨_, h⟩, fun ⟨_, hlink⟩ => nomatch h.symm.trans hlink⟩

theorem located_root : Located t [] := located_of_dir t.root

theorem dir_of_prefix {p q : List Bytes} (hq : q ≠ []) (h : ∃ e, t.node (p ++ q) = some e) : t.node p = some .dir := by
  induction q using List.reverseRecOn with
  | nil => exact absurd rfl hq
  | append_singleton q n ih =>
    obtain ⟨e, he⟩ := h
    rw [← List.append_assoc] at he
    have hdir := t.parent (p ++ q) n (by rw [he]; exact nofun)
    cases q with
    | nil => rwa [List.append_nil] at hdir
    | cons a q => exact ih nofun ⟨_, hdir⟩

theorem dir_dropLast (h : t.node loc = some .dir) : t.node loc.dropLast = some .dir := by
  induction loc using List.reverseRecOn with
  | nil => exact h
  | append_singleton p n _ =>
    rw [List.dropLast_concat]
    exact dir_of_prefix (List.cons_ne_nil n []) ⟨_, h⟩

theorem Walks.located (h : Walks t loc cs m k) (hloc : Located t loc) : Located t m := by
  induction h with
  | done loc => exact hloc
  | stays _ _ _ ih => exact ih hloc
  | up hdir _ ih => exact ih (located_of_dir (dir_dropLast hdir))
  | down _ _ he hlink _ ih => exact ih ⟨⟨_, he⟩, fun ⟨target, ht⟩ => hlink target (Option.some.inj (he.symm.trans ht))⟩
  | link hdir _ _ _ ih =>
    refine ih ?_
    split_ifs
    · exact located_root
    · exact located_of_dir hdir

theorem Walks.single (h : Walks t loc [c] m k) (hc : c ≠ [] ∧ c ≠ dot ∧ c ≠ dotdot) (hlink : ¬ IsLink t (loc ++ [c])) : m = loc ++ [c] := by
  cases h with
  | stays _ hc' _ => exact absurd hc' (not_or.2 ⟨hc.1, hc.2.1⟩)
  | up _ _ => exact absurd rfl hc.2.2
  | down _ _ _ _ h =>
    cases h
    rfl
  | link _ _ he _ => exact absurd ⟨_, he⟩ hlink

theorem nameOK_of_node {p : List Bytes} (h : ∃ e, t.node p = some e) : ∀ n ∈ p, NameOK n := by
  induction p using List.reverseRecOn with
  | nil => exact nofun
  | append_singleton p n ih =>
    obtain ⟨e, he⟩ := h
    have hne : t.node (p ++ [n]) ≠ none := by rw [he]; exact nofun
    intro m hm
    obtain hm | hm := List.mem_append.1 hm
    · exact ih ⟨_, t.parent p n hne⟩ m hm
    · exact List.mem_singleton.1 hm ▸ t.name p n hne

def Tree.insert (t : Tree) (p : List Bytes) (n : Bytes) (e : Entry) (h : t.node p = some .dir ∧ NameOK n ∧ t.node (p ++ [n]) = none) : Tree where
  node := Function.update t.node (p ++ [n]) (some e)
  root := by
    rw [Function.update_of_ne (List.append_ne_nil_of_right_ne_nil p (List.cons_ne_nil n [])).symm]
    exact t.root
  parent q m hq := by
    have hne : q ≠ p ++ [n] := by
      rintro rfl
      rw [Function.update_of_ne (by simp)] at hq
      have := t.parent (p ++ [n]) m hq
      rw [h.2.2] at this
      cases this
    rw [Function.update_of_ne hne]
    by_cases heq : q ++ [m] = p ++ [n]
    · rw [(List.append_inj' heq rfl).1]
      exact h.1
    · rw [Function.update_of_ne heq] at hq
      exact t.parent q m hq
  name q m hq := by
    by_cases heq : q ++ [m] = p ++ [n]
    · rw [List.singleton_inj.1 (List.append_inj' heq rfl).2]
      exact h.2.1
    · rw [Function.update_of_ne heq] at hq
      exact t.name q m hq

theorem extends_insert {p : List Bytes} {a : Bytes} {e : Entry} (h : t.node p = some .dir ∧ NameOK a ∧ t.node (p ++ [a]) = none) :
    Extends t (t.insert p a e h) := by
  intro q e' hq
  show Function.update t.node (p ++ [a]) (some e) q = some e'
  rw [Function.update_of_ne, hq]
  rintro rfl
  exact nomatch h.2.2.symm.trans hq

theorem isLink_insert {p q : List Bytes} {a : Bytes} {e : Entry} (h : t.node p = some .dir ∧ NameOK a ∧ t.node (p ++ [a]) = none)
    (he : ∀ target, e ≠ .link target) : IsLink (t.insert p a e h) q ↔ IsLink t q := by
  refine ⟨fun ⟨target, ht⟩ => ⟨target, ?_⟩, fun ⟨target, ht⟩ => ⟨target, extends_insert h q _ ht⟩⟩
  have hupd : Function.update t.node (p ++ [a]) (some e) q = some (.link target) := ht
  by_cases hq : q = p ++ [a]
  · rw [hq, Function.update_self] at hupd
    exact absurd (Option.some.inj hupd) (he target)
  · rwa [Function.update_of_ne hq] at hupd

def Tree.ofList (l : List (List Bytes × Entry))
    (h : l.lookup [] = some .dir ∧ ∀ e ∈ l, e.1 = [] ∨ l.lookup e.1.dropLast = some .dir ∧ NameOK (e.1.getLast?.getD [])) : Tree where
  node p := l.lookup p
  root := h.1
  parent p n hp := by
    obtain ⟨e, he⟩ := Option.ne_none_iff_exists'.1 hp
    obtain ⟨l₁, l₂, hl, -⟩ := List.lookup_eq_some_iff.1 he
    obtain hnil | ⟨hdir, -⟩ := h.2 (p ++ [n], e) (by rw [hl]; exact List.mem_append_right _ List.mem_cons_self)
    · exact absurd hnil (List.append_ne_nil_of_right_ne_nil p (List.cons_ne_nil n []))
    · rwa [List.dropLast_concat] at hdir
  name p n hp := by
    obtain ⟨e, he⟩ := Option.ne_none_iff_exists'.1 hp
    obtain ⟨l₁, l₂, hl, -⟩ := List.lookup_eq_some_iff.1 he
    obtain hnil | ⟨-, hname⟩ := h.2 (p ++ [n], e) (by rw [hl]; exact List.mem_append_right _ List.mem_cons_self)
    · exact absurd hnil (List.append_ne_nil_of_right_ne_nil p (List.cons_ne_nil n []))
    · rwa [List.getLast?_concat] at hname

def maxLinks : Nat := 40

def stat (t : Tree) (path : List Bytes) : Except Errno (List Bytes) := (walk t maxLinks [] path).map Prod.fst

/-- `mkdir -p`, from the last name of the path on. -/
def mkdirRev (t : Tree) : List Bytes → Option Tree
  | [] => some t
  | a :: rest => match stat t (a :: rest).reverse with
    | .ok loc => if t.node loc = some .dir then some t else none
    | .error _ => match mkdirRev t rest with
      | none => none
      | some t' => match stat t' rest.reverse with
        | .error _ => none
        | .ok p =>
          if h : t'.node p = some .dir ∧ NameOK a ∧ t'.node (p ++ [a]) = none then some (t'.insert p a .dir h)
          else if t'.node (p ++ [a]) = some .dir then some t' else none

def mkdirAll (t : Tree) (path : List Bytes) : Option Tree := mkdirRev t path.reverse

theorem mkdirRev_extends {path : List Bytes} (h : mkdirRev t path = some t') : Extends t t' ∧ ∀ q, IsLink t' q ↔ IsLink t q := by
  induction path generalizing t' with
  | nil =>
    obtain rfl := Option.some.inj h
    exact ⟨fun _ _ hq => hq, fun _ => Iff.rfl⟩
  | cons a rest ih =>
    rw [mkdirRev] at h
    split at h
    · split_ifs at h
      obtain rfl := Option.some.inj h
      exact ⟨fun _ _ hq => hq, fun _ => Iff.rfl⟩
    · split at h
      · cases h
      · next t₁ hrest =>
        obtain ⟨hext, hlinks⟩ := ih hrest
        split at h
        · cases h
        · split_ifs at h with hnew
          · obtain rfl := Option.some.inj h
            refine ⟨fun q e hq => extends_insert hnew q e (hext q e hq), fun q => ?_⟩
            exact (isLink_insert hnew fun target (he : Entry.dir = .link target) => nomatch he).trans (hlinks q)
          · obtain rfl := Option.some.inj h
            exact ⟨hext, hlinks⟩

theorem stat_ok : stat t cs = .ok loc ↔ ∃ k, k ≤ maxLinks ∧ Walks t [] cs loc k := walk_map_ok

theorem Extends.none {p : List Bytes} (hext : Extends t t') (h : t'.node p = none) : t.node p = none := by
  cases hp : t.node p with
  | none => rfl
  | some e => exact nomatch h.symm.trans (hext p e hp)

theorem none_of_parent {p : List Bytes} {n : Bytes} (h : t.node p = none) : t.node (p ++ [n]) = none := by
  by_contra hne
  exact nomatch h.symm.trans (t.parent p n hne)

/-- One name of `mkdir -p`: nothing is made, or the entry is put where the rest of the path leads to, unless there is a directory already. -/
theorem mkdirRev_cons {path : List Bytes} (h : mkdirRev t (c :: path) = some t') :
    t' = t ∨ ∃ t₁ p, mkdirRev t path = some t₁ ∧ stat t₁ path.reverse = .ok p ∧ Extends t₁ t' ∧ t'.node (p ++ [c]) = some .dir ∧
      (t' = t₁ ∨ t₁.node (p ++ [c]) = none) := by
  rw [mkdirRev] at h
  split at h
  · split_ifs at h
    exact .inl (Option.some.inj h).symm
  · split at h
    · cases h
    · next t₁ hrest =>
      split at h
      · cases h
      · next p hstat =>
        split_ifs at h with hnew hdir
        · obtain rfl := Option.some.inj h
          exact .inr ⟨t₁, p, hrest, hstat, extends_insert hnew, Function.update_self .., .inr hnew.2.2⟩
        · obtain rfl := Option.some.inj h
          exact .inr ⟨t₁, p, hrest, hstat, fun _ _ hq => hq, hdir, .inl rfl⟩

theorem mkdirRev_new {path : List Bytes} (h : mkdirRev t path = some t') (hstat : stat t' path.reverse = .ok loc) : t' = t ∨ t.node loc = none := by
  induction path generalizing t' loc with
  | nil => exact .inl (Option.some.inj h).symm
  | cons a rest ih =>
    obtain heq | ⟨t₁, p, hrest, hp, hext, hdir, hlast⟩ := mkdirRev_cons h
    · exact .inl heq
    · obtain ⟨k, -, hw⟩ := stat_ok.1 hstat
      obtain ⟨k', -, hp'⟩ := stat_ok.1 hp
      rw [List.reverse_cons] at hw
      obtain ⟨q, k₁, k₂, hq, hname, -⟩ := walks_append.1 hw
      obtain ⟨rfl, -⟩ := hq.unique (hp'.extends hext)
      have hok := t'.name q a (by rw [hdir]; exact nofun)
      obtain rfl := hname.single ⟨hok.ne_nil, hok.ne_dot, hok.ne_dotdot⟩ fun ⟨target, ht⟩ => nomatch hdir.symm.trans ht
      obtain rfl | hnone := hlast
      · exact (ih hrest hp).imp_right none_of_parent
      · exact .inr ((mkdirRev_extends hrest).1.none hnone)

theorem mkdirRev_parent {path : List Bytes} (h : mkdirRev t (c :: path) = some t') :
    t' = t ∨ ∃ p, stat t' path.reverse = .ok p ∧ t.node (p ++ [c]) = none := by
  obtain heq | ⟨t₁, p, hrest, hp, hext, -, hlast⟩ := mkdirRev_cons h
  · exact .inl heq
  · obtain ⟨k, hk, hw⟩ := stat_ok.1 hp
    have hp' : stat t' path.reverse = .ok p := stat_ok.2 ⟨k, hk, hw.extends hext⟩
    obtain rfl | hnone := hlast
    · exact (mkdirRev_new hrest hp).imp_right fun hnew => ⟨p, hp', none_of_parent hnew⟩
    · exact .inr ⟨p, hp', (mkdirRev_extends hrest).1.none hnone⟩

end FileTree
