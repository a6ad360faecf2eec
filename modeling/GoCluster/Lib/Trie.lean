import GoCluster.Lib.Map
import Mathlib.Data.List.Infix
/-!
# Tries

A trie as a list of nodes, each with the numbers of its children and something
it carries. What a trie holds is said by words: no two nodes stand for the same
word, a child stands for one byte more, and what a node carries depends on its
word only.
-/
open List

namespace Golib

structure TrieNode (α P : Type) where
  next : Map α Nat := ∅
  payload : P

abbrev Trie (α P : Type) := List (TrieNode α P)

namespace Trie
variable {α P : Type} [Inhabited P]

def node (t : Trie α P) (state : Nat) : TrieNode α P := t.getD state { payload := default }

def setPayload (t : Trie α P) (state : Nat) (p : P) : Trie α P := t.set state { t.node state with payload := p }

variable {t : Trie α P} {words : List (List α)} {val : List α → P} {u : List α} {state : Nat}

theorem node_set {n : TrieNode α P} (hs : state < t.length) (i : Nat) :
    node (t.set state n) i = if i = state then n else t.node i := by
  simp only [node, getD_eq_getElem?_getD, getElem?_set, eq_comm (a := state)]
  split_ifs <;> rfl

theorem node_append (t : Trie α P) (i : Nat) : node (t ++ [{ payload := default }]) i = t.node i := by
  simp only [node, getD_eq_getElem?_getD, getElem?_append]
  split_ifs with hi
  · rfl
  · rw [getElem?_eq_none (Nat.le_of_not_lt hi)]
    cases h : i - t.length <;> simp

theorem getElem?_concat_iff {w v : List α} {n : Nat} :
    (words ++ [w])[n]? = some v ↔ words[n]? = some v ∨ n = words.length ∧ w = v := by
  rw [getElem?_append]
  split_ifs with hn
  · simp [hn.ne]
  · rw [getElem?_eq_none (Nat.le_of_not_lt hn), getElem?_singleton]
    split_ifs with h0 <;> simp <;> omega

variable [DecidableEq α]

def child (t : Trie α P) (state : Nat) (a : α) : Option Nat := (t.node state).next.lookup a

/-- A new child. -/
def grow (t : Trie α P) (state : Nat) (a : α) : Trie α P :=
  let grown : Trie α P := t ++ [{ payload := default }]
  grown.set state { grown.node state with next := (grown.node state).next.insert a t.length }

/-- Follows a word from `state` on, adding nodes where there are none; the state it ends in. -/
def extend (t : Trie α P) (state : Nat) : List α → Trie α P × Nat
  | [] => (t, state)
  | a :: w =>
    match t.child state a with
    | some next => extend t next w
    | none => extend (t.grow state a) t.length w

/-- The nodes stand for `words`, in this order, and each carries what `val` has for its word. -/
structure Spells (t : Trie α P) (words : List (List α)) (val : List α → P) : Prop where
  length : words.length = t.length
  root : words[0]? = some []
  nodup : words.Nodup
  closed : ∀ u a, u ++ [a] ∈ words → u ∈ words
  child : ∀ {state u}, words[state]? = some u → ∀ a n, t.child state a = some n ↔ words[n]? = some (u ++ [a])
  payload : ∀ {state u}, words[state]? = some u → (t.node state).payload = val u
  default : ∀ u ∉ words, val u = default

theorem node_grow (hs : state < t.length) (a : α) (i : Nat) : (t.grow state a).node i =
    if i = state then { t.node state with next := (t.node state).next.insert a t.length } else t.node i := by
  rw [grow, node_set (by simp; omega), node_append, node_append]

namespace Spells

theorem lt_length (h : Spells t words val) (hs : words[state]? = some u) : state < t.length :=
  h.length ▸ (List.getElem?_eq_some_iff.1 hs).1

theorem unique (h : Spells t words val) {m n : Nat} (hm : words[m]? = some u) (hn : words[n]? = some u) : m = n :=
  (getElem?_inj (List.getElem?_eq_some_iff.1 hm).1 h.nodup).1 (hm.trans hn.symm)

theorem child_eq_none (h : Spells t words val) (hs : words[state]? = some u) {a : α} :
    t.child state a = none ↔ u ++ [a] ∉ words := by
  rw [← not_iff_not, not_not, mem_iff_getElem?, ← ne_eq, Option.ne_none_iff_exists']
  exact exists_congr (h.child hs a)

theorem mem_of_isPrefix (h : Spells t words val) {w : List α} (hw : w ∈ words) (hu : u <+: w) : u ∈ words := by
  obtain ⟨v, rfl⟩ := hu
  induction v using reverseRecOn with
  | nil => rwa [append_nil] at hw
  | append_singleton v a ih => exact ih (h.closed _ a (by rwa [append_assoc]))

/-- A new node stands for a new word and carries nothing yet. -/
theorem grow (h : Spells t words val) (hs : words[state]? = some u) {a : α} (hn : u ++ [a] ∉ words) :
    Spells (t.grow state a) (words ++ [u ++ [a]]) val := by
  have hl := h.lt_length hs
  have hc (i : Nat) (b : α) : (t.grow state a).child i b = if i = state ∧ b = a then some t.length
      else t.child i b := by
    rw [Trie.child, node_grow hl]
    by_cases hi : i = state
    · subst hi
      simp only [if_true, Map.lookup_insert_if, true_and]
      rfl
    · simp only [hi, if_false]
      rfl
  refine ⟨by simp [h.length, Trie.grow], ?_, ?_, ?_, ?_, ?_, fun v hv => h.default v fun hm =>
    hv (mem_append_left _ hm)⟩
  · exact getElem?_concat_iff.2 (.inl h.root)
  · simpa [nodup_append] using ⟨h.nodup, fun v hv he => hn (he ▸ hv)⟩
  · intro v b hv
    rcases mem_append.1 hv with hv | hv
    · exact mem_append_left _ (h.closed v b hv)
    · obtain ⟨rfl, -⟩ := append_inj' (mem_singleton.1 hv) rfl
      exact mem_append_left _ (mem_of_getElem? hs)
  · intro i v hv b n
    rw [hc, getElem?_concat_iff]
    rcases getElem?_concat_iff.1 hv with hi | ⟨rfl, rfl⟩
    · split_ifs with he
      · obtain ⟨rfl, rfl⟩ := he
        cases hs.symm.trans hi
        have hno : words[n]? ≠ some (u ++ [b]) := fun hw => hn (mem_of_getElem? hw)
        simp [hno, h.length, eq_comm]
      · have hne : u ++ [a] ≠ v ++ [b] := by
          intro heq
          obtain ⟨rfl, hab⟩ := append_inj' heq rfl
          exact he ⟨h.unique hi hs, (cons.inj hab).1.symm⟩
        simp [hne, h.child hi b n]
    · -- The new node has no children: words have all that they start with before them.
      have hno : words[n]? ≠ some (u ++ [a] ++ [b]) := fun hw => hn (h.closed _ b (mem_of_getElem? hw))
      have hd : t.child words.length b = none := by simp [Trie.child, node, h.length]
      rw [if_neg fun he => hl.ne' (h.length ▸ he.1), hd]
      simpa using hno
  · intro i v hi
    rw [node_grow hl]
    rcases getElem?_concat_iff.1 hi with hi | ⟨rfl, rfl⟩
    · split_ifs with he
      · subst he
        exact h.payload hi
      · exact h.payload hi
    · rw [if_neg (by rw [h.length]; exact hl.ne'), h.default _ hn]
      simp [node, h.length]

theorem extend (h : Spells t words val) (hs : words[state]? = some u) (w : List α) :
    ∃ more, Spells (t.extend state w).1 (words ++ more) val ∧
      (words ++ more)[(t.extend state w).2]? = some (u ++ w) ∧ ∀ v ∈ more, v <+: u ++ w := by
  induction w generalizing t words u state with
  | nil => exact ⟨[], by simpa [Trie.extend] using ⟨h, hs⟩⟩
  | cons a w ih =>
    rw [Trie.extend, append_cons]
    cases hc : t.child state a with
    | some next => exact ih h ((h.child hs a next).1 hc)
    | none =>
      obtain ⟨more, hm, hw, hp⟩ := ih (h.grow hs ((h.child_eq_none hs).1 hc))
        (getElem?_concat_iff.2 (.inr ⟨h.length.symm, rfl⟩))
      rw [append_assoc] at hm hw
      refine ⟨_, hm, hw, fun v hv => ?_⟩
      rcases mem_append.1 hv with hv | hv
      · rw [mem_singleton.1 hv]
        exact prefix_append ..
      · exact hp v hv

theorem setPayload (h : Spells t words val) (hs : words[state]? = some u) (p : P) :
    Spells (t.setPayload state p) words (Function.update val u p) := by
  have hl := h.lt_length hs
  have hn := node_set (n := { t.node state with payload := p }) hl
  refine ⟨by simpa [Trie.setPayload] using h.length, h.root, h.nodup, h.closed, ?_, ?_, fun v hv => ?_⟩
  · intro i v hi a n
    rw [← h.child hi a n, Trie.child, Trie.child, Trie.setPayload, hn]
    split_ifs with he
    · rw [he]
    · rfl
  · intro i v hi
    rw [Trie.setPayload, hn]
    split_ifs with he
    · subst he
      obtain rfl := Option.some.inj (hs.symm.trans hi)
      rw [Function.update_self]
    · rw [Function.update_of_ne fun heq : v = u => he (h.unique hi (heq ▸ hs))]
      exact h.payload hi
  · rw [Function.update_of_ne fun heq : v = u => hv (heq ▸ mem_of_getElem? hs)]
    exact h.default v hv

end Spells

theorem spells_root : Spells ([{ payload := default }] : Trie α P) [[]] fun _ => default where
  length := rfl
  root := rfl
  nodup := nodup_singleton _
  closed u a h := by simp at h
  child {state u} h a n := by
    cases state <;> cases n <;> simp_all [Trie.child, node]
  payload {state u} h := by cases state <;> simp_all [node]
  default _ _ := rfl

end Trie
end Golib
