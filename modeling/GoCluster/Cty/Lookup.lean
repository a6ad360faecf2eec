import GoCluster.Gridstore.Writer
import GoCluster.Lib.Trie
/-!
# Country lookups

Package `cty`: a table of keys, calls and the starts of calls, and the trie that
finds the longest key a call starts with. The entries that are for one call only
are in the same trie, so they are found for longer calls too.
-/
open Golib List

namespace GoCluster.Cty

/-- `Prefix` and `GMTOffset` are left out. -/
structure PrefixInfo extends Gridstore.PrefixInfo where
  exactCallsign : Bool := false

/-- What a node carries is `terminalKey`. -/
abbrev CtyTrie := Trie UInt8 Str

def addKey (tr : CtyTrie) (key : Str) : CtyTrie :=
  if key = [] then tr
  else
    let (tr, state) := tr.extend 0 key
    tr.setPayload state key

def buildCTYTrie (keys : List Str) : CtyTrie := keys.foldl addKey [{ payload := [] }]

/-- The loop of `longestPrefixKey`. -/
def longestFrom (tr : CtyTrie) (state : Nat) (best : Str) : Str → Str
  | [] => best
  | ch :: cs =>
    match tr.child state ch with
    | none => best
    | some state =>
      let terminalKey := (tr.node state).payload
      longestFrom tr state (if terminalKey ≠ [] then terminalKey else best) cs

def longestPrefixKey (tr : CtyTrie) (cs : Str) : Option Str :=
  if tr = [] ∨ cs = [] then none
  else
    let best := longestFrom tr 0 [] cs
    if best = [] then none else some best

structure CTYDatabase where
  data : Map Str PrefixInfo
  trie : CtyTrie

/-- Longer keys come first, keys of one length in their order. -/
def keyBefore (k k' : Str) : Bool := if k.length = k'.length then bytesLe k k' else k'.length < k.length

/-- `LoadCTYDatabaseFromReader`, after the decoding. -/
def loadCTYDatabase (data : Map Str PrefixInfo) : CTYDatabase where
  data := data
  trie := buildCTYTrie (data.keys.insertionSort fun k k' => keyBefore k k')

namespace CTYDatabase
variable (db : CTYDatabase)

def lookupCallsignNoCache (cs : Str) : Option PrefixInfo :=
  match db.data.lookup cs with
  | some info => some info
  | none => (longestPrefixKey db.trie cs).map fun key => (db.data.lookup key).getD {}

/-- Without the counters. -/
def lookupCallsign (cs : Str) : Option PrefixInfo := db.lookupCallsignNoCache cs

end CTYDatabase

/-! ## The trie -/

/-- What the trie holds when `keys` are in it. -/
structure Built (tr : CtyTrie) (keys : List Str) (words : List Str) : Prop where
  spells : tr.Spells words fun v => if v ∈ keys then v else []
  start : ∀ k ∈ keys, k = [] ∨ k ∈ words

theorem built_addKey {tr : CtyTrie} {keys words : List Str} (h : Built tr keys words) (key : Str) :
    ∃ words, Built (addKey tr key) (keys ++ [key]) words := by
  unfold addKey
  split_ifs with hk
  · subst hk
    refine ⟨words, ?_, fun k hk => ?_⟩
    · convert h.spells using 2 with v
      cases v <;> simp
    · rcases mem_append.1 hk with hk | hk
      · exact h.start k hk
      · exact .inl (mem_singleton.1 hk)
  · obtain ⟨more, hs, hw, -⟩ := h.spells.extend h.spells.root key
    rw [nil_append] at hw
    refine ⟨words ++ more, ?_, fun k hk => ?_⟩
    · convert hs.setPayload hw key using 1
      funext v
      by_cases hv : v = key
      · rw [hv, Function.update_self, if_pos (mem_append_right _ (mem_singleton_self _))]
      · simp [hv]
    · rcases mem_append.1 hk with hk | hk
      · exact (h.start k hk).imp_right (mem_append_left _)
      · exact .inr (mem_singleton.1 hk ▸ mem_of_getElem? hw)

theorem exists_built (keys : List Str) : ∃ words, Built (buildCTYTrie keys) keys words := by
  induction keys using reverseRecOn with
  | nil => exact ⟨_, Trie.spells_root, nofun⟩
  | append_singleton keys key ih =>
    obtain ⟨words, h⟩ := ih
    rw [buildCTYTrie, foldl_append]
    exact built_addKey h key

theorem longestFrom_eq {tr : CtyTrie} {keys words : List Str} (h : Built tr keys words) {state : Nat} {u : Str}
    (hs : words[state]? = some u) (best cs : Str) :
    longestFrom tr state best cs = (cs.inits.tail.reverse.find? fun v => u ++ v ∈ keys).elim best (u ++ ·) := by
  induction cs generalizing state u best with
  | nil => rfl
  | cons ch cs ih =>
    rw [longestFrom]
    cases hc : tr.child state ch with
    | none =>
      have hn : ∀ v ∈ (ch :: cs).inits.tail.reverse, ¬decide (u ++ v ∈ keys) := by
        simp only [inits_cons, tail_cons, mem_reverse, mem_map, decide_eq_true_eq]
        rintro _ ⟨v, -, rfl⟩ hm
        rcases h.start _ hm with hk | hk
        · simp at hk
        · exact (h.spells.child_eq_none hs).1 hc (h.spells.mem_of_isPrefix hk ⟨v, by simp⟩)
      rw [find?_eq_none.2 hn]
      rfl
    | some next =>
      have hx := (h.spells.child hs ch next).1 hc
      have hi : (ch :: cs).inits.tail.reverse = cs.inits.tail.reverse.map (ch :: ·) ++ [[ch]] := by
        cases cs <;> simp
      rw [hi, find?_append, find?_map]
      dsimp only
      rw [ih hx, h.spells.payload hx]
      have hf : (fun v => decide (u ++ v ∈ keys)) ∘ (ch :: ·) = fun v => decide (u ++ [ch] ++ v ∈ keys) := by
        funext v
        simp
      rw [hf]
      cases cs.inits.tail.reverse.find? fun v => decide (u ++ [ch] ++ v ∈ keys) with
      | some v => simp
      | none => by_cases hk : u ++ [ch] ∈ keys <;> simp [hk]

/-! ## The longest key -/

/-- What a call starts with, the longest first and not the call itself. -/
def starts (call : Str) : List Str := call.inits.reverse.tail

theorem inits_reverse (call : Str) : call.inits.reverse = call :: starts call := by
  rcases eq_nil_or_concat call with rfl | ⟨c, a, rfl⟩
  · rfl
  · simp [starts]

theorem starts_concat (c : Str) (a : UInt8) : starts (c ++ [a]) = c :: starts c := by
  rw [starts, ← inits_reverse]
  simp

section Table
variable (data : Map Str PrefixInfo) (call : Str)

theorem lookupCallsign_eq : (loadCTYDatabase data).lookupCallsign call =
    (data.lookup call).or ((starts call).findSome? fun k => if k = [] then none else data.lookup k) := by
  rw [CTYDatabase.lookupCallsign, CTYDatabase.lookupCallsignNoCache]
  rcases hl : data.lookup call with _ | info <;> simp only [loadCTYDatabase, hl, Option.some_or]
  obtain ⟨words, hb⟩ := exists_built (data.keys.insertionSort fun k k' => keyBefore k k')
  have hn : buildCTYTrie (data.keys.insertionSort fun k k' => keyBefore k k') ≠ [] := by
    intro h
    have hr := hb.spells.lt_length hb.spells.root
    simp [h] at hr
  have hf (l : List Str) (he : [] ∉ l) : l.findSome? (fun k => if k = [] then none else data.lookup k) =
      (l.find? fun k => decide (k ∈ data.keys)).map fun key => (data.lookup key).getD {} := by
    induction l with
    | nil => rfl
    | cons k l ih =>
      rw [mem_cons, not_or] at he
      rw [findSome?_cons, if_neg (Ne.symm he.1), ih he.2]
      by_cases hk : k ∈ data
      · obtain ⟨info, hi⟩ := Option.isSome_iff_exists.1 (AList.lookup_isSome.2 hk)
        simp [AList.mem_keys.1 hk, hi]
      · simp [mt AList.mem_keys.2 hk, AList.lookup_eq_none.2 hk]
  -- The walk sees what the call starts with and the call itself, and not the empty key.
  have hw : (starts call).findSome? (fun k => if k = [] then none else data.lookup k) =
      call.inits.tail.reverse.findSome? fun k => if k = [] then none else data.lookup k := by
    have ht : call :: starts call = call.inits.tail.reverse ++ [[]] := by
      rw [← inits_reverse]
      cases call <;> simp
    have h := congrArg (findSome? fun k => if k = [] then none else data.lookup k) ht
    simpa [findSome?_append, findSome?_cons, hl] using h
  have he : [] ∉ call.inits.tail.reverse := by cases call <;> simp
  rw [hw, hf _ he, longestPrefixKey]
  by_cases hc : call = []
  · simp [hc]
  · rw [if_neg (by simp [hn, hc]), longestFrom_eq hb hb.spells.root]
    simp only [nil_append, mem_insertionSort]
    cases hk : call.inits.tail.reverse.find? fun k => decide (k ∈ data.keys) with
    | none => rfl
    | some k =>
      have hne : k ≠ [] := fun h => he (h ▸ mem_of_find?_eq_some hk)
      simp [hne]

/-- The entry that is meant for a call: its own, or that of the longest key it starts with that is not for one call
only. -/
def intended : Option PrefixInfo :=
  (data.lookup call).or ((starts call).findSome? fun k => (data.lookup k).filter fun info => !info.exactCallsign)

theorem lookupCallsign_eq_iff : (loadCTYDatabase data).lookupCallsign call = intended data call ↔
    call ∈ data ∨ ∀ k info, (starts call).find? (· ∈ data) = some k → data.lookup k = some info →
      (k = [] ↔ info.exactCallsign = true) := by
  rw [lookupCallsign_eq, intended]
  rcases hl : data.lookup call with _ | info
  · rw [or_iff_right (AList.lookup_eq_none.1 hl), Option.none_or]
    clear hl
    induction call using reverseRecOn with
    | nil => simp [starts]
    | append_singleton c a ih =>
      rw [starts_concat, findSome?_cons, findSome?_cons, find?_cons]
      rcases hk : data.lookup c with _ | info
      · have hm : c ∉ data := AList.lookup_eq_none.1 hk
        simpa [hm] using ih
      · have hm : c ∈ data := AList.lookup_isSome.1 (by simp [hk])
        have hr : (∀ k info, some c = some k → data.lookup k = some info → (k = [] ↔ info.exactCallsign)) ↔
            (c = [] ↔ info.exactCallsign) := by
          simp only [Option.some.injEq, forall_comm (β := PrefixInfo), forall_eq', hk]
        simp only [hm, decide_true, hr]
        by_cases hc : c = []
        · subst hc
          cases he : info.exactCallsign <;> simp [starts, Option.filter_some, he]
        · cases he : info.exactCallsign with
          | false => simp [hc, Option.filter_some, he]
          | true =>
            -- What is found further on is not marked.
            have hx : (starts c).findSome? (fun k => (data.lookup k).filter fun info => !info.exactCallsign) ≠
                some info := by
              intro h
              obtain ⟨k, -, hk'⟩ := exists_of_findSome?_eq_some h
              simp [he] at hk'
            simpa [hc, Option.filter_some, he] using hx.symm
  · exact iff_of_true rfl (.inl (AList.lookup_isSome.1 (by simp [hl])))

end Table

/-- KC4AAA is at the pole, other calls that start with K are not. -/
def polarTable : Map Str PrefixInfo :=
  AList.insert (ascii "K") { adif := 291 } (AList.insert (ascii "KC4AAA") { adif := 13, exactCallsign := true } ∅)

theorem exact_entry_applies : ((loadCTYDatabase polarTable).lookupCallsign "KC4AAAX").map (·.adif) = some 13 ∧
    (intended polarTable "KC4AAAX").map (·.adif) = some 291 := by
  decide +kernel

end GoCluster.Cty
