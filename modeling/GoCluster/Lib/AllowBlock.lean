import GoCluster.Lib.Map
/-!
# Allow lists and block lists

A list of tokens to let through and a list of tokens to stop, with a flag for
each that stands for all tokens. Blocking comes first; an allow list that is not
empty is all that is let through. The lists are maps to `Bool`, of which only
the entries with `true` count, so a list read from outside may have others.
-/

namespace Golib

structure AllowBlock (K : Type) where
  allow : Map K Bool := ∅
  block : Map K Bool := ∅
  allowAll : Bool := true
  blockAll : Bool := false

namespace AllowBlock
variable {K : Type} [DecidableEq K] {known : K → Bool}

/-- `m[token]`, which is `false` for a token that is not there. -/
def has (m : Map K Bool) (token : K) : Bool := (AList.lookup token m).getD false

/-- Allows or blocks one token, which ends whatever the flags said. -/
def set (l : AllowBlock K) (token : K) (enabled : Bool) : AllowBlock K :=
  let allow : Map K Bool := if enabled then AList.insert token true l.allow else AList.erase token l.allow
  { allow
    block := if enabled then AList.erase token l.block else AList.insert token true l.block
    allowAll := Map.size allow = 0
    blockAll := false }

def blocked : AllowBlock K := { allowAll := false, blockAll := true }

/-- What gets through. A token that is not `known` is on no allow list. -/
def passes (known : K → Bool) (l : AllowBlock K) (token : K) : Bool :=
  !l.blockAll && !has l.block token && if l.allow.size = 0 then l.allowAll else known token && has l.allow token

/-! ## Maps to `Bool` -/

@[simp] theorem has_empty (token : K) : has (∅ : Map K Bool) token = false := rfl

theorem has_insert (m : Map K Bool) (token t : K) : has (m.insert token true) t = (decide (t = token) || has m t) := by
  unfold has
  rw [Map.lookup_insert_if]
  split_ifs with h <;> simp [h]

theorem has_erase (m : Map K Bool) (token t : K) : has (m.erase token) t = (!decide (t = token) && has m t) := by
  unfold has
  rw [Map.lookup_erase_if]
  split_ifs with h <;> simp [h]

theorem mem_of_has {m : Map K Bool} {token : K} (h : has m token) : token ∈ m := by
  by_contra hm
  rw [has, AList.lookup_eq_none.2 hm] at h
  cases h

omit [DecidableEq K] in
@[simp] theorem size_empty : Map.size (∅ : Map K Bool) = 0 := rfl

omit [DecidableEq K] in
theorem size_eq_zero {m : Map K Bool} : m.size = 0 ↔ m = ∅ := by
  constructor
  · intro h
    exact AList.ext (List.length_eq_zero_iff.1 h)
  · rintro rfl
    rfl

@[simp] theorem erase_empty (token : K) : AList.erase token (∅ : Map K Bool) = ∅ :=
  AList.ext rfl

theorem size_pos_and_has (m : Map K Bool) (token : K) : (decide (0 < m.size) && has m token) = has m token := by
  rcases Nat.eq_zero_or_pos m.size with h | h
  · simp [size_eq_zero.1 h]
  · simp [h]

/-! ## One token -/

section Set
variable (l : AllowBlock K) (token : K)

theorem passes_set_true (hk : known token) : (l.set token true).passes known token := by
  simp [set, passes, has_insert, has_erase, hk]

theorem passes_set_false : (l.set token false).passes known token = false := by
  simp [set, passes, has_insert]

/-- The lists have no token in common, and an empty allow list comes with one of the flags. -/
structure WellFormed (l : AllowBlock K) : Prop where
  disjoint : ∀ token ∈ l.allow, token ∉ l.block
  flagged : l.allow = ∅ → l.allowAll = true ∨ l.blockAll = true
  /-- The allow flag does not stand beside an allow list. -/
  exclusive : l.allow ≠ ∅ → l.allowAll = false
  allowed : ∀ token ∈ l.allow, has l.allow token = true
  stopped : ∀ token ∈ l.block, has l.block token = true

theorem has_of_mem_insert {m : Map K Bool} (h : ∀ t ∈ m, has m t) {t : K} (ht : t ∈ m.insert token true) :
    has (m.insert token true) t := by
  rw [has_insert]
  rcases (AList.mem_insert m).1 ht with rfl | hm
  · simp
  · simp [h t hm]

theorem has_of_mem_erase {m : Map K Bool} (h : ∀ t ∈ m, has m t) {t : K} (ht : t ∈ m.erase token) :
    has (m.erase token) t := by
  obtain ⟨hne, hm⟩ := (AList.mem_erase).1 ht
  simp [has_erase, hne, h t hm]

theorem WellFormed.set {l : AllowBlock K} (h : l.WellFormed) (token : K) (enabled : Bool) :
    (l.set token enabled).WellFormed where
  disjoint t ht := by
    cases enabled
    · simp only [AllowBlock.set, Bool.false_eq_true, if_false, AList.mem_erase] at ht
      simp only [AllowBlock.set, Bool.false_eq_true, if_false, AList.mem_insert, not_or]
      exact ⟨ht.1, h.disjoint t ht.2⟩
    · simp only [AllowBlock.set, if_true, AList.mem_insert] at ht
      simp only [AllowBlock.set, if_true, AList.mem_erase, not_and]
      intro hne
      exact h.disjoint t (ht.resolve_left hne)
  flagged he := .inl (by simpa [AllowBlock.set] using size_eq_zero.2 he)
  exclusive hne := by simpa [AllowBlock.set] using mt size_eq_zero.1 hne
  allowed t ht := by
    cases enabled
    · exact has_of_mem_erase token h.allowed ht
    · exact has_of_mem_insert token h.allowed ht
  stopped t ht := by
    cases enabled
    · exact has_of_mem_insert token h.stopped ht
    · exact has_of_mem_erase token h.stopped ht

theorem wellFormed_open : ({} : AllowBlock K).WellFormed where
  disjoint := by simp
  flagged _ := .inl rfl
  exclusive h := absurd rfl h
  allowed := by simp
  stopped := by simp

theorem wellFormed_blocked : (blocked : AllowBlock K).WellFormed where
  disjoint := by simp [blocked]
  flagged _ := .inr rfl
  exclusive h := absurd rfl h
  allowed := by simp [blocked]
  stopped := by simp [blocked]

/-- An allow list of the given tokens. -/
def allowOnly (tokens : List K) : AllowBlock K :=
  { allow := tokens.foldl (fun m token => AList.insert token true m) ∅, allowAll := false }

theorem mem_allowOnly {tokens : List K} {token : K} : token ∈ (allowOnly tokens).allow ↔ token ∈ tokens := by
  have main : ∀ (tokens : List K) (m : Map K Bool),
      token ∈ tokens.foldl (fun m token => m.insert token true) m ↔ token ∈ m ∨ token ∈ tokens := by
    intro tokens
    induction tokens with
    | nil => simp
    | cons t tokens ih =>
      intro m
      rw [List.foldl_cons, ih, AList.mem_insert, List.mem_cons]
      tauto
  rw [allowOnly, main]
  simp

theorem wellFormed_allowOnly {tokens : List K} (h : tokens ≠ []) : (allowOnly tokens).WellFormed where
  disjoint := by simp [allowOnly]
  flagged hempty := by
    obtain ⟨token, hto⟩ := List.exists_mem_of_ne_nil tokens h
    have hme := mem_allowOnly.2 hto
    rw [hempty] at hme
    exact absurd hme (AList.notMem_empty token)
  exclusive _ := rfl
  allowed := by
    have main : ∀ (tokens : List K) (m : Map K Bool), (∀ t ∈ m, has m t) →
        ∀ t ∈ tokens.foldl (fun m token => m.insert token true) m,
          has (tokens.foldl (fun m token => m.insert token true) m) t := by
      intro tokens
      induction tokens with
      | nil => exact fun m hm => hm
      | cons token tokens ih => exact fun m hm => ih _ fun t ht => has_of_mem_insert token hm ht
    exact main tokens ∅ (by simp)
  stopped := by simp [allowOnly]

/-- Every token on either list is in `P`. -/
def Tokens (P : K → Prop) (l : AllowBlock K) : Prop := ∀ token, token ∈ l.allow ∨ token ∈ l.block → P token

theorem Tokens.set {P : K → Prop} {l : AllowBlock K} (h : l.Tokens P) {token : K} (hto : P token) (enabled : Bool) :
    (l.set token enabled).Tokens P := by
  intro t ht
  cases enabled
  · simp only [AllowBlock.set, Bool.false_eq_true, if_false, AList.mem_erase, AList.mem_insert] at ht
    rcases ht with ⟨-, ha⟩ | rfl | hb
    · exact h t (.inl ha)
    · exact hto
    · exact h t (.inr hb)
  · simp only [AllowBlock.set, if_true, AList.mem_erase, AList.mem_insert] at ht
    rcases ht with (rfl | ha) | ⟨-, hb⟩
    · exact hto
    · exact h t (.inl ha)
    · exact h t (.inr hb)

theorem tokens_allowOnly {P : K → Prop} {tokens : List K} (h : ∀ token ∈ tokens, P token) :
    (allowOnly tokens).Tokens P := by
  rintro token (ha | hb)
  · exact h token (mem_allowOnly.1 ha)
  · exact absurd hb (AList.notMem_empty token)

end Set

/-! ## The allow flag -/

/-- The allow flag set exactly if the allow list is empty. -/
def reflag (l : AllowBlock K) : AllowBlock K := { l with allowAll := l.allow.size = 0 }

theorem WellFormed.passes_reflag {l : AllowBlock K} (h : l.WellFormed) (token : K) :
    l.reflag.passes known token = l.passes known token := by
  by_cases ha : l.allow = ∅
  · rcases h.flagged ha with hf | hf <;> simp [passes, reflag, ha, hf]
  · have hs : l.allow.size ≠ 0 := mt size_eq_zero.1 ha
    simp [passes, reflag, hs]

theorem WellFormed.reflag {l : AllowBlock K} (h : l.WellFormed) : l.reflag.WellFormed where
  disjoint := h.disjoint
  flagged hempty := .inl (by simpa [AllowBlock.reflag] using size_eq_zero.2 hempty)
  exclusive hne := by simpa [AllowBlock.reflag] using mt size_eq_zero.1 hne
  allowed := h.allowed
  stopped := h.stopped

/-- An empty allow list gets the flag, any other list keeps the one it has. -/
def openIfEmpty (l : AllowBlock K) : AllowBlock K := if l.allow.size = 0 then { l with allowAll := true } else l

omit [DecidableEq K] in
theorem openIfEmpty_reflag (l : AllowBlock K) : l.reflag.openIfEmpty = l.reflag := by
  unfold openIfEmpty reflag
  split_ifs with hs
  · simp [hs]
  · rfl

theorem WellFormed.openIfEmpty_eq {l : AllowBlock K} (h : l.WellFormed) : l.openIfEmpty = l.reflag := by
  unfold openIfEmpty AllowBlock.reflag
  split_ifs with hs
  · simp [hs]
  · have hf := h.exclusive (mt size_eq_zero.2 hs)
    simp [hs, ← hf]

/-! ## Several tokens -/

theorem passes_open (token : K) : ({} : AllowBlock K).passes known token := rfl

theorem passes_blocked (token : K) : (blocked : AllowBlock K).passes known token = false := rfl

/-- The tokens `tokens`, blocked one after the other. -/
def blockEach (l : AllowBlock K) (tokens : List K) : AllowBlock K := tokens.foldl (fun l token => l.set token false) l

theorem passes_blockEach_blocked {tokens : List K} (hne : tokens ≠ []) (token : K) :
    ((blocked : AllowBlock K).blockEach tokens).passes known token = !decide (token ∈ tokens) := by
  -- After the first token the flags are those of an open list, and only the block list grows.
  have main : ∀ (l : AllowBlock K) (tokens : List K), l.allow = ∅ → l.allowAll → l.blockAll = false →
      (l.blockEach tokens).passes known token = (!has l.block token && !decide (token ∈ tokens)) := by
    intro l tokens
    induction tokens generalizing l with
    | nil =>
      intro ha hal hb
      simp [blockEach, passes, ha, hal, hb]
    | cons t tokens ih =>
      intro ha hal hb
      have hr := ih (l.set t false) (by simp [set, ha]) (by simp [set, ha]) rfl
      rw [show l.blockEach (t :: tokens) = (l.set t false).blockEach tokens from rfl, hr]
      simp only [set, Bool.false_eq_true, if_false, has_insert, List.mem_cons, Bool.decide_or]
      cases decide (token = t) <;> simp
  obtain ⟨t, tokens, rfl⟩ := List.exists_cons_of_ne_nil hne
  rw [show (blocked : AllowBlock K).blockEach (t :: tokens) = (blocked.set t false).blockEach tokens from rfl,
    main _ tokens rfl rfl rfl]
  simp only [set, blocked, Bool.false_eq_true, if_false, has_insert, has_empty, Bool.or_false, List.mem_cons,
    Bool.decide_or, Bool.not_or]

variable (known) in
theorem passes_all_iff {l : AllowBlock K} {T : K → Prop}
    (hf : ∀ allow : Map K Bool, ∃ token, T token ∧ (known token && has allow token) = false) :
    (∀ token, T token → l.passes known token) ↔
      l.blockAll = false ∧ l.allowAll ∧ l.allow = ∅ ∧ ∀ token, T token → has l.block token = false := by
  constructor
  · intro h
    obtain ⟨t, ht, hu⟩ := hf l.allow
    have hp := h t ht
    simp only [passes, hu, Bool.and_eq_true, Bool.not_eq_true'] at hp
    obtain ⟨⟨hb, -⟩, hr⟩ := hp
    split_ifs at hr with hs
    refine ⟨hb, hr, size_eq_zero.1 hs, fun token hto => ?_⟩
    have := h token hto
    simp only [passes, Bool.and_eq_true, Bool.not_eq_true'] at this
    exact this.1.2
  · rintro ⟨hb, ha, hal, hbl⟩ token hto
    simp [passes, hb, ha, hal, hbl token hto]

end AllowBlock
end Golib
