import GoCluster.Spot.Comment
import Mathlib.Data.List.Induction
/-!
# Reports

The report of a comment is to be an integer with its unit, in one token or in
two that follow each other, or where the mode has such reports an integer alone.
`report_genuine` says so of every comment in which the first number that is read
has its unit or no token has one. Others can be misread: the first number waits
for a later `dB`, and the last resort is a pattern that takes up to three digits
of a longer number (`misread_reports`).
-/
open Golib List

namespace GoCluster.Comment

section Reports
variable [Unicode]

def tokensOf (comment : Str) : List Token := tokenizeComment (trimSpace comment)

def keywordsOf (comment : Str) : List Match := keywordScanner.findAll (toUpper (trimSpace comment))

/-- The keyword that is seen in a token. -/
def wordOf (comment : Str) : Token → Option Pattern := classifyTokenWithFallback (keywordsOf comment)

/-- An integer with the unit at its end or in the next token. -/
def Tagged (comment : Str) (v : Int) : Prop :=
  ∃ before tok after, tokensOf comment = before ++ tok :: after ∧
    ((∃ num, toLower (trimSpace tok.clean) = num ++ ascii "db" ∧ atoi num = some v) ∨
      atoi tok.clean = some v ∧ ∃ unit ∈ after.head?, toUpper unit.clean = ascii "DB")

/-- The token is a time or begins with none, and it is no unit and no number with one. -/
structure Quiet (comment : Str) (tok : Token) : Prop where
  time : isTimeToken tok.clean ∨ peelTimePrefix tok.clean = ([], tok.clean)
  unit : ∀ p ∈ wordOf comment tok, p.kind ≠ .db
  inline : parseInlineSNR tok.clean = none

/-- A number that is no keyword, with its unit. -/
structure Genuine (comment : Str) (tok : Token) (after : List Token) (v : Int) : Prop where
  time : peelTimePrefix tok.clean = ([], tok.clean)
  word : wordOf comment tok = none
  value : parseInlineSNR tok.clean = some v ∨ parseInlineSNR tok.clean = none ∧ parseSignedInt tok.clean = some v ∧
    ∃ unit ∈ after.head?, peelTimePrefix unit.clean = ([], unit.clean) ∧ toUpper unit.clean = ascii "DB" ∧
      ∃ p ∈ wordOf comment unit, p.kind = .db

/-- A text without `dB` in it, in whatever case. -/
structure Unitless (text : Str) : Prop where
  upper : toUpper text ≠ ascii "DB"
  suffix : ¬ascii "db" <:+ toLower (trimSpace text)
  bytes : ∀ unit, unit <:+: trimSpace text → unit.map lowerByte ≠ ascii "db"

/-- The first number that is read has its unit, or no token has one in it. -/
def Unambiguous (comment : Str) : Prop :=
  (∃ before tok after v, tokensOf comment = before ++ tok :: after ∧ Genuine comment tok after v ∧
    ∀ u ∈ before, Quiet comment u ∧ parseSignedInt u.clean = none) ∨
  ∀ tok ∈ tokensOf comment, Quiet comment tok ∧ Unitless tok.clean

/-! ## The readers -/

section
omit [Unicode]
variable {text : Str} {v v' : Int}

theorem sane_some (h : sane v = some v') : v = v' ∧ -200 ≤ v' ∧ v' ≤ 200 := by
  unfold sane at h
  split_ifs at h with hr
  cases h
  exact ⟨rfl, by omega, by omega⟩

theorem parseSignedInt_some (h : parseSignedInt text = some v) : atoi text = some v ∧ -200 ≤ v ∧ v ≤ 200 := by
  unfold parseSignedInt at h
  split_ifs at h
  obtain ⟨v', ha, hs⟩ := Option.bind_eq_some_iff.1 h
  obtain ⟨rfl, hr⟩ := sane_some hs
  exact ⟨ha, hr⟩

end

theorem parseInlineSNR_some {text : Str} {v : Int} (h : parseInlineSNR text = some v) :
    (∃ num, toLower (trimSpace text) = num ++ ascii "db" ∧ atoi num = some v) ∧ -200 ≤ v ∧ v ≤ 200 := by
  unfold parseInlineSNR at h
  dsimp only at h
  split_ifs at h with hs hn
  obtain ⟨num, hn⟩ : ascii "db" <:+ toLower (trimSpace text) := by simpa using hs
  obtain ⟨v', ha, hv⟩ := Option.bind_eq_some_iff.1 h
  obtain ⟨rfl, hr⟩ := sane_some hv
  rw [← hn] at ha
  exact ⟨⟨num, hn.symm, by simpa [trimSuffix] using ha⟩, hr⟩

/-! ## One token -/

variable {comment : Str} {freq : Number} {n : Nat} {st : Loop} {tok : Token} {v : Int} {found : List Match}

theorem peel_kept (st : Loop) (n : Nat) (tok : Token) :
    (st.peel n tok).1.hasReport = st.hasReport ∧ (st.peel n tok).1.report = st.report := by
  unfold Loop.peel
  grind

/-- Once there is a report it is kept. -/
theorem step_kept (h : st.hasReport = true) :
    (st.step freq found n).hasReport = true ∧ (st.step freq found n).report = st.report := by
  unfold Loop.step
  cases st.tokens[n]? with
  | none => exact ⟨h, rfl⟩
  | some tok =>
    have hp := peel_kept st n tok
    dsimp only
    generalize st.peel n tok = peeled at hp ⊢
    rw [h] at hp
    cases classifyTokenWithFallback found peeled.2 with
    | none => grind [Loop.consume, Loop.number]
    | some p => grind [Loop.consume, Loop.number, Loop.keyword, Loop.speed]

omit [Unicode] in
theorem peelTimePrefix_of_time {text : Str} (h : isTimeToken text) : peelTimePrefix text = (text, []) := by
  have hl : text.length ≤ 5 := by
    simp only [isTimeToken, Bool.and_eq_true, decide_eq_true_eq] at h
    exact h.1.1.le
  rw [peelTimePrefix, take_of_length_le hl, if_pos h, drop_of_length_le hl]
  rfl

/-- A token that begins with no time. -/
theorem step_eq (hn : st.tokens[n]? = some tok) (ht : peelTimePrefix tok.clean = ([], tok.clean)) :
    st.step freq found n = if tok.clean = [] then st.consume n else
      ((classifyTokenWithFallback found tok).bind (st.keyword freq n)).getD (st.number n tok.clean) := by
  have hp : st.peel n tok = (st, tok) := by simp [Loop.peel, ht]
  have hno : isTimeToken tok.clean = false := by
    rw [Bool.eq_false_iff]
    intro h
    rw [peelTimePrefix_of_time h] at ht
    rw [(Prod.mk.inj ht).1] at h
    cases h
  unfold Loop.step
  simp only [hn, hp, hno, Bool.false_eq_true, if_false]
  cases (classifyTokenWithFallback found tok).bind (st.keyword freq n) <;> rfl

/-! ## The loop -/

/-- The state after `n` tokens. -/
def loopAt (comment : Str) (freq : Number) (n : Nat) : Loop :=
  (range n).foldl (Loop.step freq (keywordsOf comment))
    { tokens := tokensOf comment, consumed := replicate (tokensOf comment).length false }

theorem loopAt_succ (comment : Str) (freq : Number) (n : Nat) :
    loopAt comment freq (n + 1) = (loopAt comment freq n).step freq (keywordsOf comment) n := by
  rw [loopAt, range_succ, foldl_concat]
  rfl

theorem loop_kept {k : Nat} (hk : (loopAt comment freq k).hasReport = true ∧ (loopAt comment freq k).report = v)
    (hn : k ≤ n) : (loopAt comment freq n).hasReport = true ∧ (loopAt comment freq n).report = v := by
  induction n, hn using Nat.le_induction with
  | base => exact hk
  | succ n hn ih =>
    rw [loopAt_succ]
    exact (step_kept ih.1).imp_right (·.trans ih.2)

variable {before after : List Token}

/-- The state when the tokens of `before` were quiet. Of the tokens only times are cut away. -/
@[mk_iff]
structure Silent (comment : Str) (before after : List Token) (st : Loop) : Prop where
  rest : st.tokens.drop before.length = after
  kept : ∀ u ∈ st.tokens, u ∈ tokensOf comment ∨ u.clean = []
  report : st.hasReport = false
  pending : ∀ i v, st.pending = some (i, v) → ∃ u ∈ before, parseSignedInt u.clean = some v

namespace Silent

theorem head (h : Silent comment before (tok :: after) st) : st.tokens[before.length]? = some tok := by
  rw [← head?_drop, h.rest]
  rfl

theorem step (h : Silent comment before (tok :: after) st) (hq : Quiet comment tok) :
    Silent comment (before ++ [tok]) after (st.step freq (keywordsOf comment) before.length) := by
  have hn := h.head
  obtain ⟨hre, hk, hr, hp⟩ := h
  obtain ⟨ht, hu, hi⟩ := hq
  have hd : st.tokens.drop (before.length + 1) = after := by rw [← tail_drop, hre]; rfl
  simp only [silent_iff, length_append, length_singleton, mem_append, mem_singleton, or_and_right, exists_or,
    exists_eq_left]
  rcases ht with ht | ht
  · have hpe := peelTimePrefix_of_time ht
    unfold Loop.step Loop.peel
    grind [Loop.consume, mem_or_eq_of_mem_set, drop_set_of_lt]
  rw [step_eq hn ht, ← wordOf]
  cases hw : wordOf comment tok with
  | none => grind [Loop.consume, Loop.number]
  | some p => grind [Loop.consume, Loop.number, Loop.keyword, Loop.speed]

end Silent

theorem loop_quiet (freq : Number) (ht : tokensOf comment = before ++ after) (hb : ∀ u ∈ before, Quiet comment u) :
    Silent comment before after (loopAt comment freq before.length) := by
  induction before using reverseRecOn generalizing after with
  | nil => exact ⟨ht, fun _ => .inl, rfl, nofun⟩
  | append_singleton before tok ih =>
    rw [length_append, length_singleton, loopAt_succ]
    exact (ih (by simpa using ht) fun u hm => hb u (mem_append_left _ hm)).step (hb tok (by simp))

/-- The first number that is read, if it has its unit. -/
theorem loop_genuine (freq : Number) (ht : tokensOf comment = before ++ tok :: after)
    (hg : Genuine comment tok after v) (hb : ∀ u ∈ before, Quiet comment u ∧ parseSignedInt u.clean = none) :
    (loopAt comment freq (tokensOf comment).length).hasReport = true ∧
      (loopAt comment freq (tokensOf comment).length).report = v := by
  have hs := loop_quiet freq ht fun u hm => (hb u hm).1
  have hno : (loopAt comment freq before.length).pending = none := by
    rw [Option.eq_none_iff_forall_ne_some]
    rintro ⟨i, v⟩ hi
    obtain ⟨u, hm, hv⟩ := hs.pending i v hi
    cases (hb u hm).2.symm.trans hv
  have hne {text : Str} (h : parseInlineSNR text = some v ∨ parseSignedInt text = some v) : text ≠ [] := by
    rintro rfl
    rcases h with h | h <;> cases h
  have h1 := loopAt_succ comment freq before.length
  rw [step_eq hs.head hg.time, ← wordOf, hg.word] at h1
  rcases hg.value with hv | ⟨hi, hv, unit, hu, hut, hud, p, hup, hpd⟩
  · refine loop_kept (k := before.length + 1) ?_ (by simp [ht])
    rw [h1, if_neg (hne (.inl hv))]
    simp [Loop.number, hs.report, hv]
  · obtain ⟨rest, rfl⟩ : ∃ rest, after = unit :: rest := head?_eq_some_iff.1 hu
    have h2 := loopAt_succ comment freq (before.length + 1)
    rw [if_neg (hne (.inr hv))] at h1
    simp only [Option.bind_none, Option.getD_none, Loop.number, hs.report, hi, hno, hv] at h1
    have hn : (loopAt comment freq before.length).tokens[before.length + 1]? = some unit := by
      rw [← head?_drop, ← tail_drop, hs.rest]
      rfl
    rw [step_eq (show _ = some unit by rw [h1]; exact hn) hut, ← wordOf, Option.mem_def.1 hup, h1] at h2
    refine loop_kept (k := before.length + 2) ?_ (by simp [ht])
    rw [h2, if_neg (by rintro he; rw [he] at hud; cases hud)]
    simp [Loop.keyword, hpd]

/-! ## What is left -/

omit [Unicode] in
theorem unit_of_findSNR {s num : Str} (h : findSNR s = some num) :
    ∃ unit, unit <:+: s ∧ unit.map lowerByte = ascii "db" := by
  obtain ⟨t, ht, hn⟩ := exists_of_findSome?_eq_some h
  unfold snrAt at hn
  dsimp only at hn
  split_ifs at hn with hba
  obtain ⟨-, -, hd⟩ := by simpa only [not_or, not_not] using hba
  refine ⟨_, IsInfix.trans ?_ ((mem_tails t s).1 ht).isInfix, hd⟩
  exact ( take_prefix _ _).isInfix.trans
    ((dropWhile_suffix _).trans ((drop_suffix _ _).trans (drop_suffix _ _))).isInfix

section Plain
variable (hp : ∀ tok ∈ tokensOf comment, Unitless tok.clean)
include hp

theorem findSNR_plain (hs : ∀ u ∈ st.tokens, u ∈ tokensOf comment ∨ u.clean = []) : findSNR st.buildComment = none := by
  rw [Option.eq_none_iff_forall_ne_some]
  intro num hnum
  obtain ⟨unit, hin, hdb⟩ := unit_of_findSNR hnum
  have hb : 32 ∉ unit := by
    intro hm
    have := mem_map_of_mem (f := lowerByte) hm
    rw [hdb] at this
    revert this
    decide
  obtain ⟨part, hpa, hin⟩ := exists_mem_of_infix_join hb (by rintro rfl; cases hdb) hin
  obtain ⟨⟨tok, used⟩, hz, hpart⟩ := mem_filterMap.1 hpa
  dsimp only at hpart
  split_ifs at hpart with hne
  cases hpart
  rcases hs tok (of_mem_zip hz).1 with hm | he
  · exact (hp tok hm).bytes unit hin hdb
  · exact hne (.inr (by rw [he]; rfl))

theorem not_tagged (v : Int) : ¬Tagged comment v := by
  rintro ⟨before, tok, after, ht, ⟨num, hn, -⟩ | ⟨-, unit, hu, hd⟩⟩
  · exact (hp tok (by simp [ht])).suffix ⟨num, hn.symm⟩
  · exact (hp unit (by simp [ht, mem_of_mem_head? hu])).upper hd

end Plain

end Reports

local instance reportsUnicode : Unicode := .asciiOnly

def cwComment : Str := "CW 14 dB 22 WPM CQ 1234Z"

theorem unambiguous_cw : Unambiguous cwComment := by
  refine .inl ⟨[⟨"CW", "CW", 0, 2⟩], ⟨"14", "14", 3, 5⟩, (tokensOf cwComment).drop 2, 14, by decide +kernel,
    ⟨by decide, by decide +kernel, .inr ⟨by decide, by decide, ⟨"dB", "DB", 6, 8⟩, by decide +kernel, by decide,
      by decide, ⟨"DB", .db, []⟩, by decide +kernel, rfl⟩⟩, fun u hu => ?_⟩
  obtain rfl := mem_singleton.1 hu
  exact ⟨⟨by decide, by decide +kernel, by decide⟩, by decide⟩

end GoCluster.Comment
