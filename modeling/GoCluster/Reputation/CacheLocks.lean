import GoCluster.Reputation.Cache
/-!
# The locks of the lookup cache

Goroutines that call `get` and `set`, one move at a time in any order. `set`
takes the mutex of the shard. `get` copies the shard first, mutex included, and
takes the mutex of the copy: nobody else has it, so it keeps nobody out, and if
the shard was locked when it was copied nobody will ever unlock it. The map is
not copied: the copy refers to the same one.

`cache_locks_iff` says for which calls this does no harm: no shard is read by
one goroutine and written by another, and no shard that two goroutines read
loses an expired entry to one of them.
-/
open Golib List

namespace GoCluster.Reputation

inductive CacheCall
  | get (key : Str) (now : Int)
  | set (key : Str) (value : LookupResult) (now : Int) (negative : Bool) (visit : Visit Str)

namespace CacheCall
variable {n : Nat} [NeZero n]

def key : CacheCall → Str
  | .get key _ => key
  | .set key _ _ _ _ => key

def isSet : CacheCall → Bool
  | .get _ _ => false
  | .set _ _ _ _ _ => true

/-- A call with a blank key returns before it looks at a shard. -/
def Blank (call : CacheCall) : Prop := trimSpace call.key = []

instance (call : CacheCall) : Decidable call.Blank := inferInstanceAs (Decidable (_ = _))

def shard (call : CacheCall) : Fin n := TTLCache.shardIndex call.key

/-- What the call does to the cache when no other comes between. -/
def apply (call : CacheCall) (cache : TTLCache n) : TTLCache n :=
  match call with
  | .get key now => (cache.get key now).1
  | .set key value now negative visit => cache.set key value now negative visit

def FindsExpired (cache : TTLCache n) : CacheCall → Prop
  | .get key now => ((cache.shards (TTLCache.shardIndex key)).lookup key).any (·.expired now) = true
  | .set _ _ _ _ _ => False

end CacheCall

/-- Where a goroutine is in the call at the head of its list. -/
inductive CachePc
  /-- Before the call. -/
  | idle
  /-- In `get`, at the lock of its copy of the shard, which was locked or not when it was copied. -/
  | copied (held : Bool)
  /-- In `get`, in the lookup. -/
  | reading
  /-- In `get`, in the deletion of an expired entry. -/
  | deleting
  /-- In `set`, at the lock of the shard. -/
  | waiting
  /-- In `set`, with the lock, in the update and the sweep. -/
  | writing
deriving DecidableEq

structure Goroutine where
  pc : CachePc := .idle
  calls : List CacheCall

/-- The goroutines with the cache and its mutexes. -/
structure CacheUsers (n : Nat) (ι : Type) where
  cache : TTLCache n
  locked : Fin n → Bool := fun _ => false
  goroutines : ι → Goroutine

namespace CacheUsers
variable {n : Nat} [NeZero n] {ι : Type} [DecidableEq ι]

def setPc (u : CacheUsers n ι) (i : ι) (pc : CachePc) : CacheUsers n ι :=
  { u with goroutines := Function.update u.goroutines i { u.goroutines i with pc } }

def finish (u : CacheUsers n ι) (i : ι) : CacheUsers n ι :=
  { u with goroutines := Function.update u.goroutines i { pc := .idle, calls := (u.goroutines i).calls.tail } }

def setLocked (u : CacheUsers n ι) (s : Fin n) (held : Bool) : CacheUsers n ι :=
  { u with locked := Function.update u.locked s held }

def move (u : CacheUsers n ι) (i : ι) : CacheUsers n ι :=
  match (u.goroutines i).calls with
  | [] => u
  | call :: _ =>
    match (u.goroutines i).pc, call with
    | .idle, .get key _ =>
      if trimSpace key = [] then u.finish i else u.setPc i (.copied (u.locked (TTLCache.shardIndex key)))
    | .idle, .set key _ _ _ _ => if trimSpace key = [] then u.finish i else u.setPc i .waiting
    -- the mutex of the copy: free, or held for ever
    | .copied held, .get _ _ => if held then u else u.setPc i .reading
    | .reading, .get key now =>
      if ((u.cache.shards (TTLCache.shardIndex key)).lookup key).any (·.expired now) then u.setPc i .deleting
      else u.finish i
    | .deleting, .get key _ =>
      { u with cache := u.cache.setItems key ((u.cache.shards (TTLCache.shardIndex key)).erase key) }.finish i
    | .waiting, .set key _ _ _ _ =>
      if u.locked (TTLCache.shardIndex key) then u else (u.setLocked (TTLCache.shardIndex key) true).setPc i .writing
    | .writing, .set key value now negative visit =>
      ({ u with cache := u.cache.set key value now negative visit }.setLocked (TTLCache.shardIndex key) false).finish i
    | _, _ => u

def step (u : CacheUsers n ι) (i : ι) : CacheUsers n ι × Unit := (u.move i, ())

def start (cache : TTLCache n) (calls : ι → List CacheCall) : CacheUsers n ι :=
  { cache, goroutines := fun i => { calls := calls i } }

/-! ## What is asked -/

/-- Goroutine `i` is in the call `call`, at `pc`. -/
def At (u : CacheUsers n ι) (i : ι) (pc : CachePc) (call : CacheCall) : Prop :=
  (u.goroutines i).pc = pc ∧ (u.goroutines i).calls.head? = some call

def Reads (u : CacheUsers n ι) (i : ι) (s : Fin n) : Prop := ∃ call, u.At i .reading call ∧ call.shard = s

def Writes (u : CacheUsers n ι) (i : ι) (s : Fin n) : Prop :=
  ∃ call, (u.At i .deleting call ∨ u.At i .writing call) ∧ call.shard = s

/-- Two goroutines are at the map of a shard, and one of them changes it. -/
def Races (u : CacheUsers n ι) : Prop := ∃ i j s, i ≠ j ∧ u.Writes i s ∧ (u.Reads j s ∨ u.Writes j s)

/-- Goroutine `i` is at a lock and stays there whatever the goroutines do. -/
def WaitsForever (u : CacheUsers n ι) (i : ι) : Prop :=
  ((u.goroutines i).pc = .waiting ∨ ∃ held, (u.goroutines i).pc = .copied held) ∧
    ∀ sched, (final step u sched).goroutines i = u.goroutines i

/-- In no interleaving a race, and nobody who waits for ever. -/
def Safe (u : CacheUsers n ι) : Prop :=
  ∀ sched, ¬(final step u sched).Races ∧ ∀ i, ¬(final step u sched).WaitsForever i

end CacheUsers

/-- Two calls that must not meet: a write and a read of one shard, or two reads of one shard the first of
which finds an expired entry. -/
def CacheCall.Clashes {n : Nat} [NeZero n] (cache : TTLCache n) (a b : CacheCall) : Prop :=
  ¬a.Blank ∧ ¬b.Blank ∧ (a.shard : Fin n) = b.shard ∧ b.isSet = false ∧ (a.isSet = true ∨ a.FindsExpired cache)

/-! ## What a move does -/

namespace CacheUsers
variable {n : Nat} [NeZero n] {ι : Type} [DecidableEq ι] {u : CacheUsers n ι} {i j : ι}

inductive Moves (u : CacheUsers n ι) (i : ι) : CacheUsers n ι → Prop
  | none : Moves u i u
  | skip {call : CacheCall} (h : u.At i .idle call) (hblank : call.Blank) : Moves u i (u.finish i)
  | copy {call : CacheCall} (h : u.At i .idle call) (hget : call.isSet = false) (hblank : ¬call.Blank) :
      Moves u i (u.setPc i (.copied (u.locked call.shard)))
  | enter {call : CacheCall} (h : u.At i (.copied false) call) : Moves u i (u.setPc i .reading)
  | found {call : CacheCall} (h : u.At i .reading call) (hfound : call.FindsExpired u.cache) :
      Moves u i (u.setPc i .deleting)
  | read {call : CacheCall} (h : u.At i .reading call) (hfound : ¬call.FindsExpired u.cache) : Moves u i (u.finish i)
  | delete {key : Str} {now : Int} (h : u.At i .deleting (.get key now)) :
      Moves u i ({ u with cache := u.cache.setItems key ((u.cache.shards (TTLCache.shardIndex key)).erase key) }.finish
        i)
  | wait {call : CacheCall} (h : u.At i .idle call) (hset : call.isSet = true) (hblank : ¬call.Blank) :
      Moves u i (u.setPc i .waiting)
  | lock {call : CacheCall} (h : u.At i .waiting call) (hfree : u.locked call.shard = false) :
      Moves u i ((u.setLocked call.shard true).setPc i .writing)
  | write {call : CacheCall} (h : u.At i .writing call) (hset : call.isSet = true) :
      Moves u i (({ u with cache := call.apply u.cache }.setLocked call.shard false).finish i)

theorem moves (u : CacheUsers n ι) (i : ι) : Moves u i (u.move i) := by
  unfold move
  cases hc : (u.goroutines i).calls with
  | nil => exact .none
  | cons call calls =>
    have hat : u.At i (u.goroutines i).pc call := ⟨rfl, by rw [hc]; rfl⟩
    cases call with
    | get key now =>
      cases hpc : (u.goroutines i).pc with
      | idle =>
        rw [hpc] at hat
        dsimp only
        split
        · rename_i hb
          exact .skip hat hb
        · rename_i hb
          exact .copy hat rfl hb
      | copied held =>
        rw [hpc] at hat
        cases held with
        | true => exact .none
        | false => exact .enter hat
      | reading =>
        rw [hpc] at hat
        dsimp only
        split
        · rename_i hf
          exact .found hat hf
        · rename_i hf
          exact .read hat hf
      | deleting =>
        rw [hpc] at hat
        exact .delete hat
      | waiting | writing => exact .none
    | set key value now negative visit =>
      cases hpc : (u.goroutines i).pc with
      | idle =>
        rw [hpc] at hat
        dsimp only
        split
        · rename_i hb
          exact .skip hat hb
        · rename_i hb
          exact .wait hat rfl hb
      | copied held | reading | deleting => exact .none
      | waiting =>
        rw [hpc] at hat
        dsimp only
        split
        · exact .none
        · rename_i hfr
          exact .lock hat (Bool.eq_false_iff.2 hfr)
      | writing =>
        rw [hpc] at hat
        exact .write hat rfl

/-! Each move where it can be made. -/

variable {call : CacheCall}

omit [NeZero n] [DecidableEq ι] in
theorem At.calls_eq {pc : CachePc} {call : CacheCall} (h : u.At i pc call) :
    (u.goroutines i).calls = call :: (u.goroutines i).calls.tail := (cons_head?_tail h.2).symm

theorem move_blank (h : u.At i .idle call) (hb : call.Blank) : u.move i = u.finish i := by
  cases call <;> (unfold move; rw [h.calls_eq, h.1]; exact if_pos hb)

theorem move_copy (h : u.At i .idle call) (hg : call.isSet = false) (hb : ¬call.Blank) :
    u.move i = u.setPc i (.copied (u.locked call.shard)) := by
  cases call with
  | get key now =>
    unfold move
    rw [h.calls_eq, h.1]
    exact if_neg hb
  | set key value now negative visit => cases hg

theorem move_copied {held : Bool} (h : u.At i (.copied held) call) (hg : call.isSet = false) :
    u.move i = if held then u else u.setPc i .reading := by
  cases call with
  | get key now =>
    unfold move
    rw [h.calls_eq, h.1]
  | set key value now negative visit => cases hg

theorem move_reading {key : Str} {now : Int} (h : u.At i .reading (.get key now)) :
    u.move i = if ((u.cache.shards (TTLCache.shardIndex key)).lookup key).any (·.expired now) then u.setPc i .deleting
      else u.finish i := by
  unfold move
  rw [h.calls_eq, h.1]

theorem move_deleting {key : Str} {now : Int} (h : u.At i .deleting (.get key now)) : u.move i =
      { u with cache := u.cache.setItems key ((u.cache.shards (TTLCache.shardIndex key)).erase key) }.finish i := by
  unfold move
  rw [h.calls_eq, h.1]

theorem move_wait (h : u.At i .idle call) (hs : call.isSet) (hb : ¬call.Blank) :
    u.move i = u.setPc i .waiting := by
  cases call with
  | get key now => cases hs
  | set key value now negative visit =>
    unfold move
    rw [h.calls_eq, h.1]
    exact if_neg hb

theorem move_lock (h : u.At i .waiting call) (hs : call.isSet)
    (hf : u.locked call.shard = false) : u.move i = (u.setLocked call.shard true).setPc i .writing := by
  cases call with
  | get key now => cases hs
  | set key value now negative visit =>
    unfold move
    rw [h.calls_eq, h.1]
    exact if_neg (Bool.eq_false_iff.1 hf)

theorem move_write (h : u.At i .writing call) (hs : call.isSet) :
    u.move i = ({ u with cache := call.apply u.cache }.setLocked call.shard false).finish i := by
  cases call with
  | get key now => cases hs
  | set key value now negative visit =>
    unfold move
    rw [h.calls_eq, h.1]
    rfl

theorem Moves.of_ne {u' : CacheUsers n ι} (h : Moves u i u') (hij : j ≠ i) : u'.goroutines j = u.goroutines j := by
  cases h <;> first | rfl | exact Function.update_of_ne hij ..

end CacheUsers

/-! ## Calls that do not clash -/

namespace CacheUsers

section Goroutines
variable {n : Nat} [NeZero n] {ι : Type}

/-- No goroutine has a call of `set` on shard `s`. -/
def NoSet (calls : ι → List CacheCall) (s : Fin n) : Prop :=
  ∀ i, ∀ call ∈ calls i, call.isSet = true → ¬call.Blank → call.shard ≠ s

/-- Which calls can be at a place: those of `get`, those of `set`, or any. -/
def placeOf : CachePc → Option Bool
  | .idle => none
  | .copied _ | .reading | .deleting => some false
  | .waiting | .writing => some true

/-- What holds of goroutine `i` on its own: its calls are the last of the list it began with, and the one at
the head is of the kind its place is for. -/
structure Local (cache : TTLCache n) (calls : ι → List CacheCall) (i : ι) (g : Goroutine) : Prop where
  suffix : g.calls <:+ calls i
  unheld : g.pc ≠ .copied true
  kind : ∀ set, placeOf g.pc = some set → ∃ call, g.calls.head? = some call ∧ call.isSet = set ∧ ¬call.Blank
  expired : g.pc = .deleting → ∀ call, g.calls.head? = some call → NoSet calls (call.shard : Fin n) →
    call.FindsExpired cache

def Holds (g : Goroutine) (s : Fin n) : Prop := g.pc = .writing ∧ ∃ call, g.calls.head? = some call ∧ call.shard = s

/-- A shard is locked if it has an owner, which is the only goroutine that holds it. -/
structure Inv (cache : TTLCache n) (calls : ι → List CacheCall) (u : CacheUsers n ι) : Prop where
  goroutine : ∀ i, Local cache calls i (u.goroutines i)
  owner : ∃ owner : Fin n → Option ι, (∀ s, u.locked s = (owner s).isSome) ∧
    ∀ i s, Holds (u.goroutines i) s ↔ owner s = some i
  kept : ∀ s, NoSet calls s → ∀ key entry, (u.cache.shards s).lookup key = some entry →
    (cache.shards s).lookup key = some entry

variable {cache : TTLCache n} {calls : ι → List CacheCall} {u : CacheUsers n ι} {i : ι} {g : Goroutine}
  {call : CacheCall} {pc : CachePc}

theorem Inv.of_at (h : Inv cache calls u) (hat : u.At i pc call) {set : Bool} (hk : placeOf pc = some set) :
    call ∈ calls i ∧ call.isSet = set ∧ ¬call.Blank := by
  obtain ⟨call', hc, hs⟩ := (h.goroutine i).kind set (hat.1 ▸ hk)
  cases hat.2.symm.trans hc
  exact ⟨(h.goroutine i).suffix.mem (mem_of_mem_head? hc), hs⟩

theorem Local.finish (h : Local cache calls i g) : Local cache calls i { pc := .idle, calls := g.calls.tail } where
  suffix := (tail_suffix _).trans h.suffix
  unheld := by rintro ⟨⟩
  kind := by rintro _ ⟨⟩
  expired := by rintro ⟨⟩

theorem Local.setPc (h : Local cache calls i g) (hc : g.calls.head? = some call) (hb : ¬call.Blank)
    (hk : placeOf pc = some call.isSet) (hu : pc ≠ .copied true)
    (he : pc = .deleting → NoSet calls (call.shard : Fin n) → call.FindsExpired cache) :
    Local cache calls i { g with pc } where
  suffix := h.suffix
  unheld := hu
  kind set hset := ⟨call, hc, Option.some.inj (hk.symm.trans hset), hb⟩
  expired hdel call' hcall' hno := by
    rw [← Option.some.inj (hc.symm.trans hcall')] at hno ⊢
    exact he hdel hno

end Goroutines

variable {n : Nat} [NeZero n] {ι : Type} [DecidableEq ι] {cache : TTLCache n} {calls : ι → List CacheCall}
  {u : CacheUsers n ι} {i j : ι}

theorem local_update (h : ∀ j, Local cache calls j (u.goroutines j)) {g : Goroutine} (hl : Local cache calls i g)
    (j : ι) : Local cache calls j (Function.update u.goroutines i g j) := by
  by_cases hj : j = i
  · subst hj
    rw [Function.update_self]
    exact hl
  · rw [Function.update_of_ne hj]
    exact h j

theorem holds_update (u : CacheUsers n ι) (i j : ι) (g : Goroutine) (s : Fin n) :
    Holds (Function.update u.goroutines i g j) s ↔ if j = i then Holds g s else Holds (u.goroutines j) s := by
  rw [Function.update_apply]
  split <;> rfl

theorem Inv.quiet (h : Inv cache calls u) {g : Goroutine} (hl : Local cache calls i g)
    (hb : (u.goroutines i).pc ≠ .writing) (ha : g.pc ≠ .writing) :
    Inv cache calls { u with goroutines := Function.update u.goroutines i g } := by
  obtain ⟨owner, ho, hh⟩ := h.owner
  refine ⟨local_update h.goroutine hl, ⟨owner, ho, fun j s => ?_⟩, h.kept⟩
  rw [holds_update, ← hh]
  split_ifs with hj
  · subst hj
    exact iff_of_false (fun hg => ha hg.1) fun hg => hb hg.1
  · rfl

theorem Inv.lock (h : Inv cache calls u) {call : CacheCall} (hat : u.At i .waiting call)
    (hf : u.locked call.shard = false) : Inv cache calls ((u.setLocked call.shard true).setPc i .writing) := by
  obtain ⟨-, hset, hb⟩ := h.of_at hat rfl
  obtain ⟨owner, ho, hh⟩ := h.owner
  have hn : owner call.shard = none := by rwa [ho, Option.isSome_eq_false_iff, Option.isNone_iff_eq_none] at hf
  refine ⟨local_update h.goroutine ((h.goroutine i).setPc hat.2 hb (by rw [hset]; rfl) (by rintro ⟨⟩) (by rintro ⟨⟩)),
    ⟨Function.update owner call.shard (some i), fun s => ?_, fun j s => ?_⟩, h.kept⟩
  · simp only [setPc, setLocked, Function.update_apply]
    split
    · rfl
    · exact ho s
  · refine (holds_update ..).trans ?_
    rw [Function.update_apply]
    split_ifs with hj hs hs
    · subst hj hs
      exact iff_of_true ⟨rfl, call, hat.2, rfl⟩ rfl
    · subst hj
      refine iff_of_false ?_ fun ho => ?_
      · rintro ⟨-, other, hc, ho⟩
        cases hat.2.symm.trans hc
        exact hs ho.symm
      · cases hat.1.symm.trans ((hh j s).2 ho).1
    · refine (hh j s).trans ?_
      rw [hs, hn]
      exact iff_of_false (by rintro ⟨⟩) fun ho => hj (Option.some.inj ho).symm
    · exact hh j s

theorem apply_shards_of_ne (call : CacheCall) (cache : TTLCache n) {s : Fin n} (hs : call.shard ≠ s) :
    (call.apply cache).shards s = cache.shards s := by
  cases call with
  | get key now =>
    simp only [CacheCall.apply, TTLCache.get]
    split
    · rfl
    · exact Function.update_of_ne (Ne.symm hs) ..
  | set key value now negative visit =>
    simp only [CacheCall.apply, TTLCache.set]
    split
    · rfl
    · exact Function.update_of_ne (Ne.symm hs) ..

theorem Inv.write (h : Inv cache calls u) {call : CacheCall} (hat : u.At i .writing call) :
    Inv cache calls (({ u with cache := call.apply u.cache }.setLocked call.shard false).finish i) := by
  obtain ⟨hm, hset, hb⟩ := h.of_at hat rfl
  obtain ⟨owner, ho, hh⟩ := h.owner
  have hi : owner call.shard = some i := (hh i _).1 ⟨hat.1, call, hat.2, rfl⟩
  refine ⟨local_update h.goroutine (h.goroutine i).finish,
    ⟨Function.update owner call.shard none, fun s => ?_, fun j s => ?_⟩, fun s hno key entry he => ?_⟩
  · simp only [finish, setLocked, Function.update_apply]
    split
    · rfl
    · exact ho s
  · refine (holds_update ..).trans ?_
    rw [Function.update_apply]
    split_ifs with hj hs hs
    · exact iff_of_false (by rintro ⟨⟨⟩, -⟩) (by rintro ⟨⟩)
    · subst hj
      refine iff_of_false (by rintro ⟨⟨⟩, -⟩) fun ho => ?_
      obtain ⟨-, other, hc, ho⟩ := (hh j s).2 ho
      cases hat.2.symm.trans hc
      exact hs ho.symm
    · refine iff_of_false (fun hg => hj ?_) (by rintro ⟨⟩)
      exact (Option.some.inj (hi.symm.trans (hs ▸ (hh j s).1 hg))).symm
    · exact hh j s
  · have hs : call.shard ≠ s := hno i call hm hset hb
    refine h.kept s hno key entry ?_
    rw [← apply_shards_of_ne call u.cache hs]
    exact he

theorem Inv.delete (h : Inv cache calls u) {key : Str} {now : Int} (hat : u.At i .deleting (.get key now)) :
    Inv cache calls
      ({ u with cache := u.cache.setItems key ((u.cache.shards (TTLCache.shardIndex key)).erase key) }.finish i) := by
  have hq := h.quiet (h.goroutine i).finish (by rw [hat.1]; nofun) nofun
  refine ⟨hq.goroutine, hq.owner, fun s hno k entry he => h.kept s hno k entry ?_⟩
  simp only [finish, TTLCache.setItems, Function.update_apply] at he
  split at he
  · rename_i hs
    rw [← hs] at he
    exact (Map.of_lookup_erase he).1
  · exact he

def Apart (cache : TTLCache n) (calls : ι → List CacheCall) : Prop :=
  ∀ i j, i ≠ j → ∀ a ∈ calls i, ∀ b ∈ calls j, ¬a.Clashes cache b

omit [DecidableEq ι] in
/-- What a `get` finds expired in a shard nobody writes was expired in the beginning. -/
theorem Inv.expired_before (h : Inv cache calls u) {call : CacheCall} (hno : NoSet calls (call.shard : Fin n))
    (hf : call.FindsExpired u.cache) : call.FindsExpired cache := by
  cases call with
  | get key now =>
    simp only [CacheCall.FindsExpired] at hf ⊢
    cases he : (u.cache.shards (TTLCache.shardIndex key)).lookup key with
    | none =>
      rw [he] at hf
      cases hf
    | some entry =>
      rw [he] at hf
      have hk : (cache.shards (TTLCache.shardIndex key)).lookup key = some entry := h.kept _ hno key entry he
      rw [hk]
      exact hf
  | set key value now negative visit => exact hf

theorem Inv.move (h : Inv cache calls u) (ha : Apart cache calls) (i : ι) : Inv cache calls (u.move i) := by
  have hm := moves u i
  generalize u.move i = u' at hm
  cases hm with
  | none => exact h
  | skip hat hb | read hat hf =>
    exact h.quiet (h.goroutine i).finish (by rw [hat.1]; nofun) nofun
  | @copy call hat hg hb =>
    -- the shard is not locked, for the holder would be in a `set` on it
    obtain ⟨owner, ho, hh⟩ := h.owner
    have hfr : u.locked call.shard = false := by
      rw [ho, Option.isSome_eq_false_iff, Option.isNone_iff_eq_none, Option.eq_none_iff_forall_ne_some]
      intro j hj
      obtain ⟨hw, other, hc, hs⟩ := (hh j _).2 hj
      obtain ⟨hm, hse, hb'⟩ := h.of_at (i := j) ⟨hw, hc⟩ rfl
      have hji : j ≠ i := by
        rintro rfl
        cases hat.1.symm.trans hw
      exact ha j i hji other hm call ((h.goroutine i).suffix.mem (mem_of_mem_head? hat.2)) ⟨hb', hb, hs, hg, .inl hse⟩
    refine h.quiet ((h.goroutine i).setPc hat.2 hb ?_ ?_ (by rintro ⟨⟩)) (by rw [hat.1]; nofun) nofun
    · rw [hg]
      rfl
    · rw [hfr]
      nofun
  | enter hat =>
    obtain ⟨-, hg, hb⟩ := h.of_at hat rfl
    exact h.quiet ((h.goroutine i).setPc hat.2 hb (by rw [hg]; rfl) nofun nofun) (by rw [hat.1]; nofun) nofun
  | found hat hf =>
    obtain ⟨-, hg, hb⟩ := h.of_at hat rfl
    exact h.quiet ((h.goroutine i).setPc hat.2 hb (by rw [hg]; rfl) nofun fun _ hno => h.expired_before hno hf)
      (by rw [hat.1]; nofun) nofun
  | delete hat => exact h.delete hat
  | wait hat hse hb =>
    exact h.quiet ((h.goroutine i).setPc hat.2 hb (by rw [hse]; rfl) nofun nofun) (by rw [hat.1]; nofun) nofun
  | lock hat hfr => exact h.lock hat hfr
  | write hat hse => exact h.write hat

omit [DecidableEq ι] in
theorem inv_start (cache : TTLCache n) (calls : ι → List CacheCall) : Inv cache calls (start cache calls) where
  goroutine i := ⟨suffix_refl _, by rintro ⟨⟩, by rintro _ ⟨⟩, by rintro ⟨⟩⟩
  owner := ⟨fun _ => none, fun _ => rfl, fun i s => iff_of_false (by rintro ⟨⟨⟩, -⟩) (by rintro ⟨⟩)⟩
  kept _ _ _ _ h := h

theorem Inv.run (h : Inv cache calls u) (ha : Apart cache calls) (sched : List ι) :
    Inv cache calls (final step u sched) := by
  induction sched generalizing u with
  | nil => exact h
  | cons i sched ih => exact ih (h.move ha i)

omit [DecidableEq ι] in
theorem Inv.access (h : Inv cache calls u) {s : Fin n} (ha : u.Reads j s ∨ u.Writes j s) :
    ∃ b ∈ calls j, ¬b.Blank ∧ (b.shard : Fin n) = s ∧
      (b.isSet = false ∨ (b.isSet ∧ Holds (u.goroutines j) s)) := by
  rcases ha with ⟨b, hb, hbs⟩ | ⟨b, hb | hb, hbs⟩ <;> obtain ⟨hm, hk, hbl⟩ := h.of_at hb rfl
  · exact ⟨b, hm, hbl, hbs, .inl hk⟩
  · exact ⟨b, hm, hbl, hbs, .inl hk⟩
  · exact ⟨b, hm, hbl, hbs, .inr ⟨hk, hb.1, b, hb.2, hbs⟩⟩

theorem Inv.not_races (h : Inv cache calls u) (hap : Apart cache calls) : ¬u.Races := by
  rintro ⟨i, j, s, hij, ⟨a, ha, has⟩, hj⟩
  obtain ⟨b, hbm, hbb, hbs, hb⟩ := h.access hj
  have hs : (a.shard : Fin n) = b.shard := has.trans hbs.symm
  rcases ha with ha | ha
  · -- `i` deletes an expired entry
    obtain ⟨ham, hag, hab⟩ := h.of_at ha rfl
    rcases hb with hbg | ⟨hbse, -⟩
    · -- nobody writes a shard from which two goroutines read, so the entry was there in the beginning
      have hno : NoSet calls (a.shard : Fin n) := by
        intro k c hc hcse hcb hcs
        by_cases hk : k = i
        · subst hk
          exact hap k j hij c hc b hbm ⟨hcb, hbb, hcs.trans hs, hbg, .inl hcse⟩
        · exact hap k i hk c hc a ham ⟨hcb, hab, hcs, hag, .inl hcse⟩
      have he := (h.goroutine i).expired ha.1 a ha.2 hno
      exact hap i j hij a ham b hbm ⟨hab, hbb, hs, hbg, .inr he⟩
    · exact hap j i hij.symm b hbm a ham ⟨hbb, hab, hs.symm, hag, .inl hbse⟩
  · -- `i` has the lock
    obtain ⟨ham, hase, hab⟩ := h.of_at ha rfl
    rcases hb with hbg | ⟨-, hh⟩
    · exact hap i j hij a ham b hbm ⟨hab, hbb, hs, hbg, .inl hase⟩
    · obtain ⟨owner, -, ho⟩ := h.owner
      exact hij (Option.some.inj (((ho i s).1 ⟨ha.1, a, ha.2, has⟩).symm.trans ((ho j s).1 hh)))

theorem Inv.not_waitsForever (h : Inv cache calls u) (i : ι) : ¬u.WaitsForever i := by
  rintro ⟨hpc, hf⟩
  rcases hpc with hpc | ⟨held, hpc⟩
  · obtain ⟨call, hc, hse, -⟩ := (h.goroutine i).kind true (by rw [hpc]; rfl)
    have hat : u.At i .waiting call := ⟨hpc, hc⟩
    cases hl : u.locked call.shard with
    | false =>
      have hm := congrArg Goroutine.pc (hf [i])
      simp only [final, step, move_lock hat hse hl, setPc, Function.update_self, hpc] at hm
      cases hm
    | true =>
      -- the holder moves first
      obtain ⟨owner, ho, hh⟩ := h.owner
      rw [ho] at hl
      obtain ⟨j, hj⟩ := Option.isSome_iff_exists.1 hl
      obtain ⟨hw, other, hc', hs⟩ := (hh j _).2 hj
      have hji : i ≠ j := by
        rintro rfl
        cases hpc.symm.trans hw
      have hwr := move_write ⟨hw, hc'⟩ (h.of_at (i := j) ⟨hw, hc'⟩ rfl).2.1
      have hsa : (u.move j).goroutines i = u.goroutines i := (moves u j).of_ne hji
      have ha' : (u.move j).At i .waiting call := by
        rw [At, hsa]
        exact hat
      have hfr : (u.move j).locked call.shard = false := by
        rw [hwr, ← hs]
        exact Function.update_self ..
      have hm := congrArg Goroutine.pc (hf [j, i])
      simp only [final, step, move_lock ha' hse hfr, setPc, Function.update_self, hpc] at hm
      cases hm
  · -- the copy was not locked
    obtain ⟨call, hc, hg, -⟩ := (h.goroutine i).kind false (by rw [hpc]; rfl)
    cases held with
    | true => exact (h.goroutine i).unheld hpc
    | false =>
      have hm := congrArg Goroutine.pc (hf [i])
      simp only [final, step, move_copied ⟨hpc, hc⟩ hg, Bool.false_eq_true, if_false, setPc, Function.update_self,
        hpc] at hm
      cases hm

theorem safe_of_apart (ha : Apart cache calls) : (start cache calls).Safe := by
  intro sched
  have h := (inv_start cache calls).run ha sched
  exact ⟨h.not_races ha, fun i => h.not_waitsForever i⟩

/-! ## Calls that clash -/

/-- Between the calls: nobody is in one, nothing is locked. -/
structure Quiet (u : CacheUsers n ι) : Prop where
  idle : ∀ i, (u.goroutines i).pc = .idle
  free : ∀ s, u.locked s = false

omit [NeZero n] [DecidableEq ι] in
theorem Quiet.at_idle (h : Quiet u) {call : CacheCall} {rest : List CacheCall}
    (hc : (u.goroutines i).calls = call :: rest) : u.At i .idle call := ⟨h.idle i, by rw [hc]; rfl⟩

section
omit [NeZero n]

theorem at_setPc {call : CacheCall} {pc : CachePc} (h : u.At i pc call) (pc' : CachePc) :
    (u.setPc i pc').At i pc' call := by
  simp only [At, setPc, Function.update_self]
  exact ⟨trivial, h.2⟩

theorem setPc_setPc (pc pc' : CachePc) : (u.setPc i pc).setPc i pc' = u.setPc i pc' := by
  simp only [setPc, Function.update_self, Function.update_idem]

theorem finish_setPc (pc : CachePc) : (u.setPc i pc).finish i = u.finish i := by
  simp only [finish, setPc, Function.update_self, Function.update_idem]

theorem Quiet.finish (h : Quiet u) (c : TTLCache n) : Quiet ({ u with cache := c }.finish i) where
  idle j := by
    simp only [CacheUsers.finish, Function.update_apply]
    split
    · rfl
    · exact h.idle j
  free := h.free

end

omit [DecidableEq ι] in
theorem get_of_expired {key : Str} {now : Int} (hb : trimSpace key ≠ [])
    (h : ((cache.shards (TTLCache.shardIndex key)).lookup key).any (·.expired now)) :
    (cache.get key now).1 = cache.setItems key ((cache.shards (TTLCache.shardIndex key)).erase key) := by
  cases he : (cache.shards (TTLCache.shardIndex key)).lookup key with
  | none =>
    rw [he] at h
    cases h
  | some entry =>
    rw [he, Option.any_some] at h
    simp only [TTLCache.get, if_neg hb, CacheShard.get, he, h, if_true]

omit [DecidableEq ι] in
theorem get_of_not_expired {key : Str} {now : Int}
    (h : ¬((cache.shards (TTLCache.shardIndex key)).lookup key).any (·.expired now)) :
    (cache.get key now).1 = cache := by
  have hs : cache.setItems key (cache.shards (TTLCache.shardIndex key)) = cache := by
    rw [TTLCache.setItems, Function.update_eq_self]
  unfold TTLCache.get CacheShard.get
  split
  · rfl
  · cases he : (cache.shards (TTLCache.shardIndex key)).lookup key with
    | none => exact hs
    | some entry =>
      rw [he, Option.any_some] at h
      simp only [h, Bool.false_eq_true]
      exact hs

theorem Quiet.call (h : Quiet u) {call : CacheCall} {rest : List CacheCall}
    (hcal : (u.goroutines i).calls = call :: rest) :
    ∃ sched, final step u sched = { u with cache := call.apply u.cache }.finish i := by
  have hat := h.at_idle hcal
  by_cases hb : call.Blank
  · refine ⟨[i], ?_⟩
    simp only [final, step, move_blank hat hb]
    cases call with
    | get key now => simp only [CacheCall.apply, TTLCache.get, if_pos (show trimSpace key = [] from hb)]
    | set key value now negative visit =>
      simp only [CacheCall.apply, TTLCache.set, if_pos (show trimSpace key = [] from hb)]
  cases hc : call.isSet with
  | false =>
    have hco := move_copy hat hc hb
    rw [h.free] at hco
    have hr := move_copied (at_setPc hat _) hc (u := u.setPc i (.copied false))
    rw [if_neg (by simp), setPc_setPc] at hr
    cases call with
    | set key value now negative visit => cases hc
    | get key now =>
      have hl := move_reading (at_setPc hat _) (u := u.setPc i .reading)
      have hca : (u.setPc i .reading).cache = u.cache := rfl
      rw [hca] at hl
      by_cases he : ((u.cache.shards (TTLCache.shardIndex key)).lookup key).any (·.expired now)
      · rw [if_pos he, setPc_setPc] at hl
        refine ⟨[i, i, i, i], ?_⟩
        simp only [final, step, hco, hr, hl, move_deleting (at_setPc hat _)]
        rw [CacheCall.apply, get_of_expired (show trimSpace key ≠ [] from hb) he]
        exact finish_setPc (u := { u with cache := _ }) _
      · rw [if_neg he, finish_setPc] at hl
        refine ⟨[i, i, i], ?_⟩
        simp only [final, step, hco, hr, hl]
        rw [CacheCall.apply, get_of_not_expired he]
  | true =>
    have hwa := move_wait hat hc hb
    have hlo := move_lock (at_setPc hat _) hc (u := u.setPc i .waiting) (h.free _)
    have ha' : ((u.setPc i .waiting).setLocked call.shard true).At i .waiting call := at_setPc hat _
    have hw := move_write (at_setPc ha' .writing) hc
    refine ⟨[i, i, i], ?_⟩
    simp only [final, step, hwa, hlo, hw]
    -- the lock is free again
    have hf : Function.update u.locked call.shard false = u.locked := by
      rw [← h.free call.shard, Function.update_eq_self]
    simp only [setPc, setLocked, CacheUsers.finish, Function.update_self, Function.update_idem, hf]

theorem Quiet.reach (h : Quiet u) (first : List CacheCall) {rest : List CacheCall}
    (hca : (u.goroutines i).calls = first ++ rest) :
    ∃ sched, Quiet (final step u sched) ∧ ((final step u sched).goroutines i).calls = rest ∧
      (∀ j, j ≠ i → (final step u sched).goroutines j = u.goroutines j) ∧
      (final step u sched).cache = first.foldl (fun cache call => call.apply cache) u.cache := by
  induction first generalizing u with
  | nil => exact ⟨[], h, hca, fun _ _ => rfl, rfl⟩
  | cons call first ih =>
    obtain ⟨sched, hs⟩ := h.call hca
    have hqu := h.finish (call.apply u.cache) (i := i)
    have hr : (({ u with cache := call.apply u.cache }.finish i).goroutines i).calls = first ++ rest := by
      simp only [CacheUsers.finish, Function.update_self, hca, cons_append, tail_cons]
    obtain ⟨sched', hq, hc, ho, hcac⟩ := ih hqu hr
    refine ⟨sched ++ sched', ?_⟩
    rw [final_append, hs]
    refine ⟨hq, hc, fun j hj => (ho j hj).trans (Function.update_of_ne hj ..), hcac⟩

omit [DecidableEq ι] in
/-- Calls that leave shard `s` as it is: blank ones, those of other shards, and reads that find nothing
expired. -/
theorem foldl_apply_shards {s : Fin n} {first : List CacheCall}
    (h : ∀ call ∈ first, call.Blank ∨ call.shard ≠ s ∨ (call.isSet = false ∧ ¬call.FindsExpired cache)) :
    (first.foldl (fun cache call => call.apply cache) cache).shards s = cache.shards s := by
  have main : ∀ c : TTLCache n, c.shards s = cache.shards s →
      (first.foldl (fun cache call => call.apply cache) c).shards s = cache.shards s := by
    induction first with
    | nil => exact fun c hc => hc
    | cons call first ih =>
      intro c hc
      refine ih (fun call' h' => h call' (mem_cons_of_mem call h')) _ ?_
      by_cases hs : call.shard = s
      · have hk : call.apply c = c := by
          rcases h call (mem_cons_self ..) with hb | hne | ⟨hg, hf⟩
          · cases call with
            | get key now => exact congrArg Prod.fst (if_pos (show trimSpace key = [] from hb))
            | set key value now negative visit => exact if_pos (show trimSpace key = [] from hb)
          · exact absurd hs hne
          · cases call with
            | get key now =>
              refine get_of_not_expired fun he => hf ?_
              have hsh : c.shards (TTLCache.shardIndex key) = cache.shards (TTLCache.shardIndex key) := by
                have hs' : TTLCache.shardIndex key = s := hs
                rw [hs', hc]
              rw [hsh] at he
              exact he
            | set key value now negative visit => cases hg
        dsimp only
        rw [hk, hc]
      · exact (apply_shards_of_ne call c hs).trans hc
  exact main cache rfl

/-- Nobody unlocks the mutex of a copy. -/
theorem waitsForever_copied {call : CacheCall} (hat : u.At j (.copied true) call) (hg : call.isSet = false) :
    u.WaitsForever j := by
  refine ⟨.inr ⟨true, hat.1⟩, fun sched => ?_⟩
  induction sched generalizing u with
  | nil => rfl
  | cons k sched ih =>
    have hs : (u.move k).goroutines j = u.goroutines j := by
      by_cases hk : j = k
      · subst hk
        rw [move_copied hat hg, if_pos rfl]
      · exact (moves u k).of_ne hk
    have ha' : (u.move k).At j (.copied true) call := by
      rw [At, hs]
      exact hat
    exact (ih ha').trans hs

omit [NeZero n] [DecidableEq ι] in
theorem quiet_start (cache : TTLCache n) (calls : ι → List CacheCall) : Quiet (start cache calls) :=
  ⟨fun _ => rfl, fun _ => rfl⟩

theorem reach_calls (cache : TTLCache n) {firstI firstJ restI restJ : List CacheCall} (hij : i ≠ j)
    (hi : calls i = firstI ++ restI)
    (hj : calls j = firstJ ++ restJ) : ∃ sched, Quiet (final step (start cache calls) sched) ∧
      ((final step (start cache calls) sched).goroutines i).calls = restI ∧
      ((final step (start cache calls) sched).goroutines j).calls = restJ ∧
      (final step (start cache calls) sched).cache =
        (firstI ++ firstJ).foldl (fun cache call => call.apply cache) cache := by
  obtain ⟨sched, hq, hc, ho, hca⟩ := (quiet_start cache calls).reach firstI (i := i) hi
  obtain ⟨sched', hq', hc', ho', hca'⟩ := hq.reach firstJ (i := j) (by rw [ho j hij.symm]; exact hj)
  refine ⟨sched ++ sched', ?_⟩
  rw [final_append]
  refine ⟨hq', by rw [ho' i hij, hc], hc', ?_⟩
  rw [hca', hca, foldl_append]
  rfl

/-- A `get` that copies the shard while another goroutine has its lock waits for ever. -/
theorem not_safe_of_set {a b : CacheCall} (hij : i ≠ j) (ha : a ∈ calls i) (hb : b ∈ calls j) (has : a.isSet)
    (hbg : b.isSet = false) (hab : ¬a.Blank) (hbb : ¬b.Blank) (hs : (a.shard : Fin n) = b.shard) :
    ¬(start cache calls).Safe := by
  intro hsa
  obtain ⟨firstI, restI, hi⟩ := append_of_mem ha
  obtain ⟨firstJ, restJ, hj⟩ := append_of_mem hb
  obtain ⟨sched, hq, hci, hcj, -⟩ := reach_calls cache hij hi hj
  have hs' := fun moves => (hsa (sched ++ moves)).2 j
  simp only [final_append] at hs'
  generalize final step (start cache calls) sched = v at hq hci hcj hs'
  -- `i` takes the lock, then `j` copies the shard
  have hat := hq.at_idle hci
  have hatj := hq.at_idle hcj
  have hw := move_wait hat has hab
  have hl := move_lock (at_setPc hat _) has (u := v.setPc i .waiting) (hq.free _)
  have ho : ((((v.setPc i .waiting).setLocked a.shard true).setPc i .writing)).goroutines j = v.goroutines j := by
    simp only [setPc, setLocked, Function.update_of_ne hij.symm]
  have ha' : ((((v.setPc i .waiting).setLocked a.shard true).setPc i .writing)).At j .idle b := by
    rw [At, ho]
    exact hatj
  have hc := move_copy ha' hbg hbb
  have hh : ((((v.setPc i .waiting).setLocked a.shard true).setPc i .writing)).locked b.shard := by
    rw [← hs]
    exact Function.update_self ..
  rw [hh] at hc
  refine hs' [i, i, j] ?_
  simp only [final, step, hw, hl, hc]
  exact waitsForever_copied (at_setPc ha' _) hbg

omit [NeZero n] in
theorem setPc_of_ne (hij : j ≠ i) (pc : CachePc) : (u.setPc i pc).goroutines j = u.goroutines j :=
  Function.update_of_ne hij ..

theorem Quiet.enter (hq : ∀ s, u.locked s = false) {call : CacheCall} (hat : u.At i .idle call)
    (hg : call.isSet = false) (hb : ¬call.Blank) : final step u [i, i] = u.setPc i .reading := by
  have hc := move_copy hat hg hb
  rw [hq] at hc
  have hr := move_copied (at_setPc hat (.copied false)) hg
  rw [if_neg (by simp), setPc_setPc] at hr
  simp only [final, step, hc, hr]

/-- Two goroutines read a shard that nobody writes, and the first finds an expired entry: it deletes it while
the other one looks. -/
theorem not_safe_of_expired {a b : CacheCall} (hij : i ≠ j) (ha : a ∈ calls i) (hb : b ∈ calls j)
    (hag : ∀ c ∈ calls i, (c.shard : Fin n) = a.shard → c.isSet = false ∨ c.Blank)
    (hbg : ∀ c ∈ calls j, (c.shard : Fin n) = a.shard → c.isSet = false ∨ c.Blank)
    (hab : ¬a.Blank) (hbb : ¬b.Blank) (hsha : (a.shard : Fin n) = b.shard) (hfin : a.FindsExpired cache) :
    ¬(start cache calls).Safe := by
  intro hsa
  -- the first call of `i` on the shard that finds something expired, and the first call of `j` on the shard
  let pa (c : CacheCall) : Prop := (c.shard : Fin n) = a.shard ∧ ¬c.Blank ∧ c.FindsExpired cache
  let pb (c : CacheCall) : Prop := (c.shard : Fin n) = a.shard ∧ ¬c.Blank
  classical
  obtain ⟨a', firstI, restI, hf, ha', hi, -⟩ := exists_of_eraseP (p := fun c => decide (pa c)) ha
    (by simpa [pa] using ⟨hab, hfin⟩)
  obtain ⟨b', firstJ, restJ, hfi, hb', hj, -⟩ := exists_of_eraseP (p := fun c => decide (pb c)) hb
    (by simpa [pb] using ⟨hsha.symm, hbb⟩)
  obtain ⟨has, hab', hf'⟩ : pa a' := of_decide_eq_true ha'
  obtain ⟨hbs, hbb'⟩ : pb b' := of_decide_eq_true hb'
  have hage : a'.isSet = false :=
    (hag a' (by rw [hi]; simp) has).resolve_right hab'
  have hbge : b'.isSet = false :=
    (hbg b' (by rw [hj]; simp) hbs).resolve_right hbb'
  obtain ⟨sched, hq, hci, hcj, hca⟩ := reach_calls cache hij hi hj
  -- nothing has touched the shard
  have hk : ((firstI ++ firstJ).foldl (fun cache call => call.apply cache) cache).shards a.shard =
      cache.shards a.shard := by
    refine foldl_apply_shards fun c hc => ?_
    by_cases hcb : c.Blank
    · exact .inl hcb
    by_cases hcs : (c.shard : Fin n) = a.shard
    · rcases mem_append.1 hc with hc | hc
      · have hcg := (hag c (by rw [hi]; exact mem_append_left _ hc) hcs).resolve_right hcb
        refine .inr (.inr ⟨hcg, fun hcf => hf c hc ?_⟩)
        exact decide_eq_true (⟨hcs, hcb, hcf⟩ : pa c)
      · exact absurd (decide_eq_true (⟨hcs, hcb⟩ : pb c)) (hfi c hc)
    · exact .inr (.inl hcs)
  have hs' := fun moves => (hsa (sched ++ moves)).1
  simp only [final_append] at hs'
  generalize final step (start cache calls) sched = v at hq hci hcj hca hs'
  have hsh : v.cache.shards a.shard = cache.shards a.shard := by rw [hca, hk]
  have hatj := hq.at_idle hcj
  have hat : (v.setPc j .reading).At i .idle a' := by
    rw [At, setPc_of_ne hij]
    exact hq.at_idle hci
  have hr := Quiet.enter hq.free hatj hbge hbb'
  have hr' := Quiet.enter (u := v.setPc j .reading) hq.free hat hage hab'
  cases a' with
  | set key value now negative visit => cases hage
  | get key now =>
    -- `i` finds the entry that was there in the beginning
    have hfo : ((v.cache.shards (TTLCache.shardIndex key)).lookup key).any (·.expired now) := by
      have hs : TTLCache.shardIndex key = (a.shard : Fin n) := has
      rw [hs, hsh, ← hs]
      exact hf'
    have hd := move_reading (at_setPc hat .reading)
    have hc' : ((v.setPc j .reading).setPc i .reading).cache = v.cache := rfl
    rw [hc', if_pos hfo, setPc_setPc] at hd
    refine hs' ([j, j] ++ ([i, i] ++ [i])) ?_
    rw [final_append, hr, final_append, hr']
    simp only [final, step, hd]
    refine ⟨i, j, a.shard, hij, ⟨.get key now, .inl (at_setPc hat _), has⟩, .inl ⟨b', ?_, hbs⟩⟩
    rw [At, setPc_of_ne hij.symm]
    exact at_setPc hatj _

/-- The lookup cache is free of races and of goroutines that wait for ever exactly if no calls of two
goroutines clash. -/
theorem cache_locks_iff (cache : TTLCache n) (calls : ι → List CacheCall) :
    (start cache calls).Safe ↔ ∀ i j, i ≠ j → ∀ a ∈ calls i, ∀ b ∈ calls j, ¬a.Clashes cache b := by
  refine ⟨fun hsa => ?_, safe_of_apart⟩
  have hse : ∀ i j, i ≠ j → ∀ a ∈ calls i, ∀ b ∈ calls j, ¬a.Blank → ¬b.Blank → (a.shard : Fin n) = b.shard →
      b.isSet = false → a.isSet = false := by
    intro i j hij a ha b hb hab hbb hs hbg
    by_contra has
    exact not_safe_of_set hij ha hb (by simpa using has) hbg hab hbb hs hsa
  rintro i j hij a ha b hb ⟨hab, hbb, hs, hbg, has | hf⟩
  · have := hse i j hij a ha b hb hab hbb hs hbg
    rw [has] at this
    cases this
  · have hag : a.isSet = false := hse i j hij a ha b hb hab hbb hs hbg
    refine not_safe_of_expired hij ha hb ?_ ?_ hab hbb hs hf hsa
    · intro c hc hcs
      by_cases hcb : c.Blank
      · exact .inr hcb
      · exact .inl (hse i j hij c hc b hb hcb hbb (hcs.trans hs) hbg)
    · intro c hc hcs
      by_cases hcb : c.Blank
      · exact .inr hcb
      · exact .inl (hse j i hij.symm c hc a ha hcb hab hcs hag)

/-- Two goroutines that look one address up in an empty cache. -/
theorem cache_locks_iff_two_readers : (start (newTTLCache 32 0 0 0) fun _ : Bool => [.get "192.0.2.1" 0]).Safe := by
  refine (cache_locks_iff (newTTLCache 32 0 0 0) fun _ : Bool => [.get "192.0.2.1" 0]).2 ?_
  intro i j _ a ha b hb hc
  rw [mem_singleton] at ha hb
  subst ha
  rcases hc.2.2.2.2 with hs | hf
  · cases hs
  · cases hf

/-! A login that looks an address up while another one stores a result for the same address. -/

def oneReader : Bool → List CacheCall
  | false => [.get "192.0.2.1" 0]
  | true => [.set "192.0.2.1" {} 0 false (Visit.stored Str)]

/-- The reader copies the shard before the writer locks it, and reads while the writer writes. Or it copies the
shard while the writer has the lock, and is at the lock of its copy after everybody else has finished. -/
theorem reader_meets_writer : let u : CacheUsers 32 Bool := start (newTTLCache 32 0 0 0) oneReader
    let raced := final step u [false, false, true, true]
    let stuck := final step u [true, true, false, true, false, true, false]
    (raced.goroutines false).pc = .reading ∧ (raced.goroutines true).pc = .writing ∧
      (stuck.goroutines false).pc = .copied true ∧ (stuck.goroutines true).pc = .idle ∧
      (stuck.goroutines true).calls.isEmpty ∧ stuck.locked (TTLCache.shardIndex "192.0.2.1") = false := by
  decide +kernel

end CacheUsers

end GoCluster.Reputation
