import GoCluster.Peer.Relay
/-!
# Forwarded frames

`ParseFrame`, `payloadFields` and `Encode` each look for the hop marker in a way
of their own. `Encode` keeps the marker of the frame and adds another, and
`payloadFields` does not see a marker with a caret behind it, so
`forwarding_preserves_iff` leaves only lines that have none.
-/
open Golib List

namespace GoCluster.Peer

/-! ## Lines and their fields -/

/-- `PC` and two digits. -/
def IsFrameType (type : Str) : Prop := ∃ a b, isDigitByte a = true ∧ isDigitByte b = true ∧ type = [80, 67, a, b]

/-- A field has no caret and no tilde in it. -/
def IsField (f : Str) : Prop := 94 ∉ f ∧ 126 ∉ f

/-- A hop count and whether a caret follows it. -/
structure Marker where
  hop : Int
  caret : Bool
deriving DecidableEq, Repr

/-- What stands behind the fields of the payload. -/
def markerFields : Option Marker → List Str
  | none => []
  | some marker => hopMarker marker.hop :: if marker.caret then [[]] else []

/-- The line `PCxx^f1^…^fn`, `PCxx^f1^…^fn^Hh` or `PCxx^f1^…^fn^Hh^`. -/
def wireLine (type : Str) (fields : List Str) (marker : Option Marker) : Str :=
  [94].intercalate (type :: (fields ++ markerFields marker))

variable {hop : Int}

section Wire
variable {type : Str} {fields : List Str} {marker : Option Marker}

theorem IsFrameType.plain (h : IsFrameType type) : isPlain type ∧ IsField type ∧ ∃ t, type = 80 :: t := by
  obtain ⟨a, b, ha, hb, rfl⟩ := h
  have hl : ∀ {c : UInt8}, isDigitByte c → isLowerByte c = false := by
    simp_all [isDigitByte, isLowerByte]
    grind
  have hw : IsWord [80, 67, a, b] := by
    apply isWord_of_all
    simp [isWordByte_of_digit ha, isWordByte_of_digit hb]
    decide
  refine ⟨?_, ⟨hw.not_mem (by decide), hw.not_mem (by decide)⟩, _, rfl⟩
  have hPC : isGraphic 80 ∧ isLowerByte 80 = false ∧ isGraphic 67 ∧ isLowerByte 67 = false := by decide
  simp [isPlain, isGraphic_of_word (isWordByte_of_digit ha), isGraphic_of_word (isWordByte_of_digit hb), hl ha,
    hl hb, hPC]

theorem isField_hopMarker (h : 0 < hop) : IsField (hopMarker hop) :=
  ⟨(isWord_hopMarker h).not_mem (by decide), (isWord_hopMarker h).not_mem (by decide)⟩

theorem isField_markerFields (h : ∀ m, marker = some m → 0 < m.hop) : ∀ f ∈ markerFields marker, IsField f := by
  cases marker with
  | none => exact fun f hf => by cases hf
  | some m =>
    have hh := isField_hopMarker (h m rfl)
    intro f hf
    rcases mem_cons.1 hf with rfl | hf
    · exact hh
    · split at hf
      · rw [mem_singleton.1 hf]
        exact ⟨not_mem_nil, not_mem_nil⟩
      · cases hf

theorem splitOn_fields (ht : IsField type) (hfi : ∀ f ∈ fields, IsField f) :
    ([94].intercalate (type :: fields)).splitOn 94 = type :: fields := by
  refine splitOn_intercalate 94 (fun f hf => ?_) (cons_ne_nil _ _)
  rcases mem_cons.1 hf with rfl | hf
  · exact ht.1
  · exact (hfi f hf).1

theorem no_tilde (ht : IsField type) (hfi : ∀ f ∈ fields, IsField f) : 126 ∉ [94].intercalate (type :: fields) := by
  intro h
  rcases mem_join h with h | ⟨f, hf, hm⟩
  · exact absurd h (by decide)
  · rcases mem_cons.1 hf with rfl | hf
    · exact ht.2 hm
    · exact (hfi f hf).2 hm

theorem trimRight_hopMarker (h : 0 < hop) : trimRight (hopMarker hop) = hopMarker hop := by
  obtain ⟨u, b, hu⟩ := (hopMarker hop).eq_nil_or_concat'.resolve_left (by simp [hopMarker])
  have hb : isGraphic b := isGraphic_of_word (isWord_hopMarker h b (by simp [hu]))
  rw [hu, trimRight_append hb]
  rfl

/-! ## What is read of a line -/

variable [Unicode]

theorem parseFrame_fields (htyp : IsFrameType type) {init : List Str} {last : Str}
    (hfi : ∀ f ∈ init ++ [last], IsField f) :
    ∃ f, parseFrame ([94].intercalate (type :: (init ++ [last]))) = some f ∧ f.type = type ∧
      f.fields = init ++ [trimRight last] ∧
      f.hop = (((type :: (init ++ [trimRight last])).reverse.find? isHopToken).bind hopValue).getD 0 := by
  obtain ⟨hp, hty, t, ht⟩ := htyp.plain
  have hj : ∀ s, [94].intercalate (type :: (init ++ [s])) = [94].intercalate (type :: init) ++ 94 :: s :=
    fun s => join_concat 94 (cons_ne_nil type init) s
  have hl : IsField (trimRight last) := by
    have hm := hfi last (by simp)
    exact ⟨fun h => hm.1 ((trimRight_isPrefix last).mem h), fun h => hm.2 ((trimRight_isPrefix last).mem h)⟩
  have ha : ∀ f ∈ init ++ [trimRight last], IsField f := by
    intro f hf
    rcases mem_append.1 hf with hf | hf
    · exact hfi f (mem_append_left _ hf)
    · rw [mem_singleton.1 hf]
      exact hl
  have hr : trimSpace ([94].intercalate (type :: (init ++ [last]))) =
      [94].intercalate (type :: (init ++ [trimRight last])) := by
    have hs : ∃ u, [94].intercalate (type :: init) = 80 :: u := by
      cases init with
      | nil => exact ⟨t, by simp [ht]⟩
      | cons s init => exact ⟨_, by rw [intercalate_cons_cons, ht]; rfl⟩
    obtain ⟨u, hu⟩ := hs
    rw [trimSpace, hj, trimLeft_eq_self (by rw [hu]; exact leadingSpace_graphic (by decide) _),
      trimRight_append (by decide), hj]
  have hti : ([94].intercalate (type :: (init ++ [trimRight last]))).getLast? ≠ some 126 :=
    fun h => no_tilde hty ha (mem_of_getLast? h)
  refine ⟨_, parseFrame_eq hr (by simp [hj]) hti (splitOn_fields hty ha), ?_, rfl, rfl⟩
  rw [trimSpace_plain hp, toUpper_plain hp]

theorem parseFrame_marked (hty : IsFrameType type) (hfi : ∀ f ∈ fields, IsField f) {m : Marker} (hh : 0 < m.hop) :
    ∃ f, parseFrame (wireLine type fields (some m)) = some f ∧ f.type = type ∧
      f.fields = fields ++ markerFields (some m) ∧ (m.hop < 2 ^ 63 → f.hop = m.hop) := by
  have hm := isField_hopMarker hh
  have he : isHopToken [] = false := rfl
  obtain ⟨hop, caret⟩ := m
  cases caret with
  | false =>
    have ha : ∀ f ∈ fields ++ [hopMarker hop], IsField f := by
      intro f hf
      rcases mem_append.1 hf with hf | hf
      · exact hfi f hf
      · rw [mem_singleton.1 hf]
        exact hm
    obtain ⟨f, hf, hft, hff, hfh⟩ := parseFrame_fields hty ha
    rw [trimRight_hopMarker hh] at hff hfh
    refine ⟨f, hf, hft, hff, fun hma => ?_⟩
    obtain ⟨ht, hv⟩ := hopValue_hopMarker hh hma
    rw [hfh]
    simp [ht, hv]
  | true =>
    have ha : ∀ f ∈ (fields ++ [hopMarker hop]) ++ [[]], IsField f := by
      intro f hf
      simp only [mem_append, mem_singleton] at hf
      rcases hf with (hf | rfl) | rfl
      · exact hfi f hf
      · exact hm
      · exact ⟨not_mem_nil, not_mem_nil⟩
    obtain ⟨f, hf, hft, hff, hfh⟩ := parseFrame_fields hty ha
    have hl : wireLine type fields (some ⟨hop, true⟩) = [94].intercalate
        (type :: ((fields ++ [hopMarker hop]) ++ [[]])) := by
      simp [wireLine, markerFields]
    refine ⟨f, hl ▸ hf, hft, by simp [hff, markerFields, trimRight, trimRev], fun hma => ?_⟩
    obtain ⟨ht, hv⟩ := hopValue_hopMarker hh hma
    rw [hfh]
    simp [trimRight, trimRev, he, ht, hv]

omit [Unicode] in
theorem encode_marked {f : Frame} {m : Marker} (hh : 0 < m.hop) (hft : f.type = type)
    (hf : f.fields = fields ++ markerFields (some m)) (hh' : 0 < hop) :
    f.encode hop = wireLine type (fields ++ [hopMarker m.hop]) (some ⟨hop, true⟩) := by
  have hj : ∀ (parts : List Str), parts ≠ [] → type ++ [94] ++ [94].intercalate parts =
      [94].intercalate (type :: parts) := by
    intro parts hp
    obtain ⟨p, ps, rfl⟩ := exists_cons_of_ne_nil hp
    rw [intercalate_cons_cons]
  have ho : (if (ascii "^").isSuffixOf (type ++ [94] ++ [94].intercalate f.fields) then
        type ++ [94] ++ [94].intercalate f.fields
      else type ++ [94] ++ [94].intercalate f.fields ++ [94]) =
      [94].intercalate (type :: (fields ++ [hopMarker m.hop])) ++ [94] := by
    rw [hj _ (by simp [hf, markerFields]), hf]
    obtain ⟨h, caret⟩ := m
    cases caret with
    | true =>
      have hl : type :: (fields ++ markerFields (some ⟨h, true⟩)) = (type :: (fields ++ [hopMarker h])) ++ [[]] := by
        simp [markerFields]
      rw [hl, join_concat 94 (cons_ne_nil _ _), if_pos]
      exact isSuffixOf_iff_suffix.2 (suffix_append ..)
    | false =>
      refine if_neg fun hs => ?_
      have hl : type :: (fields ++ markerFields (some ⟨h, false⟩)) = (type :: fields) ++ [hopMarker h] := rfl
      rw [hl, join_concat 94 (cons_ne_nil _ _)] at hs
      -- The line ends in a digit of the hop count.
      obtain ⟨u, b, hu⟩ := (hopMarker h).eq_nil_or_concat'.resolve_left (by simp [hopMarker])
      obtain ⟨v, hv⟩ := isSuffixOf_iff_suffix.1 hs
      have hla : some (94 : UInt8) = some b := by
        have := congrArg getLast? hv
        rw [hu, ← cons_append, ← append_assoc, getLast?_concat,
          getLast?_append_of_ne_nil _ (by decide)] at this
        exact this
      exact (isField_hopMarker hh).1 (by rw [hu, Option.some.inj hla]; simp)
  have hn : wireLine type (fields ++ [hopMarker m.hop]) (some ⟨hop, true⟩) =
      [94].intercalate (type :: (fields ++ [hopMarker m.hop])) ++ [94] ++ hopMarker hop ++ [94] := by
    have hl : type :: ((fields ++ [hopMarker m.hop]) ++ markerFields (some ⟨hop, true⟩)) =
        ((type :: (fields ++ [hopMarker m.hop])) ++ [hopMarker hop]) ++ [[]] := by simp [markerFields]
    rw [wireLine, hl, join_concat 94 (by simp), join_concat 94 (cons_ne_nil _ _)]
    simp
  unfold Frame.encode
  rw [if_pos hh', hft]
  rw [ho, hn]
  simp [hopMarker]

/-! ## The payload -/

/-- A node should keep the payload of a line, and a line with a hop marker that it sends on with the hop count `hop`
should have this one marker. -/
def Preserves (type : Str) (fields : List Str) (marker : Option Marker) (hop : Int) : Prop :=
  ∃ f, parseFrame (wireLine type fields marker) = some f ∧ f.payloadFields = fields ∧
    ∀ m, marker = some m → f.hop = m.hop ∧ (∃ caret, f.encode hop = wireLine type fields (some ⟨hop, caret⟩)) ∧
      ∃ g, parseFrame (f.encode hop) = some g ∧ g.payloadFields = fields

omit [Unicode] in
theorem wireLine_ne (ht : IsFrameType type) (hfi : ∀ f ∈ fields, IsField f) {ho' : Int} (hh : 0 < hop)
    (hh' : 0 < ho') (caret : Bool) :
    wireLine type (fields ++ [hopMarker hop]) (some ⟨ho', true⟩) ≠ wireLine type fields (some ⟨ho', caret⟩) := by
  have hs : ∀ (fields : List Str) (m : Marker), (∀ f ∈ fields, IsField f) → 0 < m.hop →
      (wireLine type fields (some m)).splitOn 94 = type :: (fields ++ markerFields (some m)) := by
    intro fields m hfi hm
    refine splitOn_fields ht.plain.2.1 fun f hf => ?_
    rcases mem_append.1 hf with hf | hf
    · exact hfi f hf
    · exact isField_markerFields (fun m' hm' => by cases hm'; exact hm) f hf
  have hmo : ∀ f ∈ fields ++ [hopMarker hop], IsField f := by
    intro f hf
    rcases mem_append.1 hf with hf | hf
    · exact hfi f hf
    · rw [mem_singleton.1 hf]
      exact isField_hopMarker hh
  intro heq
  have hl := congrArg (fun line => (line.splitOn 94).length) heq
  rw [hs _ _ hmo hh', hs _ _ hfi hh'] at hl
  cases caret <;> simp [markerFields] at hl

theorem payloadFields_unmarked (htyp : IsFrameType type) (hfi : ∀ f ∈ fields, IsField f) :
    (∃ f, parseFrame (wireLine type fields none) = some f ∧ f.payloadFields = fields) ↔
      ∀ last, fields.getLast? = some last → trimRight last = last ∧ isHopToken last = false := by
  rcases fields.eq_nil_or_concat' with rfl | ⟨init, last, rfl⟩
  · obtain ⟨hpl, hty, t, ht⟩ := htyp.plain
    refine iff_of_true ?_ nofun
    have hne : type ≠ [] := by simp [ht]
    have hti : type.getLast? ≠ some 126 := fun h => hty.2 (mem_of_getLast? h)
    have hli : wireLine type [] none = type := by simp [wireLine, markerFields]
    rw [hli]
    exact ⟨_, parseFrame_eq (trimSpace_plain hpl) hne hti (splitOn_eq_singleton hty.1), rfl⟩
  · obtain ⟨f, hf, -, hff, -⟩ := parseFrame_fields htyp hfi
    have hli : wireLine type (init ++ [last]) none = [94].intercalate (type :: (init ++ [last])) := by
      simp [wireLine, markerFields]
    have hp : f.payloadFields = if isHopToken (trimRight last) then init else init ++ [trimRight last] := by
      simp [Frame.payloadFields, hff]
    simp only [hli, hf, Option.some.injEq, exists_eq_left', hp, getLast?_append, getLast?_singleton,
      Option.some_or, forall_eq']
    constructor
    · intro h
      split at h
      · simp at h
      · rename_i hto
        have hl : trimRight last = last := by simpa using h
        rw [hl] at hto
        exact ⟨hl, by simpa using hto⟩
    · rintro ⟨hl, hto⟩
      rw [hl, hto]
      rfl

/-- A line with a hop marker never keeps its payload: the first part says when any line does, the second what becomes of
a line with a marker. -/
theorem forwarding_preserves_iff (htype : IsFrameType type) (hfields : ∀ f ∈ fields, IsField f)
    (hmarker : ∀ m, marker = some m → 0 < m.hop) {hop : Int} (hhop : 0 < hop) : (Preserves type fields marker hop ↔
      marker = none ∧ ∀ last, fields.getLast? = some last → trimRight last = last ∧ isHopToken last = false) ∧
    ∀ m, marker = some m → ∃ f, parseFrame (wireLine type fields (some m)) = some f ∧ (m.hop < 2 ^ 63 → f.hop = m.hop) ∧
      (f.payloadFields = fields ↔ m.caret = false) ∧
      f.encode hop = wireLine type (fields ++ [hopMarker m.hop]) (some ⟨hop, true⟩) := by
  cases marker with
  | none =>
    rw [← payloadFields_unmarked htype hfields]
    simp [Preserves]
  | some m =>
    have hm := hmarker m rfl
    obtain ⟨f, hf, hft, hff, hfh⟩ := parseFrame_marked htype hfields hm
    have he : f.encode hop = wireLine type (fields ++ [hopMarker m.hop]) (some ⟨hop, true⟩) :=
      encode_marked hm hft hff hhop
    constructor
    · refine ⟨?_, fun h => by cases h.1⟩
      rintro ⟨f', hf', -, hk⟩
      rw [hf] at hf'
      cases hf'
      obtain ⟨-, ⟨caret, hc⟩, -⟩ := hk m rfl
      exact absurd (he.symm.trans hc) (wireLine_ne htype hfields hm hhop caret)
    · rintro m' hm'
      cases hm'
      refine ⟨f, hf, hfh, ?_, he⟩
      have hem : isHopToken [] = false := rfl
      obtain ⟨h, caret⟩ := m
      cases caret with
      | true => simp [Frame.payloadFields, hff, markerFields, hem]
      | false =>
        have ht : isHopToken (hopMarker h) := by
          rw [isHopToken, (isWord_hopMarker hm).trimSpace]
          rfl
        simp [Frame.payloadFields, hff, markerFields, ht]

end Wire

section Example

local instance forwardingUnicode : Unicode := .asciiOnly

/-- A call at the end of a legacy line. -/
theorem forwarding_preserves_iff_legacy : Preserves "PC17" ["K1ABC", "W1AW"] none 4 :=
  (forwarding_preserves_iff ⟨49, 55, rfl, rfl, rfl⟩ (by unfold IsField; decide) (fun m hm => by cases hm)
    (by decide)).1.2
    ⟨rfl, by decide⟩

/-- A topology frame leaves this node with the marker it came with and another one, which become part of the payload. -/
theorem forwarding_keeps_marker :
    wireLine "PC92" ["W1AW", "43200", "D"] (some ⟨5, true⟩) = ascii "PC92^W1AW^43200^D^H5^" ∧
      (∃ f, parseFrame "PC92^W1AW^43200^D^H5^" = some f ∧ f.hop = 5 ∧
        f.payloadFields = [ascii "W1AW", ascii "43200", ascii "D", ascii "H5", []] ∧
        f.encode 4 = "PC92^W1AW^43200^D^H5^H4^") ∧ ¬Preserves "PC92" ["W1AW", "43200", "D"] (some ⟨5, true⟩) 4 := by
  refine ⟨by decide +kernel, ⟨_, rfl, by decide +kernel⟩, ?_⟩
  have hp : (parseFrame (wireLine "PC92" ["W1AW", "43200", "D"] (some ⟨5, true⟩))).map (·.payloadFields) ≠
      some [ascii "W1AW", ascii "43200", ascii "D"] := by decide +kernel
  rintro ⟨f, hf, hk, -⟩
  exact hp (by rw [hf, Option.map_some, hk])

end Example

end GoCluster.Peer
