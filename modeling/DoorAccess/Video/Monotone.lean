import DoorAccess.Video.Timeline

/-!
# When the time axis goes back

`Axis` follows the units received on a time axis without an end: the first unit of the segment,
where the segment begins and how far its pictures have come. The fields of the writer are that axis
cut off at `u32::MAX`.

As long as the RTP times within a segment do not go back, the times of the tags go back in one case
only, and there they always do: a segment begun by an epoch change has a picture at least one
millisecond after its first unit, and an IDR after that picture is the first one of the segment, so
that its sequence header is written late, with the time at which the segment began.
-/

set_option autoImplicit false
set_option relaxedAutoImplicit false

namespace DoorAccess.Video

/-! ### The axis of the units -/

structure Axis where
  /-- The first unit of the segment. -/
  first : NalUnit
  /-- Where the segment begins, in milliseconds. -/
  base : ℕ
  /-- How far after that the last picture is. -/
  span : ℕ

namespace Axis

/-- A unit of another epoch begins its segment a gap after the one before. -/
def enter (a : Axis) (n : NalUnit) : Axis :=
  if n.streamEpoch = a.first.streamEpoch then a else ⟨n, a.base + a.span + SEGMENT_GAP_MS.toNat, 0⟩

/-- The ticks from the first unit of the segment. -/
def ticks (a : Axis) (n : NalUnit) : ℕ :=
  (n.timestamp - a.first.timestamp).toNat

def next (a : Axis) (n : NalUnit) : Axis :=
  if n.isParameterSet = true then a.enter n
  else { a.enter n with span := max (a.enter n).span ((a.enter n).ticks n / 90) }

end Axis

/-- The axis after the seed IDR and the units received. -/
def axis (idr : NalUnit) (nals : List NalUnit) : Axis :=
  nals.foldl Axis.next ⟨idr, 0, 0⟩

/-- The ticks of the unit `n`, received after `nals`, from the first unit of its segment. -/
def offset (idr : NalUnit) (nals : List NalUnit) (n : NalUnit) : ℕ :=
  ((axis idr nals).enter n).ticks n

/-- Within a segment the RTP times never go back, as counted from its first unit. -/
def TimesInOrder (idr : NalUnit) (nals : List NalUnit) : Prop :=
  ∀ before m n after, nals = before ++ m :: n :: after → n.streamEpoch = m.streamEpoch →
    offset idr before m ≤ offset idr (before ++ [m]) n

/-- A segment begun by an epoch change has a picture at least a millisecond after its first unit,
and later an IDR that is its first and gets a sequence header, before the end of the axis. -/
def LateHeader (sps pps idr : NalUnit) (nals : List NalUnit) : Prop :=
  ∃ before m between n after, nals = before ++ m :: between ++ n :: after ∧
    ChangedSinceIdr idr before m ∧
    m.isParameterSet = false ∧
    90 ≤ offset idr before m ∧
    (∀ u ∈ m :: between, u.streamEpoch = n.streamEpoch ∧ u.nalType ≠ NAL_TYPE_IDR) ∧
    n.nalType = NAL_TYPE_IDR ∧
    (packAvcDecoderConfig (latest NAL_TYPE_SPS sps (before ++ m :: between)).data
      (latest NAL_TYPE_PPS pps (before ++ m :: between)).data).isSome ∧
    ((axis idr before).enter m).base < 2 ^ 32 - 1

variable {sps pps idr n : NalUnit} {nals : List NalUnit}

theorem axis_concat (idr : NalUnit) (nals : List NalUnit) (n : NalUnit) :
    axis idr (nals ++ [n]) = (axis idr nals).next n := by
  unfold axis
  rw [List.foldl_append]
  rfl

namespace Axis

variable {a : Axis}

theorem enter_of_eq (h : n.streamEpoch = a.first.streamEpoch) : a.enter n = a :=
  if_pos h

theorem enter_of_ne (h : n.streamEpoch ≠ a.first.streamEpoch) :
    a.enter n = ⟨n, a.base + a.span + SEGMENT_GAP_MS.toNat, 0⟩ :=
  if_neg h

theorem enter_epoch (a : Axis) (n : NalUnit) : (a.enter n).first.streamEpoch = n.streamEpoch := by
  unfold enter
  split_ifs with hsame
  · exact hsame.symm
  · rfl

theorem next_first (a : Axis) (n : NalUnit) : (a.next n).first = (a.enter n).first := by
  unfold next
  split_ifs
  · rfl
  · rfl

theorem next_base (a : Axis) (n : NalUnit) : (a.next n).base = (a.enter n).base := by
  unfold next
  split_ifs
  · rfl
  · rfl

theorem next_span (a : Axis) (n : NalUnit) :
    (a.next n).span =
      if n.isParameterSet = true then (a.enter n).span
      else max (a.enter n).span ((a.enter n).ticks n / 90) := by
  unfold next
  split_ifs
  · rfl
  · rfl

end Axis

theorem axis_epoch (idr : NalUnit) (nals : List NalUnit) (n : NalUnit) :
    (axis idr (nals ++ [n])).first.streamEpoch = n.streamEpoch := by
  rw [axis_concat, Axis.next_first, Axis.enter_epoch]

/-! ### The fields of the writer follow the axis -/

/-- The fields are the axis, cut off at its end. -/
structure Segment.Follows (seg : Segment) (a : Axis) : Prop where
  cached : seg.Cached
  first : seg.baseRtpTimestamp = a.first.timestamp
  epoch : seg.currentEpoch = a.first.streamEpoch
  base : seg.segmentBaseFlv.toNat = min a.base (2 ^ 32 - 1)
  last : seg.lastFlvTs.toNat = min (a.base + a.span) (2 ^ 32 - 1)

namespace Segment.Follows

variable {seg : Segment} {a : Axis}

theorem changeSegment (h : seg.Follows a) (n : NalUnit) :
    (seg.changeSegment n).Follows (a.enter n) := by
  have hcached := changeSegment_cached h.cached n
  by_cases hsame : n.streamEpoch = seg.currentEpoch
  · rw [changeSegment_of_eq hsame, Axis.enter_of_eq (hsame.trans h.epoch)]
    exact h
  · have hlast := h.last
    rw [changeSegment_of_ne hsame] at hcached ⊢
    rw [Axis.enter_of_ne (by rw [← h.epoch]; exact hsame)]
    refine ⟨hcached, rfl, rfl, ?_, ?_⟩
    · dsimp only
      rw [toNat_saturatingAdd, hlast]
      omega
    · dsimp only
      rw [toNat_saturatingAdd, hlast]
      omega

theorem toNat_stamp (h : seg.Follows a) (n : NalUnit) :
    (seg.stamp n).toNat = min (a.base + a.ticks n / 90) (2 ^ 32 - 1) := by
  have hbase := h.base
  rw [stamp, toNat_saturatingAdd, UInt32.toNat_div, h.first, hbase]
  show min (_ + a.ticks n / 90) _ = _
  omega

theorem next (h : seg.Follows a) (n : NalUnit) : (seg.next n).Follows (a.next n) := by
  have hchanged := h.changeSegment n
  have hstamp := hchanged.toNat_stamp n
  have hlast := hchanged.last
  refine ⟨next_cached h.cached n, ?_, ?_, ?_, ?_⟩
  · rw [Axis.next_first, next_eq h.cached]
    exact hchanged.first
  · rw [Axis.next_first, next_eq h.cached]
    exact hchanged.epoch
  · rw [Axis.next_base, next_eq h.cached]
    exact hchanged.base
  · rw [Axis.next_base, Axis.next_span, next_eq h.cached]
    dsimp only
    split_ifs
    · exact hlast
    · rw [toNat_highWater, hstamp, hlast]
      omega

theorem after (h : seg.Follows a) (nals : List NalUnit) :
    (seg.after nals).Follows (nals.foldl Axis.next a) := by
  induction nals generalizing seg a with
  | nil => exact h
  | cons n nals ih => exact ih (h.next n)

end Segment.Follows

open StreamWriter in
theorem seeded_follows (sps pps idr : NalUnit) (nals : List NalUnit) :
    ((seeded sps pps idr).after nals).Follows (axis idr nals) :=
  Segment.Follows.after ⟨seeded_cached sps pps idr, rfl, rfl, rfl, rfl⟩ nals

/-! ### Units of one segment -/

/-- Units of the epoch of a segment leave it where it is. -/
theorem Axis.foldl_sameSegment {a : Axis} (nals : List NalUnit)
    (h : ∀ u ∈ nals, u.streamEpoch = a.first.streamEpoch) :
    (nals.foldl Axis.next a).first = a.first ∧ (nals.foldl Axis.next a).base = a.base := by
  induction nals generalizing a with
  | nil => exact ⟨rfl, rfl⟩
  | cons n nals ih =>
    have hn := h n List.mem_cons_self
    have hfirst : (a.next n).first = a.first := by rw [Axis.next_first, Axis.enter_of_eq hn]
    have hbase : (a.next n).base = a.base := by rw [Axis.next_base, Axis.enter_of_eq hn]
    obtain ⟨hfirst', hbase'⟩ := ih (a := a.next n) (by
      intro u hu
      rw [hfirst]
      exact h u (List.mem_cons_of_mem n hu))
    exact ⟨hfirst'.trans hfirst, hbase'.trans hbase⟩

/-- While no IDR comes a change stays open. -/
theorem ChangedSinceIdr.append {before : List NalUnit} {m : NalUnit}
    (h : ChangedSinceIdr idr before m) (between : List NalUnit)
    (hidr : ∀ u ∈ m :: between, u.nalType ≠ NAL_TYPE_IDR) (n : NalUnit) :
    ChangedSinceIdr idr (before ++ m :: between) n := by
  induction between using List.reverseRecOn generalizing n with
  | nil =>
    rw [changedSinceIdr_concat]
    exact Or.inr ⟨hidr m List.mem_cons_self, h⟩
  | append_singleton between k ih =>
    rw [← List.cons_append, ← List.append_assoc, changedSinceIdr_concat]
    refine Or.inr ⟨hidr k (by simp), ih ?_ k⟩
    intro u hu
    apply hidr
    rw [← List.cons_append]
    exact List.mem_append_left _ hu

theorem TimesInOrder.of_append {more : List NalUnit} (h : TimesInOrder idr (nals ++ more)) :
    TimesInOrder idr nals := by
  intro before m n after hsplit hepoch
  refine h before m n (after ++ more) ?_ hepoch
  rw [hsplit, List.append_assoc]
  rfl

theorem LateHeader.append (h : LateHeader sps pps idr nals) (more : List NalUnit) :
    LateHeader sps pps idr (nals ++ more) := by
  obtain ⟨before, m, between, n, after, hsplit, hrest⟩ := h
  refine ⟨before, m, between, n, after ++ more, ?_, hrest⟩
  rw [hsplit, List.append_assoc]
  rfl

/-- In order, no picture of the segment is later than the unit `n`. -/
theorem TimesInOrder.span_le (h : TimesInOrder idr (nals ++ [n]))
    (hepoch : n.streamEpoch = (axis idr nals).first.streamEpoch) :
    (axis idr nals).span ≤ (axis idr nals).ticks n / 90 := by
  induction nals using List.reverseRecOn generalizing n with
  | nil => exact Nat.zero_le _
  | append_singleton nals m ih =>
    have hm := axis_epoch idr nals m
    rw [hm] at hepoch
    -- The ticks of `n` are those of `offset`, since its segment goes on.
    have hstep : ((axis idr nals).enter m).ticks m ≤ ((axis idr nals).next m).ticks n := by
      have horder := h nals m n [] (by rw [List.append_assoc]; rfl) hepoch
      unfold offset at horder
      rwa [Axis.enter_of_eq (hepoch.trans hm.symm), axis_concat] at horder
    have hbefore : ((axis idr nals).enter m).span ≤ ((axis idr nals).enter m).ticks m / 90 := by
      by_cases hsame : m.streamEpoch = (axis idr nals).first.streamEpoch
      · rw [Axis.enter_of_eq hsame]
        exact ih h.of_append hsame
      · rw [Axis.enter_of_ne hsame]
        exact Nat.zero_le _
    rw [axis_concat, Axis.next_span]
    split_ifs
    · omega
    · omega

/-- A segment that began with an open change and has come forward has a picture that did it. -/
theorem exists_picture_of_span (hspan : 0 < (axis idr nals).span)
    (hepoch : n.streamEpoch = (axis idr nals).first.streamEpoch)
    (hchanged : ChangedSinceIdr idr nals n) :
    ∃ before m between, nals = before ++ m :: between ∧ ChangedSinceIdr idr before m ∧
      m.isParameterSet = false ∧ 90 ≤ offset idr before m ∧
      (∀ u ∈ m :: between, u.streamEpoch = n.streamEpoch ∧ u.nalType ≠ NAL_TYPE_IDR) ∧
      ((axis idr before).enter m).base = (axis idr nals).base := by
  induction nals using List.reverseRecOn generalizing n with
  | nil => exact absurd hspan (Nat.lt_irrefl 0)
  | append_singleton nals k ih =>
    rw [axis_epoch] at hepoch
    have hopen : k.nalType ≠ NAL_TYPE_IDR ∧ ChangedSinceIdr idr nals k := by
      rcases (changedSinceIdr_concat idr nals k n).mp hchanged with hne | hopen
      · exact absurd hepoch hne
      · exact hopen
    have hbase : (axis idr (nals ++ [k])).base = ((axis idr nals).enter k).base := by
      rw [axis_concat, Axis.next_base]
    rw [axis_concat, Axis.next_span] at hspan
    by_cases hbefore : 0 < ((axis idr nals).enter k).span
    · -- The segment had come forward before `k`, which therefore did not begin it.
      have hsame : k.streamEpoch = (axis idr nals).first.streamEpoch := by
        by_contra hne
        rw [Axis.enter_of_ne hne] at hbefore
        exact Nat.lt_irrefl 0 hbefore
      rw [Axis.enter_of_eq hsame] at hbefore hbase
      obtain ⟨before, m, between, hsplit, hm, hpicture, hlate, hunits, hstart⟩ :=
        ih hbefore hsame hopen.2
      refine ⟨before, m, between ++ [k], ?_, hm, hpicture, hlate, ?_, hstart.trans hbase.symm⟩
      · rw [hsplit, List.append_assoc]
        rfl
      · intro u hu
        rw [← List.cons_append] at hu
        rcases List.mem_append.mp hu with hfront | hlast
        · exact ⟨(hunits u hfront).1.trans hepoch.symm, (hunits u hfront).2⟩
        · rw [List.mem_singleton.mp hlast]
          exact ⟨hepoch.symm, hopen.1⟩
    · have hzero : ((axis idr nals).enter k).span = 0 := Nat.eq_zero_of_not_pos hbefore
      by_cases hset : k.isParameterSet = true
      · rw [if_pos hset, hzero] at hspan
        exact absurd hspan (Nat.lt_irrefl 0)
      · rw [if_neg hset, hzero] at hspan
        refine ⟨nals, k, [], rfl, hopen.2, eq_false_of_ne_true hset, ?_, ?_, hbase.symm⟩
        · unfold offset
          omega
        · intro u hu
          rw [List.mem_singleton.mp hu]
          exact ⟨hepoch.symm, hopen.1⟩

/-! ### The order of the tags -/

/-- The times of the tags never go back. -/
def NeverBack (tags : List Tag) : Prop :=
  tags.Pairwise fun t u ↦ t.timestamp.toNat ≤ u.timestamp.toNat

namespace StreamWriter

theorem runTags_append (sps pps idr : NalUnit) (nals more : List NalUnit) :
    runTags sps pps idr (nals ++ more) =
      runTags sps pps idr nals ++ ((seeded sps pps idr).after nals).tagsAll more := by
  unfold runTags
  rw [Segment.tagsAll_append, ← List.append_assoc]

theorem runTags_concat (sps pps idr : NalUnit) (nals : List NalUnit) (n : NalUnit) :
    runTags sps pps idr (nals ++ [n]) =
      runTags sps pps idr nals ++ ((seeded sps pps idr).after nals).tags n := by
  rw [runTags_append]
  exact congrArg _ (List.append_nil _)

theorem headerTags_length_le (seg : Segment) (n : NalUnit) : (seg.headerTags n).length ≤ 1 := by
  unfold Segment.headerTags seqHeader
  split_ifs
  · cases (packAvcDecoderConfig (seg.segSps.getD []) (seg.segPps.getD [])) with
    | none => exact Nat.zero_le 1
    | some => exact Nat.le_refl 1
  · exact Nat.zero_le 1

/-- The tags of one unit are in order: the header has the time at which the segment begins. -/
theorem neverBack_tags {seg : Segment} (h : seg.OnAxis) (n : NalUnit) : NeverBack (seg.tags n) := by
  by_cases hset : n.isParameterSet = true
  · rw [Segment.tags_of_parameterSet seg hset]
    exact List.Pairwise.nil
  · rw [Segment.tags_of_cached h.cached (eq_false_of_ne_true hset)]
    apply List.pairwise_append.mpr
    refine ⟨?_, List.pairwise_singleton _ _, ?_⟩
    · have hlength := headerTags_length_le (seg.changeSegment n) n
      match hheader : (seg.changeSegment n).headerTags n with
      | [] => exact List.Pairwise.nil
      | [t] => exact List.pairwise_singleton _ t
      | t :: u :: rest =>
        rw [hheader] at hlength
        simp at hlength
    · intro t ht u hu
      rw [Segment.headerTags_timestamp ht, List.mem_singleton.mp hu]
      exact Segment.base_le_stamp _ n

/-- The header that is due before `n` is late: its segment has come forward before. -/
theorem lateHeader_of_span {t : Tag}
    (hepoch : n.streamEpoch = (axis idr nals).first.streamEpoch)
    (ht : t ∈ ((seeded sps pps idr).after nals).headerTags n)
    (hback : t.timestamp.toNat < ((seeded sps pps idr).after nals).lastFlvTs.toNat) :
    LateHeader sps pps idr (nals ++ [n]) := by
  have hfollows := seeded_follows sps pps idr nals
  have hsame : ((seeded sps pps idr).after nals).changeSegment n =
      (seeded sps pps idr).after nals :=
    Segment.changeSegment_of_eq (hepoch.trans hfollows.epoch.symm)
  have hbase := hfollows.base
  rw [Segment.headerTags_timestamp ht, hbase, hfollows.last] at hback
  unfold Segment.headerTags at ht
  split_ifs at ht with hdue
  · have hchanged : ChangedSinceIdr idr nals n := by
      rw [← pending_iff sps pps idr nals n, hsame]
      exact hdue.1
    obtain ⟨before, m, between, hsplit, hm, hpicture, hlate, hunits, hstart⟩ :=
      exists_picture_of_span (by omega) hepoch hchanged
    refine ⟨before, m, between, n, [], ?_, hm, hpicture, hlate, hunits, hdue.2, ?_, ?_⟩
    · rw [hsplit]
    · obtain ⟨hsps, hpps⟩ := after_sets (seeded_cached sps pps idr) rfl rfl nals
      rw [hsps, hpps] at ht
      obtain ⟨cfg, hcfg, _⟩ := Option.map_eq_some_iff.mp (Option.mem_toList.mp ht)
      rw [← hsplit]
      exact Option.isSome_iff_exists.mpr ⟨cfg, hcfg⟩
    · rw [hstart]
      omega
  · exact absurd ht List.not_mem_nil

/-- A unit whose times are in order and whose header is not late comes after all tags. -/
theorem last_le_tags (horder : TimesInOrder idr (nals ++ [n]))
    (hlate : ¬LateHeader sps pps idr (nals ++ [n])) :
    ∀ t ∈ ((seeded sps pps idr).after nals).tags n,
      ((seeded sps pps idr).after nals).lastFlvTs.toNat ≤ t.timestamp.toNat := by
  have hfollows := seeded_follows sps pps idr nals
  have haxis := ((seeded_onAxis sps pps idr).after nals).1
  intro t ht
  by_cases hepoch : n.streamEpoch = (axis idr nals).first.streamEpoch
  · have hsame : ((seeded sps pps idr).after nals).changeSegment n =
        (seeded sps pps idr).after nals :=
      Segment.changeSegment_of_eq (hepoch.trans hfollows.epoch.symm)
    by_cases hset : n.isParameterSet = true
    · rw [Segment.tags_of_parameterSet _ hset] at ht
      exact absurd ht List.not_mem_nil
    · rw [Segment.tags_of_cached haxis.cached (eq_false_of_ne_true hset), hsame] at ht
      rcases List.mem_append.mp ht with hheader | hnalu
      · by_contra hback
        exact hlate (lateHeader_of_span hepoch hheader (Nat.lt_of_not_le hback))
      · have hspan := horder.span_le hepoch
        rw [List.mem_singleton.mp hnalu, hfollows.toNat_stamp, hfollows.last]
        omega
  · -- A new segment begins after the high-water mark.
    have hchange : n.streamEpoch ≠ ((seeded sps pps idr).after nals).currentEpoch := by
      rw [hfollows.epoch]
      exact hepoch
    have hlow := haxis.tagsAll_of_change hchange [] t (List.mem_append_left _ ht)
    have hlt := ((seeded sps pps idr).after nals).lastFlvTs.toNat_lt
    omega

theorem neverBack_runTags (horder : TimesInOrder idr nals) (hlate : ¬LateHeader sps pps idr nals) :
    NeverBack (runTags sps pps idr nals) := by
  induction nals using List.reverseRecOn with
  | nil =>
    have hseed := runTags_le sps pps idr []
    apply List.pairwise_of_forall_mem_list
    intro t ht u hu
    exact Nat.le_trans (hseed t ht) (Nat.zero_le _)
  | append_singleton nals n ih =>
    have hrest := ih horder.of_append fun h ↦ hlate (h.append [n])
    have haxis := ((seeded_onAxis sps pps idr).after nals).1
    rw [runTags_concat]
    apply List.pairwise_append.mpr
    refine ⟨hrest, neverBack_tags haxis n, ?_⟩
    intro t ht u hu
    exact Nat.le_trans (runTags_le sps pps idr nals t ht) (last_le_tags horder hlate u hu)

/-- With the right parameter sets the first IDR after a change has a header before it. -/
theorem headerTags_of_changed (hidr : n.nalType = NAL_TYPE_IDR)
    (hchanged : ChangedSinceIdr idr nals n)
    (hpack : (packAvcDecoderConfig (latest NAL_TYPE_SPS sps nals).data
      (latest NAL_TYPE_PPS pps nals).data).isSome) :
    ∃ t ∈ ((seeded sps pps idr).after nals).tags n,
      t.timestamp = (((seeded sps pps idr).after nals).changeSegment n).segmentBaseFlv := by
  have hcached := Segment.after_cached (seeded_cached sps pps idr) nals
  obtain ⟨hsps, hpps⟩ := after_sets (seeded_cached sps pps idr) rfl rfl nals
  obtain ⟨hsps', hpps'⟩ := Segment.changeSegment_sets ((seeded sps pps idr).after nals) n
  obtain ⟨cfg, hcfg⟩ := Option.isSome_iff_exists.mp hpack
  have hpicture : n.isParameterSet = false := by
    rw [NalUnit.isParameterSet, hidr]
    rfl
  refine ⟨⟨(((seeded sps pps idr).after nals).changeSegment n).segmentBaseFlv, seqHeaderBody cfg⟩,
    ?_, rfl⟩
  rw [Segment.tags_of_cached hcached hpicture]
  apply List.mem_append_left
  unfold Segment.headerTags
  rw [if_pos ⟨(pending_iff sps pps idr nals n).mpr hchanged, hidr⟩, hsps', hpps', hsps, hpps]
  apply Option.mem_toList.mpr
  exact Option.map_eq_some_iff.mpr ⟨cfg, hcfg, rfl⟩

/-- The segment of `m` goes on while its epoch does. -/
theorem axis_sameSegment (idr : NalUnit) (before : List NalUnit) (m : NalUnit)
    (between : List NalUnit) (h : ∀ u ∈ between, u.streamEpoch = m.streamEpoch) :
    (axis idr (before ++ m :: between)).first = ((axis idr before).enter m).first ∧
      (axis idr (before ++ m :: between)).base = ((axis idr before).enter m).base := by
  have hfold : axis idr (before ++ m :: between) =
      between.foldl Axis.next ((axis idr before).next m) := by
    unfold axis
    rw [List.foldl_append]
    rfl
  have hsame := Axis.foldl_sameSegment (a := (axis idr before).next m) between (by
    intro u hu
    rw [Axis.next_first, Axis.enter_epoch]
    exact h u hu)
  rw [hfold]
  exact ⟨hsame.1.trans (Axis.next_first _ _), hsame.2.trans (Axis.next_base _ _)⟩

/-- A late header goes back behind the picture before it. -/
theorem not_neverBack_of_lateHeader (hlate : LateHeader sps pps idr nals) :
    ¬NeverBack (runTags sps pps idr nals) := by
  obtain ⟨before, m, between, n, after, rfl, hm, hpicture, hoffset, hunits, hidr, hpack, hend⟩ :=
    hlate
  have hfollows := (seeded_follows sps pps idr before).changeSegment m
  have hfollows' := (seeded_follows sps pps idr (before ++ m :: between)).changeSegment n
  have hmn := (hunits m List.mem_cons_self).1
  obtain ⟨hfirst, hbase⟩ := axis_sameSegment idr before m between fun u hu ↦
    (hunits u (List.mem_cons_of_mem m hu)).1.trans hmn.symm
  -- The header before `n` has the time at which the segment of `m` began.
  obtain ⟨header, hheader, hts⟩ := headerTags_of_changed hidr
    (hm.append between (fun u hu ↦ (hunits u hu).2) n) hpack
  rw [Axis.enter_of_eq (by rw [hfirst, Axis.enter_epoch]; exact hmn.symm)] at hfollows'
  have hstart := hfollows'.base
  rw [← hts, hbase] at hstart
  -- The tag of `m` has a later time.
  have hpictureTag :
      (⟨(((seeded sps pps idr).after before).changeSegment m).stamp m, naluBody [m]⟩ :
      Tag) ∈ ((seeded sps pps idr).after before).tags m := by
    rw [Segment.tags_of_cached (Segment.after_cached (seeded_cached sps pps idr) before) hpicture]
    simp
  have hstamp := hfollows.toNat_stamp m
  have hticks : 90 ≤ ((axis idr before).enter m).ticks m := hoffset
  intro hsorted
  rw [runTags_append, runTags_append] at hsorted
  have hpairs := (List.pairwise_append.mp hsorted).2.2
  have hle := hpairs _ (List.mem_append_right _ (List.mem_append_left _ hpictureTag)) header
    (List.mem_append_left _ hheader)
  dsimp only at hle
  omega

theorem pairwise_tagTimestamp (tags : List Tag) :
    ((tags.map Tag.bytes).map tagTimestamp).Pairwise (· ≤ ·) ↔ NeverBack tags := by
  unfold NeverBack
  rw [List.map_map, List.pairwise_map]
  simp only [Function.comp_apply, tagTimestamp_bytes]

/-- If the RTP times within each segment are in order, the times of the tags of a run never go back
exactly when no header is late. -/
theorem run_neverBack_iff {ε : Type*} {writer : Writer ε} (hwriter : Accepts writer)
    (sps pps idr : NalUnit) (received : List Recv)
    (horder : TimesInOrder idr (received.filterMap Recv.nal?)) :
    ∃ s, new.run writer (some (sps, pps, idr)) received = .ok s ∧
      (((s.written.drop 1).map tagTimestamp).Pairwise (· ≤ ·) ↔
        ¬LateHeader sps pps idr (received.filterMap Recv.nal?)) := by
  obtain ⟨s, hrun, hwritten⟩ := hwriter.run sps pps idr received
  refine ⟨s, hrun, ?_⟩
  rw [hwritten, List.drop_succ_cons, List.drop_zero, pairwise_tagTimestamp]
  constructor
  · intro hsorted hlate
    exact not_neverBack_of_lateHeader hlate hsorted
  · exact neverBack_runTags horder

/-- The order of the times, unit by unit. -/
theorem timesInOrder_of_index
    (h : ∀ i < nals.length - 1,
      (nals.getD (i + 1) idr).streamEpoch = (nals.getD i idr).streamEpoch →
        offset idr (nals.take i) (nals.getD i idr) ≤
          offset idr (nals.take (i + 1)) (nals.getD (i + 1) idr)) :
    TimesInOrder idr nals := by
  rintro before m n after rfl hepoch
  have hstep := h before.length (by simp)
  have htake : before.take (before.length + 1) = before := List.take_of_length_le (by omega)
  simpa [List.take_append, hepoch, htake] using hstep

/-- The units of a re-invite whose first IDR comes 80 ms after its first picture. -/
def lateIdr : List NalUnit :=
  [interUnit 5000 1, interUnit 8600 1, ⟨NAL_TYPE_SPS, [0x67, 0x64, 0xc0, 0x16], 12200, 1⟩,
    ⟨NAL_TYPE_PPS, [0x68, 0xee, 0x31], 12200, 1⟩, ⟨NAL_TYPE_IDR, [0x65, 0xab], 12200, 1⟩]

/-- With the IDR in front no header is late. -/
theorem run_neverBack_iff_reinvite :
    ∃ s, new.run vec (some (seedSps, seedPps, seedIdr))
        [.nal (interUnit 93600 0), .nal ⟨NAL_TYPE_IDR, [0x65, 0xab], 5000, 1⟩,
          .nal (interUnit 8600 1)] = .ok s ∧
      (((s.written.drop 1).map tagTimestamp).Pairwise (· ≤ ·) ↔
        ¬LateHeader seedSps seedPps seedIdr
          [interUnit 93600 0, ⟨NAL_TYPE_IDR, [0x65, 0xab], 5000, 1⟩, interUnit 8600 1]) :=
  run_neverBack_iff accepts_vec seedSps seedPps seedIdr
    [.nal (interUnit 93600 0), .nal ⟨NAL_TYPE_IDR, [0x65, 0xab], 5000, 1⟩, .nal (interUnit 8600 1)]
    (timesInOrder_of_index (by decide))

/-- The times of `lateIdr` are in order, and its sequence header is written with the time 40 after a
picture with the time 80. -/
theorem run_lateIdr_goes_back :
    TimesInOrder seedIdr lateIdr ∧
      ∃ s, new.run vec (some (seedSps, seedPps, seedIdr)) (lateIdr.map .nal) = .ok s ∧
        (s.written.drop 1).map tagTimestamp = [0, 0, 40, 80, 40, 120] ∧
        ¬((s.written.drop 1).map tagTimestamp).Pairwise (· ≤ ·) := by
  obtain ⟨s, hrun, hwritten⟩ := accepts_vec.run seedSps seedPps seedIdr (lateIdr.map .nal)
  have htimes : (s.written.drop 1).map tagTimestamp = [0, 0, 40, 80, 40, 120] := by
    rw [hwritten]
    decide
  refine ⟨timesInOrder_of_index (by decide), s, hrun, htimes, ?_⟩
  rw [htimes]
  decide

end StreamWriter

end DoorAccess.Video
